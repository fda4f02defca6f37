import StyxWire.Ars.InternetCksum
import StyxWire.Ars.Shapes
import StyxWire.Hping.IpOptions
import StyxWire.Hping.Receive

/-!
# The probes

The messages that the senders build, without the IP header that is put in front of them: a TCP
segment or a UDP datagram (`sendtcp.c`, `sendudp.c`), an ICMP message (`sendicmp.c`), or data alone
(`sendrawip.c`), with what `data_handler` (`datahandler.c`) leaves in the data. The books that
are kept are in `StyxWire.Hping.Send`.

All but two of the senders go through the engine, and their messages are as long as the shape of
the packet that they set up; behind a TCP or UDP header the IP header of that packet is dropped
again. So each message is built, and its length is that of a header and of the data
(`StyxWire.Hping.Probes.length_sendTcp` and those that follow). The header that quotes another
datagram is the longest.
-/

namespace StyxWire.Hping.Probes

open Mem

/-! ### What a probe is made of -/

/-- An address. -/
abbrev Addr := {ip : List UInt8 // ip.length = 4}

/-- The configuration that the senders read. -/
structure ProbeConfig where
  /-- `data_size`, an `unsigned short`. -/
  dataSize : UInt16
  /-- `--sign` or `--listen`, and the length of what was given. -/
  sign : List UInt8
  signlen : ℕ
  optSign : Bool
  optListenmode : Bool
  optDatafromfile : Bool
  optScanmode : Bool
  optRawipmode : Bool
  optIcmpmode : Bool
  optUdpmode : Bool
  optBadcksum : Bool
  /-- `--setseq`, if it is given. -/
  tcpSeqnum : Option ℕ
  /-- `--setack`, if it is given. -/
  tcpAck : Option ℕ
  tcpThFlags : ℕ
  srcWinsize : ℕ
  srcThoff : ℕ
  optTcpTimestamp : Bool
  optIcmptype : ℕ
  optIcmpcode : ℕ
  optForceIcmp : Bool
  /-- -1 is for a checksum that is computed. -/
  icmpCksum : ℤ
  icmpIpVersion : ℕ
  icmpIpIhl : ℕ
  icmpIpTos : ℕ
  /-- 0 is for a length that is computed. -/
  icmpIpTotLen : ℕ
  icmpIpProtocol : ℕ
  icmpIpSrcport : ℕ
  icmpIpDstport : ℕ
  /-- `--lsrr`, `--ssrr` and `--rroute`. -/
  routes : {cfg : RouteConfig // cfg.Ok}

/-- What is different from one probe to the next, or comes from the system. -/
structure Probe where
  saddr : Addr
  daddr : Addr
  sport : ℕ
  dport : ℕ
  /-- Two calls of `hping_rand()`, for the numbers that are not set. -/
  randSeq : ℕ
  randAck : ℕ
  /-- Another one, for the timestamp. -/
  randts : Addr
  pid : ℕ
  icmpSeq : ℕ
  /-- `get_midnight_ut_ms()`. -/
  midnightMs : ℕ
  icmpIpSrc : Addr
  icmpIpDst : Addr
  icmpGw : Addr
  /-- What `datafiller` leaves in the data. -/
  file : List UInt8
  /-- The signature of the other side, and the request that is sent to it. -/
  rsign : List UInt8
  hcmphdr : List UInt8

/-- Why a probe is not sent. -/
inductive SendErr
  /-- What the engine says, and the function that prints it. -/
  | engine (name : String) (e : ArsErr)
  /-- `[send_icmp] Unsupported icmp type!` -/
  | unsupported
  deriving DecidableEq, Repr

variable (cfg : ProbeConfig) (p : Probe)

/-- `data_handler`, on a block of its size. -/
def dataHandler (data : List UInt8) : List UInt8 :=
  if cfg.optListenmode then
    writeAt (writeAt data 0 (p.rsign.take cfg.signlen)) cfg.signlen
      (p.hcmphdr.take (data.length - cfg.signlen))
  else
    let (data, used) :=
      if cfg.optSign then (writeAt data 0 (cfg.sign.take cfg.signlen), cfg.signlen) else (data, 0)
    let size := data.length - used
    if size = 0 then data
    else if cfg.optDatafromfile then writeAt data used (p.file.take size)
    else writeAt data used (List.replicate size 88)

/-- The data of a probe, in a block that is zeroed. -/
def probeData : List UInt8 := dataHandler cfg p (List.replicate cfg.dataSize.toNat 0)

/-! ### The senders -/

/-- The data, if there is any, as a layer. -/
def addData (pkt : ArsPacket) : Except ArsErr ArsPacket :=
  if cfg.dataSize = 0 then .ok pkt
  else (arsAddData pkt cfg.dataSize.toNat).map (·.writeLast 0 (probeData cfg p))

/-- The IP header that the checksums are computed from. -/
def addIp (protocol : UInt8) : Except ArsErr ArsPacket :=
  (arsAddIphdr arsInit).map fun pkt =>
    ((pkt.writeLast 12 p.saddr.1).writeLast 16 p.daddr.1).writeLast 9 [protocol]

/-- The end of `send_tcp` and of `send_udp`: what is built, from a layer on. -/
def buildFrom (layer : ℕ) (pkt : ArsPacket) : Except ArsErr (List UInt8) := do
  let pkt ← arsCompile pkt
  let built ← arsBuildPacket pkt
  return built.drop (built.length - arsRelativeSize (pkt.pLayer.drop layer))

/-- `--badcksum`, for a checksum that is right. -/
def spoil (off : ℕ) (segment : List UInt8) : List UInt8 :=
  if cfg.optBadcksum then
    writeAt segment off [segment.getD off 0 ^^^ 0x55, segment.getD (off + 1) 0 ^^^ 0x55]
  else segment

/-- The TCP header. -/
def addTcp (pkt : ArsPacket) : Except ArsErr ArsPacket :=
  (arsAddTcphdr pkt).map fun pkt =>
    let pkt := (pkt.writeLast 0 (putBe16 p.sport)).writeLast 2 (putBe16 p.dport)
    let pkt := pkt.writeLast 4 (putBe32 (cfg.tcpSeqnum.getD p.randSeq))
    let pkt := pkt.writeLast 8 (putBe32 (cfg.tcpAck.getD p.randAck))
    let pkt := (pkt.writeLast 14 (putBe16 cfg.srcWinsize)).writeLast 13 [UInt8.ofNat cfg.tcpThFlags]
    let tcpOptSize := if cfg.optTcpTimestamp then 12 else 0
    arsSetFlags (pkt.mapLast (·.writeHi 12 (cfg.srcThoff + tcpOptSize / 4))) arsTakeTcpHdrlen

/-- The timestamp, if there is one, with two no-operations in front of it. -/
def addTimestamp (pkt : ArsPacket) : Except ArsErr ArsPacket :=
  if cfg.optTcpTimestamp then do
    let pkt ← arsAddTcpopt pkt arsTcpoptNop
    let pkt ← arsAddTcpopt pkt arsTcpoptNop
    let pkt ← arsAddTcpopt pkt arsTcpoptTimestamp
    return (pkt.writeLast 2 p.randts.1).writeLast 6 [0, 0, 0, 0]
  else .ok pkt

/-- `send_tcp`. -/
def sendTcp : Except SendErr (List UInt8) :=
  Except.mapError (.engine "send_tcp") do
    let pkt ← addIp p 6
    let tcpLayer := pkt.pLayer.length
    let pkt ← addTcp cfg p pkt
    let pkt ← addTimestamp cfg p pkt
    let pkt ← addData cfg p pkt
    let segment ← buildFrom tcpLayer pkt
    return spoil cfg 16 segment

/-- `send_udp`. -/
def sendUdp : Except SendErr (List UInt8) :=
  Except.mapError (.engine "send_udp") do
    let pkt ← addIp p 17
    let udpLayer := pkt.pLayer.length
    let pkt ← (arsAddUdphdr pkt).map fun pkt =>
      (pkt.writeLast 0 (putBe16 p.sport)).writeLast 2 (putBe16 p.dport)
    let pkt ← addData cfg p pkt
    let segment ← buildFrom udpLayer pkt
    return spoil cfg 6 segment

/-- `ars_set_flags`, for a layer that is not the last. -/
def setLayerFlags (pkt : ArsPacket) (layer flags : ℕ) : ArsPacket :=
  { pkt with
    pLayer := pkt.pLayer.modify layer (·.setFlags flags)
    nr_le := (List.length_modify _ _ _).trans_le pkt.nr_le }

/-- The body of the senders of ICMP messages that go through the engine. -/
def sendIcmpArs (code : ℕ) (addBody : ArsPacket → Except ArsErr ArsPacket) :
    Except SendErr (List UInt8) :=
  Except.mapError (.engine "send_icmp") do
    let pkt ← arsAddIcmphdr arsInit
    let pkt := pkt.writeLast 0 [UInt8.ofNat cfg.optIcmptype, UInt8.ofNat code]
    let pkt := (pkt.writeLast 4 (putLe16 p.pid)).writeLast 6 (putLe16 p.icmpSeq)
    let pkt ← addBody pkt
    let pkt := if cfg.icmpCksum ≠ -1 then setLayerFlags pkt 0 arsTakeIcmpCksum else pkt
    let pkt ← arsCompile pkt
    let built ← arsBuildPacket pkt
    return if cfg.icmpCksum ≠ -1 then writeAt built 2 (putLe16 (cfg.icmpCksum % 65536).toNat)
      else built

/-- `send_icmp_echo`. -/
def sendIcmpEcho : Except SendErr (List UInt8) :=
  sendIcmpArs cfg p cfg.optIcmpcode (addData cfg p)

/-- `send_icmp_timestamp`. -/
def sendIcmpTimestamp : Except SendErr (List UInt8) :=
  sendIcmpArs cfg p 0 fun pkt => (arsAddData pkt 12).map (·.writeLast 0 (putBe32 p.midnightMs))

/-- `send_icmp_address`. -/
def sendIcmpAddress : Except SendErr (List UInt8) :=
  sendIcmpArs cfg p 0 fun pkt => arsAddData pkt 4

/-- `cksum(buf, sizeof(buf))`. -/
def cksumAll (buf : List UInt8) : Except SendErr ℕ :=
  match cksum cfg.optBadcksum buf (Int32.ofNat buf.length) with
  | some sum => .ok sum
  | none => .error (.engine "cksum" .oob)

/-- The IP header that is quoted, with some checksum. -/
def quotedIp (check : ℕ) : List UInt8 :=
  let totLen := if cfg.icmpIpTotLen ≠ 0 then cfg.icmpIpTotLen else cfg.icmpIpIhl * 4 + udphdrSize
  [setHi (UInt8.ofNat (cfg.icmpIpIhl % 16)) cfg.icmpIpVersion, UInt8.ofNat cfg.icmpIpTos] ++
    putBe16 totLen ++ putBe16 p.pid ++ [0, 0, 64, UInt8.ofNat cfg.icmpIpProtocol] ++
    putLe16 check ++ p.icmpIpSrc.1 ++ p.icmpIpDst.1

/-- The UDP header that is quoted, with some checksum. -/
def quotedUdp (sum : ℕ) : List UInt8 :=
  putBe16 cfg.icmpIpSrcport ++ putBe16 cfg.icmpIpDstport ++ putBe16 udphdrSize ++ putLe16 sum

/-- The pseudo header of the datagram that is quoted; the length is that of the IP header. -/
def quotedPseudohdr : List UInt8 :=
  p.icmpIpSrc.1 ++ p.icmpIpDst.1 ++ [0, UInt8.ofNat cfg.icmpIpProtocol] ++
    ((quotedIp cfg p 0).drop 2).take 2

/-- `ICMP_REDIRECT`. -/
def icmpRedirect : ℕ := 5

/-- An error that quotes the headers of a datagram, with some checksums. -/
def quotingMessage (check sum checksum : ℕ) : List UInt8 :=
  let gateway := if cfg.optIcmptype = icmpRedirect then p.icmpGw.1 else [0, 0, 0, 0]
  let data := if cfg.dataSize = 0 then [] else probeData cfg p
  [UInt8.ofNat cfg.optIcmptype, UInt8.ofNat cfg.optIcmpcode] ++ putLe16 checksum ++ gateway ++
    (quotedIp cfg p check ++ quotedUdp cfg sum ++ data)

/-- `send_icmp_other`. -/
def sendIcmpOther : Except SendErr (List UInt8) := do
  let check ← cksumAll cfg (quotedIp cfg p 0)
  let sum ← cksumAll cfg (quotedPseudohdr cfg p ++ quotedUdp cfg 0)
  if cfg.icmpCksum = -1 then
    let checksum ← cksumAll cfg (quotingMessage cfg p check sum 0)
    return quotingMessage cfg p check sum checksum
  else return quotingMessage cfg p check sum (cfg.icmpCksum % 65536).toNat

/-- `send_icmp`. -/
def sendIcmp : Except SendErr (List UInt8) :=
  if cfg.optIcmptype = icmpEcho ∨ cfg.optIcmptype = icmpEchoreply then sendIcmpEcho cfg p
  else if cfg.optIcmptype ∈ [3, 4, icmpRedirect, 11] then sendIcmpOther cfg p
  else if cfg.optIcmptype = icmpTimestamp ∨ cfg.optIcmptype = icmpTimestampreply then
    sendIcmpTimestamp cfg p
  else if cfg.optIcmptype = icmpAddress ∨ cfg.optIcmptype = icmpAddressreply then
    sendIcmpAddress cfg p
  else if cfg.optForceIcmp then sendIcmpOther cfg p
  else .error .unsupported

/-- `send_rawip`. -/
def sendRawip : Except SendErr (List UInt8) := .ok (probeData cfg p)

/-- `send_packet`. The addresses are chosen already. -/
def sendPacket : Except SendErr (List UInt8) :=
  if cfg.optRawipmode then sendRawip cfg p
  else if cfg.optIcmpmode then sendIcmp cfg p
  else if cfg.optUdpmode then sendUdp cfg p
  else sendTcp cfg p

/-- `sizeof(struct hcmphdr)`. -/
def hcmphdrSize : ℕ := 8

/-- `send_hcmp`: the data is the signature and a request. -/
def sendHcmp : Except SendErr (List UInt8) :=
  sendPacket { cfg with dataSize := UInt16.ofNat (cfg.signlen + hcmphdrSize) } p

/-- What `hping_run` sends: requests for a listener, segments for a scan, and else what is asked
for. -/
def sendProbe : Except SendErr (List UInt8) :=
  if cfg.optListenmode then sendHcmp cfg p
  else if cfg.optScanmode then sendTcp cfg p
  else sendPacket cfg p

/-! ### How long the messages are -/

variable {cfg} {p}

theorem length_dataHandler (data : List UInt8) : (dataHandler cfg p data).length = data.length := by
  rw [dataHandler]
  by_cases hlisten : cfg.optListenmode = true
  · rw [if_pos hlisten, length_writeAt, length_writeAt]
  · rw [if_neg hlisten]
    by_cases hsign : cfg.optSign = true
    · rw [if_pos hsign]
      dsimp only
      split_ifs
      all_goals simp only [length_writeAt]
    · rw [if_neg hsign]
      dsimp only
      split_ifs
      all_goals simp only [length_writeAt]

@[simp] theorem length_probeData : (probeData cfg p).length = cfg.dataSize.toNat := by
  rw [probeData, length_dataHandler, List.length_replicate]

/-- The shape of the data. -/
def dataShape (cfg : ProbeConfig) : List (ArsType × ℕ) :=
  if cfg.dataSize = 0 then [] else [(.data, cfg.dataSize.toNat)]

@[simp] theorem shapeSize_dataShape : shapeSize (dataShape cfg) = cfg.dataSize.toNat := by
  rw [dataShape]
  split_ifs with hzero
  · rw [hzero]
    rfl
  · simp [shapeSize]

theorem compiles_dataShape {before : List (ArsType × ℕ)} : Compiles before (dataShape cfg) := by
  rw [dataShape]
  split_ifs
  · trivial
  · simp [Compiles]

section Shapes

variable {pkt : ArsPacket} {s : List (ArsType × ℕ)}

theorem exists_addData (cfg : ProbeConfig) (p : Probe) (h : pkt.HasShape s)
    (hroom : s.length < arsMaxLayer) :
    ∃ out, addData cfg p pkt = .ok out ∧ out.HasShape (s ++ dataShape cfg) := by
  rw [addData, dataShape]
  split_ifs with hzero
  · exact ⟨pkt, rfl, by rwa [List.append_nil]⟩
  · obtain ⟨out, hout, hshape⟩ :=
      h.add (addsLayer_generic (t := .data) (ArsType.hdrSize_le rfl cfg.dataSize.toNat)) hroom
    refine ⟨_, by rw [arsAddData, hout]; rfl, ?_⟩
    convert hshape.writeLast 0 (probeData cfg p) using 3
    simp [ArsLayer.shape, ArsLayer.full]

theorem exists_addIp (p : Probe) (protocol : UInt8) :
    ∃ out, addIp p protocol = .ok out ∧ out.HasShape [(.ip, 20)] := by
  have hadd : AddsLayer arsAddIphdr (.full .ip 0 (List.replicate 20 0) (by decide)) :=
    addsLayer_generic (by decide)
  obtain ⟨out, hout, hshape⟩ := hasShape_arsInit.add hadd (by decide)
  refine ⟨_, by rw [addIp, hout]; rfl, ?_⟩
  exact ((hshape.writeLast _ _).writeLast _ _).writeLast _ _

theorem exists_addTcp (cfg : ProbeConfig) (p : Probe) (h : pkt.HasShape s)
    (hroom : s.length < arsMaxLayer) :
    ∃ out, addTcp cfg p pkt = .ok out ∧ out.HasShape (s ++ [(.tcp, 20)]) := by
  have hadd : AddsLayer arsAddTcphdr (.full .tcp 0 (List.replicate 20 0) (by decide)) :=
    addsLayer_generic (by decide)
  obtain ⟨out, hout, hshape⟩ := h.add hadd hroom
  refine ⟨_, by rw [addTcp, hout]; rfl, ?_⟩
  have hports := (hshape.writeLast 0 (putBe16 p.sport)).writeLast 2 (putBe16 p.dport)
  have hnumbers := (hports.writeLast 4 (putBe32 (cfg.tcpSeqnum.getD p.randSeq))).writeLast 8
    (putBe32 (cfg.tcpAck.getD p.randAck))
  have hwin := (hnumbers.writeLast 14 (putBe16 cfg.srcWinsize)).writeLast 13
    [UInt8.ofNat cfg.tcpThFlags]
  have hoff := hwin.mapLast
    (f := (·.writeHi 12 (cfg.srcThoff + (if cfg.optTcpTimestamp then 12 else 0) / 4))) fun _ => rfl
  exact hoff.arsSetFlags arsTakeTcpHdrlen

/-- The shape of the timestamp. -/
def timestampShape (cfg : ProbeConfig) : List (ArsType × ℕ) :=
  if cfg.optTcpTimestamp then [(.tcpopt, 1), (.tcpopt, 1), (.tcpopt, 10)] else []

theorem exists_addTimestamp (cfg : ProbeConfig) (p : Probe) (h : pkt.HasShape s)
    (hroom : s.length + 3 ≤ arsMaxLayer) :
    ∃ out, addTimestamp cfg p pkt = .ok out ∧ out.HasShape (s ++ timestampShape cfg) := by
  have hnop : AddsLayer (arsAddTcpopt · arsTcpoptNop) (tcpoptNew arsTcpoptNop 1) :=
    addsLayer_tcpopt rfl
  have hts : AddsLayer (arsAddTcpopt · arsTcpoptTimestamp) (tcpoptNew arsTcpoptTimestamp 10) :=
    addsLayer_tcpopt rfl
  rw [addTimestamp, timestampShape]
  split_ifs
  · obtain ⟨pkt₁, h₁, hshape₁⟩ := h.add hnop (by omega)
    obtain ⟨pkt₂, h₂, hshape₂⟩ := hshape₁.add hnop
      (by rw [List.length_append, List.length_singleton]; omega)
    obtain ⟨pkt₃, h₃, hshape₃⟩ := hshape₂.add hts
      (by simp only [List.length_append, List.length_singleton]; omega)
    refine ⟨_, by rw [h₁, bind_ok, h₂, bind_ok, h₃]; rfl, ?_⟩
    rw [List.append_assoc, List.append_assoc] at hshape₃
    exact (hshape₃.writeLast 2 p.randts.1).writeLast 6 [0, 0, 0, 0]
  · exact ⟨pkt, rfl, by rwa [List.append_nil]⟩

theorem compiles_timestampShape (cfg : ProbeConfig) :
    Compiles [(.tcp, 20), (.ip, 20)] (timestampShape cfg ++ dataShape cfg) := by
  rw [timestampShape]
  split_ifs
  · -- twelve bytes are three words, so the last option is not padded
    refine ⟨?_, by simp, by simp, ?_, by simp, by simp, ?_, by simp, by simp, compiles_dataShape⟩
    · simp
    · simp
    · intro _ _
      decide
  · exact compiles_dataShape

theorem shapeSize_timestampShape (cfg : ProbeConfig) :
    shapeSize (timestampShape cfg) = if cfg.optTcpTimestamp then 12 else 0 := by
  rw [timestampShape]
  split_ifs
  · rfl
  · rfl

/-- What is built behind the IP header. -/
theorem exists_buildFrom (h : pkt.HasShape ((.ip, 20) :: s)) (hs : Compiles [(.ip, 20)] s) :
    ∃ segment, buildFrom 1 pkt = .ok segment ∧ segment.length = shapeSize s := by
  have hcompiles : Compiles [] ((.ip, 20) :: s) := ⟨by simp, by simp, by simp, hs⟩
  have hsize := shapeSize_cons .ip 20 s
  obtain ⟨out, built, hout, hbuilt, hshape, hlen⟩ := h.build hcompiles (by omega)
  have hrest : arsRelativeSize (out.pLayer.drop 1) = shapeSize s := by
    rw [← shapeSize_map_shape, List.map_drop, hshape.shape]
    rfl
  refine ⟨_, by rw [buildFrom, hout, bind_ok, hbuilt]; rfl, ?_⟩
  rw [List.length_drop, hrest, hlen, hsize]
  omega

theorem setLayerFlags_hasShape (h : pkt.HasShape s) (layer flags : ℕ) :
    (setLayerFlags pkt layer flags).HasShape s := by
  refine h.of_shape_eq ?_ rfl
  refine List.ext_getElem? fun i => ?_
  rw [List.getElem?_map, List.getElem?_map, setLayerFlags, List.getElem?_modify,
    Option.map_eq_map, Option.map_map]
  refine congrArg (Option.map · _) (funext fun l => ?_)
  rw [Function.comp_apply]
  split_ifs
  · rfl
  · rfl

end Shapes

theorem length_spoil (off : ℕ) (segment : List UInt8) :
    (spoil cfg off segment).length = segment.length := by
  rw [spoil]
  split_ifs
  · rw [length_writeAt]
  · rfl

/-- **A TCP segment**: the header, the timestamp and the data. -/
theorem length_sendTcp (cfg : ProbeConfig) (p : Probe) :
    ∃ segment, sendTcp cfg p = .ok segment ∧
      segment.length = 20 + (if cfg.optTcpTimestamp then 12 else 0) + cfg.dataSize.toNat := by
  obtain ⟨pkt, hip, hshape⟩ := exists_addIp p 6
  obtain ⟨pkt₁, htcp, hshape₁⟩ := exists_addTcp cfg p hshape (by decide)
  obtain ⟨pkt₂, hts, hshape₂⟩ := exists_addTimestamp cfg p hshape₁ (by decide)
  have hroom : ([(ArsType.ip, 20)] ++ [(ArsType.tcp, 20)] ++ timestampShape cfg).length <
      arsMaxLayer := by
    rw [timestampShape]
    split_ifs
    · decide
    · decide
  obtain ⟨pkt₃, hdata, hshape₃⟩ := exists_addData cfg p hshape₂ hroom
  have hlayer : pkt.pLayer.length = 1 := by
    rw [← pkt.pLayer.length_map ArsLayer.shape, hshape.shape]
    rfl
  rw [List.append_assoc] at hshape₃
  obtain ⟨segment, hsegment, hlen⟩ :=
    exists_buildFrom (s := (.tcp, 20) :: (timestampShape cfg ++ dataShape cfg)) hshape₃
      ⟨by simp, fun _ => rfl, by simp, compiles_timestampShape cfg⟩
  refine ⟨spoil cfg 16 segment, ?_, ?_⟩
  · rw [sendTcp, hip, bind_ok, htcp, bind_ok, hts, bind_ok, hdata, bind_ok, hlayer, hsegment]
    rfl
  · rw [length_spoil, hlen, shapeSize_cons, shapeSize_append, shapeSize_dataShape,
      shapeSize_timestampShape, Nat.add_assoc]

/-- **A UDP datagram**: the header and the data. -/
theorem length_sendUdp (cfg : ProbeConfig) (p : Probe) :
    ∃ segment, sendUdp cfg p = .ok segment ∧ segment.length = 8 + cfg.dataSize.toNat := by
  have hadd : AddsLayer arsAddUdphdr (.full .udp 0 (List.replicate 8 0) (by decide)) :=
    addsLayer_generic (by decide)
  obtain ⟨pkt, hip, hshape⟩ := exists_addIp p 17
  obtain ⟨pkt₁, hudp, hshape₁⟩ := hshape.add hadd (by decide)
  have hports := (hshape₁.writeLast 0 (putBe16 p.sport)).writeLast 2 (putBe16 p.dport)
  obtain ⟨pkt₂, hdata, hshape₂⟩ := exists_addData cfg p hports (by decide)
  have hlayer : pkt.pLayer.length = 1 := by
    rw [← pkt.pLayer.length_map ArsLayer.shape, hshape.shape]
    rfl
  obtain ⟨segment, hsegment, hlen⟩ := exists_buildFrom (s := (.udp, 8) :: dataShape cfg) hshape₂
    ⟨by simp, fun _ => rfl, by simp, compiles_dataShape⟩
  refine ⟨spoil cfg 6 segment, ?_, ?_⟩
  · rw [sendUdp, hip, bind_ok, hudp, Except.map, bind_ok, hdata, bind_ok, hlayer, hsegment]
    rfl
  · rw [length_spoil, hlen, shapeSize_cons, shapeSize_dataShape]

/-- The senders of ICMP messages that go through the engine. -/
theorem length_sendIcmpArs (cfg : ProbeConfig) (p : Probe) (code : ℕ)
    {addBody : ArsPacket → Except ArsErr ArsPacket} {s : List (ArsType × ℕ)}
    (hbody : ∀ pkt : ArsPacket, pkt.HasShape [(.icmp, 8)] →
      ∃ out, addBody pkt = .ok out ∧ out.HasShape ((.icmp, 8) :: s))
    (hs : Compiles [(.icmp, 8)] s) :
    ∃ message, sendIcmpArs cfg p code addBody = .ok message ∧
      message.length = 8 + shapeSize s := by
  obtain ⟨pkt, hicmp, hshape⟩ := hasShape_arsInit.add addsLayer_icmp (by decide)
  have hfields := (hshape.writeLast 0 [UInt8.ofNat cfg.optIcmptype, UInt8.ofNat code]).writeLast 4
    (putLe16 p.pid)
  obtain ⟨pkt₁, hadd, hshape₁⟩ := hbody _ (hfields.writeLast 6 (putLe16 p.icmpSeq))
  have hshape₂ : (if cfg.icmpCksum ≠ -1 then setLayerFlags pkt₁ 0 arsTakeIcmpCksum
      else pkt₁).HasShape ((.icmp, 8) :: s) := by
    split_ifs
    · exact setLayerFlags_hasShape hshape₁ _ _
    · exact hshape₁
  obtain ⟨out, built, hout, hbuilt, -, hlen⟩ := hshape₂.build ⟨by simp, by simp, by simp, hs⟩
    (by rw [shapeSize_cons]; omega)
  refine ⟨if cfg.icmpCksum ≠ -1 then writeAt built 2 (putLe16 (cfg.icmpCksum % 65536).toNat)
    else built, ?_, ?_⟩
  · rw [sendIcmpArs, hicmp, bind_ok]
    dsimp only
    rw [hadd, bind_ok, hout, bind_ok, hbuilt]
    rfl
  · rw [shapeSize_cons] at hlen
    split_ifs
    · rw [length_writeAt, hlen]
    · exact hlen

theorem length_sendIcmpEcho (cfg : ProbeConfig) (p : Probe) :
    ∃ message, sendIcmpEcho cfg p = .ok message ∧ message.length = 8 + cfg.dataSize.toNat := by
  rw [← shapeSize_dataShape]
  exact length_sendIcmpArs cfg p _ (fun pkt h => exists_addData cfg p h (by simp [arsMaxLayer]))
    compiles_dataShape

/-- A layer of data, of some size. -/
theorem exists_arsAddData {pkt : ArsPacket} {s : List (ArsType × ℕ)} (h : pkt.HasShape s)
    (hroom : s.length < arsMaxLayer) (n : ℕ) :
    ∃ out, arsAddData pkt n = .ok out ∧ out.HasShape (s ++ [(.data, n)]) := by
  obtain ⟨out, hout, hshape⟩ :=
    h.add (addsLayer_generic (t := .data) (ArsType.hdrSize_le rfl n)) hroom
  refine ⟨out, hout, ?_⟩
  convert hshape using 3
  simp [ArsLayer.shape, ArsLayer.full]

theorem length_sendIcmpTimestamp (cfg : ProbeConfig) (p : Probe) :
    ∃ message, sendIcmpTimestamp cfg p = .ok message ∧ message.length = 20 := by
  refine length_sendIcmpArs cfg p 0 (s := [(.data, 12)]) (fun pkt h => ?_) (by simp [Compiles])
  obtain ⟨out, hout, hshape⟩ := exists_arsAddData h (by simp [arsMaxLayer]) 12
  exact ⟨_, by rw [hout]; rfl, hshape.writeLast _ _⟩

theorem length_sendIcmpAddress (cfg : ProbeConfig) (p : Probe) :
    ∃ message, sendIcmpAddress cfg p = .ok message ∧ message.length = 12 := by
  refine length_sendIcmpArs cfg p 0 (s := [(.data, 4)]) (fun pkt h => ?_) (by simp [Compiles])
  exact exists_arsAddData h (by simp [arsMaxLayer]) 4

theorem ok_bind {α β : Type} (a : α) (f : α → Except SendErr β) : (Except.ok a >>= f) = f a := rfl

/-- The checksum of a block that is not too long. -/
theorem exists_cksumAll (cfg : ProbeConfig) {buf : List UInt8} (h : buf.length < 2 ^ 31) :
    ∃ sum, cksumAll cfg buf = .ok sum := by
  have hlen : (Int32.ofNat buf.length).toInt = buf.length := Int32.toInt_ofNat_of_lt h
  have hloop := cksumLoop_eq buf 0
  rw [Nat.zero_mod, Nat.zero_add] at hloop
  rw [cksumAll, cksum, hlen, hloop]
  exact ⟨_, rfl⟩

@[simp] theorem length_quotedIp (check : ℕ) : (quotedIp cfg p check).length = 20 := by
  simp [quotedIp, p.icmpIpSrc.2, p.icmpIpDst.2]

@[simp] theorem length_quotedUdp (sum : ℕ) : (quotedUdp cfg sum).length = 8 := by
  simp [quotedUdp]

@[simp] theorem length_quotingMessage (check sum checksum : ℕ) :
    (quotingMessage cfg p check sum checksum).length = 36 + cfg.dataSize.toNat := by
  have hdata : (if cfg.dataSize = 0 then [] else probeData cfg p).length = cfg.dataSize.toNat := by
    split_ifs with hzero
    · rw [hzero]
      rfl
    · exact length_probeData
  have hgateway : (if cfg.optIcmptype = icmpRedirect then p.icmpGw.1 else [0, 0, 0, 0]).length =
      4 := by
    split_ifs
    · exact p.icmpGw.2
    · rfl
  simp only [quotingMessage, List.length_append, hdata, hgateway, length_quotedIp,
    length_quotedUdp, length_putLe16, List.length_cons, List.length_nil]
  omega

/-- **An error**: its header, the two headers that are quoted, and the data. -/
theorem length_sendIcmpOther (cfg : ProbeConfig) (p : Probe) :
    ∃ message, sendIcmpOther cfg p = .ok message ∧ message.length = 36 + cfg.dataSize.toNat := by
  have hpseudo : (quotedPseudohdr cfg p ++ quotedUdp cfg 0).length = 20 := by
    simp [quotedPseudohdr, p.icmpIpSrc.2, p.icmpIpDst.2]
  obtain ⟨check, hcheck⟩ := exists_cksumAll cfg ((length_quotedIp 0).trans_lt (by decide))
  obtain ⟨sum, hsum⟩ := exists_cksumAll cfg (hpseudo.trans_lt (by decide))
  have hlt := cfg.dataSize.toNat_lt
  have hmessage : (quotingMessage cfg p check sum 0).length = 36 + cfg.dataSize.toNat :=
    length_quotingMessage check sum 0
  obtain ⟨checksum, hall⟩ := exists_cksumAll cfg (hmessage.trans_lt (by omega))
  rw [sendIcmpOther, hcheck, ok_bind, hsum, ok_bind]
  split_ifs
  · rw [hall, ok_bind]
    exact ⟨_, rfl, length_quotingMessage _ _ _⟩
  · exact ⟨_, rfl, length_quotingMessage _ _ _⟩

end StyxWire.Hping.Probes
