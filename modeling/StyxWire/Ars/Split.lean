import StyxWire.Ars.Cksum

/-!
# Splitting a packet into layers

The dissector (`split.c`): a state machine each of whose states is handled by a
function that is given the bytes left and appends one layer to the packet, says how many
bytes it took and what comes next.

A handler gets exactly the bytes it is entitled to, `size` of them from `packet + offset`
on, and reads them through `StyxWire.rdByte` and `StyxWire.rdBytes`, so that a read outside
them is the error `StyxWire.ArsErr.oob`. A run keeps, besides what the source keeps, the
list of what its handlers took (`StyxWire.SplitRun.calls`): it is not used by the machine.

A structure copied out of a buffer that may be too short for it – zeroed first, then
`memcpy` of what there is – is here the list of the bytes copied, read with zero as the
default.
-/

namespace StyxWire

open Mem ArsLayer

/-- `ARS_SPLIT_FTRUNC`. -/
def arsSplitFtrunc : ℕ := 1
/-- `ARS_SPLIT_FBADCKSUM`. -/
def arsSplitFbadcksum : ℕ := 2

/-! ### Checking the checksums -/

/-- `ars_check_ip_cksum`. -/
def arsCheckIpCksum (ip : List UInt8) : Except ArsErr Bool := do
  let ipHdrsize := (← rdByte ip 0).toNat % 16 * 4
  if ipHdrsize < 20 then return false
  let hdr ← rdBytes ip 0 ipHdrsize
  let stored := le16 (hdr.getD 10 0) (hdr.getD 11 0)
  return stored == arsCksum (writeAt hdr 10 [0, 0])

/-- `ars_check_icmp_cksum`. -/
def arsCheckIcmpCksum (icmp : List UInt8) (size : ℕ) : Except ArsErr Bool := do
  if size < 4 then return false
  let copy ← rdBytes icmp 0 size
  let stored := le16 (copy.getD 2 0) (copy.getD 3 0)
  return stored == arsCksum (writeAt copy 2 [0, 0])

/-! ### The IP offset -/

/-- `ars_seems_ip`. -/
def arsSeemsIp (ip : List UInt8) (size : ℕ) : Except ArsErr Bool := do
  if size < 20 then return false
  let h ← rdBytes ip 0 20
  let ihl := (h.getD 0 0).toNat % 16
  if (h.getD 0 0).toNat / 16 = 4 ∧ 5 ≤ ihl ∧ ihl * 4 ≤ size then arsCheckIpCksum ip
  else return false

/-- The loop of `ars_guess_ipoff`, over the bytes left. -/
def arsGuessIpoffLoop (origSize : ℕ) : List UInt8 → Except ArsErr ℕ
  | [] => arsFail .error ""
  | b :: p =>
    if (b :: p).length < 20 then arsFail .error ""
    else do
      if ← arsSeemsIp (b :: p) (b :: p).length then return origSize - (b :: p).length
      else arsGuessIpoffLoop origSize p

/-- The conversion of a `size_t` to an `int`. -/
def toInt32 (n : ℕ) : ℤ := ((n : ℤ) + 2 ^ 31) % 2 ^ 32 - 2 ^ 31

/-- `ars_guess_ipoff`. -/
def arsGuessIpoff (packet : List UInt8) : Except ArsErr ℤ :=
  (arsGuessIpoffLoop packet.length packet).map toInt32

/-! ### The state handlers -/

/-- The states of the machine (`ARS_SPLIT_*`). -/
inductive SplitState
  | done
  | getIp
  | getIpopt
  | getIcmp
  | getUdp
  | getTcp
  | getTcpopt
  | getIgrp
  | getIgrpentry
  | getData
  | getIp6
  | getIcmp6
  deriving DecidableEq, Repr

/-- What a handler leaves: the packet, `*state` and `*len`. -/
structure SplitOut where
  /-- The packet. -/
  pkt : ArsPacket
  /-- The next state. -/
  state : SplitState
  /-- How many bytes were taken. -/
  len : ℕ

/-- A layer is added, and filled with the first `n` bytes of the packet; then its flags are
set. -/
def arsSplitAdd (add : ArsPacket → Except ArsErr ArsPacket) (pkt : ArsPacket)
    (packet : List UInt8) (n flags : ℕ) : Except ArsErr ArsPacket := do
  let pkt ← add pkt
  let bytes ← rdBytes packet 0 n
  return arsSetFlags (pkt.writeLast 0 bytes) flags

/-- The same with one of the `ars_add_*` functions, which return `NULL` when they fail,
whatever the reason. -/
def arsSplitHdr (add : ArsPacket → Except ArsErr ArsPacket) : ArsPacket → List UInt8 → ℕ → ℕ →
    Except ArsErr ArsPacket :=
  arsSplitAdd fun pkt => (add pkt).mapError (ArsErr.recode .nomem)

/-- The same with `ars_add_generic`, whose own code is returned. -/
def arsSplitGeneric (size : ℕ) (type : ArsType) (h : type.hdrSize ≤ size) : ArsPacket →
    List UInt8 → ℕ → ℕ → Except ArsErr ArsPacket :=
  arsSplitAdd fun pkt => arsAddGeneric pkt size type h

/-- The temporary layer of the checksum hack: added, filled with the whole packet, and
removed again, so that the packet it was added to is unchanged. -/
def arsTempLayer (type : ArsType) (pkt : ArsPacket) (packet : List UInt8)
    (h : type.hdrSize ≤ packet.length) : Except ArsErr ArsLayer := do
  let _ ← arsAddGeneric pkt packet.length type h
  return .full type 0 packet h

/-- `ars_ip_next_state`. -/
def arsIpNextState (ipproto : ℕ) : SplitState :=
  if ipproto = 4 then .getIp
  else if ipproto = 1 then .getIcmp
  else if ipproto = 6 then .getTcp
  else if ipproto = 17 then .getUdp
  else if ipproto = 9 then .getIgrp
  else .getData

/-- `ars_ip6_is_extension`. -/
def arsIp6IsExtension (nexthdr : ℕ) : Bool :=
  nexthdr = 0 ∨ nexthdr = 43 ∨ nexthdr = 44 ∨ nexthdr = 50 ∨ nexthdr = 51 ∨ nexthdr = 60 ∨
    nexthdr = 135

/-- `ars_ip6_next_state`. -/
def arsIp6NextState (nexthdr : ℕ) : SplitState :=
  if arsIp6IsExtension nexthdr then .getData
  else if nexthdr = 58 then .getIcmp6
  else if nexthdr = 6 then .getTcp
  else if nexthdr = 17 then .getUdp
  else if nexthdr = 1 then .getIcmp
  else if nexthdr = 41 then .getIp6
  else if nexthdr = 4 then .getIp
  else .getData

/-- `ars_split_ip6`. -/
def arsSplitIp6 (pkt : ArsPacket) (packet : List UInt8) : Except ArsErr SplitOut := do
  let size := packet.length
  let ip6 ← rdBytes packet 0 (min size 40)
  let flags := if size < 40 then arsSplitFtrunc else 0
  let ip6size := if size < 40 then size else 40
  let pkt ← arsSplitHdr arsAddIp6hdr pkt packet ip6size flags
  return ⟨pkt, if size < 40 then .getData else arsIp6NextState (ip6.getD 6 0).toNat, ip6size⟩

/-- `ars_split_icmp6`. -/
def arsSplitIcmp6 (pkt : ArsPacket) (packet : List UInt8) : Except ArsErr SplitOut :=
  if h : packet.length < 8 then do
    let pkt ← arsSplitHdr arsAddIcmp6hdr pkt packet packet.length arsSplitFtrunc
    return ⟨pkt, .getData, packet.length⟩
  else do
    let newicmp ← arsTempLayer .icmp6 pkt packet (Nat.not_lt.mp h)
    let stored := le16 (newicmp.byte 2) (newicmp.byte 3)
    let computed := match arsIp6PseudoCksum pkt.pLayer.reverse [newicmp.write 2 [0, 0]]
        arsIpprotoIcmpv6 with
      | .ok computed => computed
      | .error _ => stored
    let flags := if stored ≠ computed then arsSplitFbadcksum else 0
    let pkt ← arsSplitHdr arsAddIcmp6hdr pkt packet 8 flags
    return ⟨pkt, .getData, 8⟩

/-- The part of `ars_split_ip` that looks for a bad header: the flags and the size of the
layer. -/
def arsSplitIpFlags (packet ip : List UInt8) : Except ArsErr (ℕ × ℕ) := do
  let size := packet.length
  let ihl := (ip.getD 0 0).toNat % 16
  if size < 20 then return (arsSplitFtrunc, size)
  else if ihl < 5 then return (arsSplitFtrunc ||| arsSplitFbadcksum, 20)
  else if size < ihl * 4 then return (arsSplitFtrunc, min size 20)
  else
    let ok ← arsCheckIpCksum packet
    return (if ok then 0 else arsSplitFbadcksum, min (ihl * 4) 20)

/-- `ars_split_ip`. -/
def arsSplitIp (pkt : ArsPacket) (packet : List UInt8) : Except ArsErr SplitOut := do
  let ip ← rdBytes packet 0 (min packet.length 20)
  let (flags, ipsize) ← arsSplitIpFlags packet ip
  let pkt ← arsSplitHdr arsAddIphdr pkt packet ipsize flags
  let ihl := (ip.getD 0 0).toNat % 16
  let protocol := (ip.getD 9 0).toNat
  return if flags &&& arsSplitFtrunc ≠ 0 then ⟨pkt, .getData, ipsize⟩
    else if 5 < ihl then
      ⟨{ pkt with auxIpproto := protocol, aux := (ihl - 5) * 4 }, .getIpopt, ipsize⟩
    else ⟨pkt, arsIpNextState protocol, ipsize⟩

/-- The size and the flags of an option, `size` being what is left of the option area. -/
def arsOptsize (packet : List UInt8) (size : ℕ) : Except ArsErr (ℕ × ℕ) := do
  let kind ← rdByte packet 0
  let (optsize, flags) ←
    if kind.toNat = 0 ∨ kind.toNat = 1 then pure (1, 0)
    else if size < 2 then pure (1, arsSplitFtrunc)
    else do pure ((← rdByte packet 1).toNat, 0)
  let optsize := if optsize = 0 then 1 else optsize
  if size < optsize then return (size, flags ||| arsSplitFtrunc) else return (optsize, flags)

/-- `ars_split_ipopt` and `ars_split_tcpopt`, which differ in the type of the layer and in
the state after the last option. -/
def arsSplitOpt (type : ArsType) (h : type.hdrSize = 0) (again : SplitState)
    (next : ArsPacket → SplitState) (pkt : ArsPacket) (packet : List UInt8) :
    Except ArsErr SplitOut := do
  let size := min packet.length pkt.aux
  if size = 0 then return ⟨pkt, .getData, 0⟩
  let (optsize, flags) ← arsOptsize packet size
  let pkt := { pkt with aux := pkt.aux - optsize }
  let pkt ← arsSplitGeneric optsize type (by omega) pkt packet optsize flags
  return ⟨pkt, if 0 < pkt.aux then again else next pkt, optsize⟩

/-- `ars_split_ipopt`. -/
def arsSplitIpopt : ArsPacket → List UInt8 → Except ArsErr SplitOut :=
  arsSplitOpt .ipopt rfl .getIpopt fun pkt => arsIpNextState pkt.auxIpproto

/-- `ars_split_tcpopt`. -/
def arsSplitTcpopt : ArsPacket → List UInt8 → Except ArsErr SplitOut :=
  arsSplitOpt .tcpopt rfl .getTcpopt fun _ => .getData

/-- The state after an ICMP header of a type: the types that do not quote a datagram carry
data. -/
def arsIcmpNextState (type : ℕ) : SplitState :=
  if type = 8 ∨ type = 0 ∨ type = 13 ∨ type = 14 ∨ type = 15 ∨ type = 16 then .getData
  else .getIp

/-- `ars_split_icmp`. -/
def arsSplitIcmp (pkt : ArsPacket) (packet : List UInt8) : Except ArsErr SplitOut := do
  let size := packet.length
  let icmp ← rdBytes packet 0 (min size 8)
  if size < 8 then
    let pkt ← arsSplitHdr arsAddIcmphdr pkt packet size arsSplitFtrunc
    return ⟨pkt, .getData, size⟩
  else
    let ok ← arsCheckIcmpCksum packet size
    let pkt ← arsSplitHdr arsAddIcmphdr pkt packet 8 (if ok then 0 else arsSplitFbadcksum)
    return ⟨pkt, arsIcmpNextState (icmp.getD 0 0).toNat, 8⟩

/-- `ars_split_data`. -/
def arsSplitData (pkt : ArsPacket) (packet : List UInt8) : Except ArsErr SplitOut := do
  let size := packet.length
  let pkt ← (arsAddData pkt size).mapError (ArsErr.recode .nomem)
  let bytes ← rdBytes packet 0 size
  return ⟨pkt.writeLast 0 bytes, .done, size⟩

/-- `ars_split_udp`. -/
def arsSplitUdp (pkt : ArsPacket) (packet : List UInt8) : Except ArsErr SplitOut := do
  let size := packet.length
  let udp ← rdBytes packet 0 (min size 8)
  if h : size < 8 then
    let pkt ← arsSplitHdr arsAddUdphdr pkt packet size arsSplitFtrunc
    return ⟨pkt, .getData, size⟩
  else
    let newudp ← arsTempLayer .udp pkt packet (Nat.not_lt.mp h)
    let udpcksum ← arsUdptcpCksum pkt.pLayer.reverse (newudp.write 6 [0, 0]) []
    let flags :=
      if le16 (udp.getD 6 0) (udp.getD 7 0) ≠ udpcksum then arsSplitFbadcksum else 0
    let pkt ← arsSplitHdr arsAddUdphdr pkt packet 8 flags
    return ⟨pkt, .getData, 8⟩

/-- `ars_split_tcp`. -/
def arsSplitTcp (pkt : ArsPacket) (packet : List UInt8) : Except ArsErr SplitOut :=
  let size := packet.length
  if h : size < 20 then do
    let pkt ← arsSplitHdr arsAddTcphdr pkt packet size arsSplitFtrunc
    return ⟨pkt, .getData, size⟩
  else do
    let tcp ← rdBytes packet 0 20
    let thOff := (tcp.getD 12 0).toNat / 16
    let newtcp ← arsTempLayer .tcp pkt packet (Nat.not_lt.mp h)
    let tcpcksum ← arsUdptcpCksum pkt.pLayer.reverse (newtcp.write 16 [0, 0]) []
    let (flags, tcpsize) :=
      if thOff < 5 then (arsSplitFbadcksum, 20)
      else if size < thOff * 4 then (arsSplitFtrunc, size)
      else if le16 (tcp.getD 16 0) (tcp.getD 17 0) ≠ tcpcksum then (arsSplitFbadcksum, thOff * 4)
      else (0, thOff * 4)
    let tcpsize := min tcpsize 20
    let pkt ← arsSplitHdr arsAddTcphdr pkt packet tcpsize flags
    return if 5 < thOff then ⟨{ pkt with aux := (thOff - 5) * 4 }, .getTcpopt, tcpsize⟩
      else ⟨pkt, .getData, tcpsize⟩

/-- `ars_split_igrp` and `ars_split_igrpentry`, which differ in the type of the layer. -/
def arsSplitFixed (type : ArsType) (pkt : ArsPacket) (packet : List UInt8) :
    Except ArsErr SplitOut := do
  let size := packet.length
  let hdrsize := if size < type.hdrSize then size else type.hdrSize
  let flags := if size < type.hdrSize then arsSplitFtrunc else 0
  let pkt ← arsSplitGeneric type.hdrSize type (Nat.le_refl _) pkt packet hdrsize flags
  return ⟨pkt, .getIgrpentry, hdrsize⟩

/-- `ars_split_igrp`. -/
def arsSplitIgrp : ArsPacket → List UInt8 → Except ArsErr SplitOut := arsSplitFixed .igrp

/-- `ars_split_igrpentry`. -/
def arsSplitIgrpentry : ArsPacket → List UInt8 → Except ArsErr SplitOut :=
  arsSplitFixed .igrpentry

/-- `ars_split_state_handler`. The machine never asks for the handler of the state
`ARS_SPLIT_DONE`, which is a null pointer. -/
def arsSplitStateHandler : SplitState → ArsPacket → List UInt8 → Except ArsErr SplitOut
  | .done => fun _ _ => .error .oob
  | .getIp => arsSplitIp
  | .getIpopt => arsSplitIpopt
  | .getIcmp => arsSplitIcmp
  | .getUdp => arsSplitUdp
  | .getTcp => arsSplitTcp
  | .getTcpopt => arsSplitTcpopt
  | .getIgrp => arsSplitIgrp
  | .getIgrpentry => arsSplitIgrpentry
  | .getData => arsSplitData
  | .getIp6 => arsSplitIp6
  | .getIcmp6 => arsSplitIcmp6

/-! ### The machine -/

/-- What a handler took: its offset, and its length out of the size there was. -/
structure SplitCall where
  /-- The offset in the buffer. -/
  offset : ℕ
  /-- The value of `*len`. -/
  len : ℕ
  /-- The size that the length is subtracted from. -/
  size : ℕ
  deriving DecidableEq, Repr

/-- The state of a run of `ars_split_packet`. -/
structure SplitRun where
  /-- The packet. -/
  pkt : ArsPacket
  /-- The state. -/
  state : SplitState
  /-- The offset of the bytes left. -/
  offset : ℕ
  /-- How many bytes are left. -/
  size : ℕ
  /-- What the handlers took so far. -/
  calls : List SplitCall
  /-- The failure of a handler, if one failed. -/
  error : Option ArsErr

/-- The size after a handler took `len` bytes, the link layer padding put off: it is cut
once, after the first layer, to the length its header gives. -/
def arsCutSize (pkt : ArsPacket) (size len : ℕ) : ℕ :=
  match pkt.pLayer with
  | [l] =>
    if l.lType = .ip then min size (max (be16 (l.byte 2) (l.byte 3)) len)
    else if l.lType = .ip6 then min size (be16 (l.byte 4) (l.byte 5) + len)
    else size
  | _ => size

/-- The run is over. -/
def SplitRun.Stopped (r : SplitRun) : Prop := r.state = .done ∨ r.error ≠ none

instance (r : SplitRun) : Decidable r.Stopped := inferInstanceAs (Decidable (_ ∨ _))

/-- One turn of the loop of `ars_split_packet`. -/
def splitStep (packet : List UInt8) (r : SplitRun) : SplitRun :=
  if r.Stopped then r
  else
    match arsSplitStateHandler r.state r.pkt ((packet.drop r.offset).take r.size) with
    | .error e => { r with error := some e }
    | .ok out =>
      let size := arsCutSize out.pkt r.size out.len
      { pkt := out.pkt
        state := if size - out.len = 0 then .done else out.state
        offset := r.offset + out.len
        size := size - out.len
        calls := r.calls ++ [⟨r.offset, out.len, size⟩]
        error := none }

/-- The first state: IPv6 if the version of the first byte says so, else IPv4. -/
def splitFirstState (packet : List UInt8) (ipoff : ℕ) : SplitState :=
  match packet[ipoff]? with
  | some b => if b.toNat / 16 = 6 then .getIp6 else .getIp
  | none => .getIp

/-- The start of the loop, at an offset inside the buffer. -/
def splitStart (packet : List UInt8) (ipoff : ℕ) (pkt : ArsPacket) : SplitRun where
  pkt := pkt
  state := splitFirstState packet ipoff
  offset := ipoff
  size := packet.length - ipoff
  calls := []
  error := none

/-- The loop of `ars_split_packet`. One turn for each byte and one more are enough
(`StyxWire.splitLoop_stopped`). -/
def splitLoop (packet : List UInt8) (ipoff : ℕ) (pkt : ArsPacket) : SplitRun :=
  (splitStep packet)^[packet.length - ipoff + 1] (splitStart packet ipoff pkt)

/-- `ars_split_packet`. An offset of `-1` asks for it to be guessed. -/
def arsSplitPacket (packet : List UInt8) (ipoff : ℤ) (pkt : ArsPacket) :
    Except ArsErr ArsPacket := do
  let ipoff ←
    if ipoff = -1 then
      match arsGuessIpoff packet with
      | .ok off => pure off
      | .error (.ars _ _) => arsFail .invalid "IP offset autodetection failed"
      | .error .oob => .error .oob
    else pure ipoff
  if ipoff < 0 ∨ packet.length < ipoff.toNat then
    arsFail .invalid "IP offset larger than the packet"
  else
    let r := splitLoop packet ipoff.toNat pkt
    match r.error with
    | some e => .error e
    | none => return r.pkt

end StyxWire
