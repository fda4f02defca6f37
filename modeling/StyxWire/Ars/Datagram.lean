import StyxWire.Ars.Agreement
import StyxWire.Ars.RoundTrip

/-!
# Datagrams of IPv4

What a datagram is dissected to when it is known what is in it: an IPv4 header, and then
the layers of the rest (`StyxWire.Ipv4Datagram.layers`). The results on the round trips of
the upper protocols and of the options start here.
-/

namespace StyxWire

open Mem Text ArsLayer

/-- The buffer holds the datagram of the IPv4 header `ip` and `rest`, and maybe some link layer
padding. Whatever is not of version 6 is taken for IPv4. -/
structure Ipv4Datagram (buf ip rest : List UInt8) : Prop where
  datagram : buf.take (arsDatagramSize buf) = ip ++ rest
  length : ip.length = 20
  version : (ip.getD 0 0).toNat / 16 ≠ 6

/-- The layer of an IPv4 header. -/
def ipLayer (f : ℕ) (ip : List UInt8) (h : ip.length = 20) : ArsLayer := full .ip f ip h.ge

/-- Behind the header `ip`, the bytes `rest` are dissected to layers as `P` says. -/
def DissectsAs (ip rest : List UInt8) (h : ip.length = 20) (P : List ArsLayer → Prop) : Prop :=
  ∀ (f : ℕ) (pkt : ArsPacket), pkt.NoDefault → pkt.pLayer = [ipLayer f ip h] →
    (5 < (ip.getD 0 0).toNat % 16 → pkt.aux = ((ip.getD 0 0).toNat % 16 - 5) * 4 ∧
      pkt.auxIpproto = (ip.getD 9 0).toNat) →
    ∃ ls, P ls ∧ Dissects (if 5 < (ip.getD 0 0).toNat % 16 then .getIpopt
      else arsIpNextState (ip.getD 9 0).toNat) pkt rest ls

/-- **The layers of a datagram**: the header, and those of the rest. -/
theorem Ipv4Datagram.layers {buf ip rest : List UInt8} (h : Ipv4Datagram buf ip rest)
    (h5 : 5 ≤ (ip.getD 0 0).toNat % 16) (hfit : (ip.getD 0 0).toNat % 16 * 4 ≤ 20 + rest.length)
    {fresh pkt : ArsPacket} (hfresh : fresh.Fresh) (hsplit : arsSplitPacket buf 0 fresh = .ok pkt)
    {P : List ArsLayer → Prop} (hrest : DissectsAs ip rest h.length P) :
    ∃ f ls, P ls ∧ pkt.pLayer = ipLayer f ip h.length :: ls ∧ pkt.NoDefault ∧
      pkt.pOptions = fresh.pOptions := by
  obtain ⟨hdatagram, hlen, hversion⟩ := h
  have hbuf : buf = ip ++ (rest ++ buf.drop (arsDatagramSize buf)) := by
    rw [← List.append_assoc, ← hdatagram, List.take_append_drop]
  have hst : splitFirstState buf 0 = .getIp := by
    rw [hbuf, splitFirstState_append (by omega), if_neg hversion]
  have hroom : fresh.pLayer.length < arsMaxLayer := by
    rw [hfresh.pLayer]
    decide
  obtain ⟨pkt', hhandles, haux⟩ := @handles_ip fresh hfresh.noDefault hroom ip
    (rest ++ buf.drop (arsDatagramSize buf)) hlen h5
    (by rw [List.length_append, List.length_append]; omega)
  rw [← hbuf] at hhandles
  have hext := hhandles.extends_
  have hlayers := hext.layers
  rw [hfresh.pLayer, List.nil_append] at hlayers
  obtain ⟨ls, hP, hdis⟩ := hrest _ pkt' (hext.noDefault hfresh.noDefault) hlayers haux
  obtain ⟨res, hres, hl, hdef, hopt⟩ :=
    arsSplitPacket_of_handles hfresh (hst ▸ hhandles) rfl hdatagram hdis
  rw [hsplit] at hres
  obtain rfl : pkt = res := Except.ok.inj hres
  exact ⟨_, ls, hP, hl, hdef, hopt⟩

theorem ipDesc_wf {ip : List UInt8} (h : ip.length = 20) : (ipDesc ip).Wf :=
  (@prints_ip numericLibc arsInit (fun _ => rfl) (ipLayer 0 ip h) ⟨rfl, h, h⟩).wf

/-- An IPv4 header is built from its description. -/
theorem builds_ipLayer {libc : Libc} (hlibc : libc.Inverts) {ip : List UInt8}
    (h : ip.length = 20) : Builds libc (ipDesc ip) (ipLayer 31 ip h) :=
  @builds_ip libc hlibc (ipLayer 31 ip h) ⟨rfl, h, h⟩

/-- An IPv4 header is restored. -/
theorem restores_ipLayer {libc : Libc} (hlibc : libc.Inverts) {pkt : ArsPacket}
    (hdef : pkt.NoDefault) {ip : List UInt8} (hlen : ip.length = 20) (f : ℕ) :
    Restores libc pkt (ipLayer f ip hlen) (ipLayer 31 ip hlen) := by
  have hw : Whole .ip (ipLayer f ip hlen) := ⟨rfl, hlen, hlen⟩
  exact restores (prints_ip libc hdef hw) (builds_ipLayer hlibc hlen) (kept_ip rfl rfl) rfl

/-! ### The payload -/

/-- The layers of a payload: one of data, if there is any. -/
def dataLayers (d : List UInt8) : List ArsLayer :=
  if d = [] then [] else [full .data 0 d (Nat.zero_le _)]

/-- Their descriptions. -/
def dataDescs (d : List UInt8) : List LayerDesc := if d = [] then [] else [hexDesc d]

theorem layersBytes_dataLayers (d : List UInt8) : layersBytes (dataLayers d) = d := by
  rw [dataLayers]
  split_ifs with h
  · exact h.symm
  · rw [layersBytes_cons, layersBytes_nil, List.append_nil]
    exact List.take_length

theorem complete_data {d : List UInt8} (h : d ≠ []) :
    Complete (full .data 0 d (Nat.zero_le _)) where
  length := rfl
  hdr := fun h0 => absurd h0 (Nat.lt_irrefl 0)
  pos := List.length_pos_of_ne_nil h

theorem prints_dataLayers (libc : Libc) {pkt : ArsPacket}
    (hhex : arsTestOption pkt arsOptRapdHexdata = true) {d : List UInt8} (hlen : d.length ≤ 5999) :
    List.Forall₂ (Prints libc pkt) (dataLayers d) (dataDescs d) := by
  rw [dataLayers, dataDescs]
  split_ifs with h
  · exact .nil
  · exact .cons (prints_hex libc hhex rfl (complete_data h) hlen) .nil

/-- **A payload is described, and built again.** -/
theorem describes_dataLayers (libc : Libc) {pkt : ArsPacket}
    (hhex : arsTestOption pkt arsOptRapdHexdata = true) {d : List UInt8} (hlen : d.length ≤ 5999) :
    List.Forall₂ (Describes libc pkt) (dataLayers d) (dataLayers d) := by
  rw [dataLayers]
  split_ifs with h
  · exact .nil
  · exact .cons ⟨_, prints_hex libc hhex rfl (complete_data h) hlen, builds_hex libc h⟩ .nil

theorem exists_restores_dataLayers (libc : Libc) {pkt : ArsPacket}
    (hhex : arsTestOption pkt arsOptRapdHexdata = true) {d : List UInt8} (hlen : d.length ≤ 5999) :
    ∀ l ∈ dataLayers d, ∃ l', Restores libc pkt l l' := by
  rw [dataLayers]
  split_ifs with h
  · exact fun _ hl => absurd hl List.not_mem_nil
  · exact List.forall_mem_singleton.mpr ⟨_, restores_data libc hhex rfl (complete_data h) hlen⟩

theorem isData_dataLayers (d : List UInt8) : ∀ l ∈ dataLayers d, l.lType = .data := by
  rw [dataLayers]
  split_ifs
  · exact fun _ hl => absurd hl List.not_mem_nil
  · exact List.forall_mem_singleton.mpr rfl

/-- **Options in front of data** are compiled to themselves and their padding. -/
theorem compile_opts_data {t : ArsType} {nop : ℕ}
    (hcomp : ∀ before l after, l.lType = t →
      arsLiCompiler before l after = .ok (arsCompilerOpt t nop before l after))
    (ht : t ≠ .data) {before os ds : List ArsLayer} (hos : ∀ l ∈ os, l.lType = t)
    (hds : ∀ l ∈ ds, l.lType = .data) (hrun : runSize t before = 0) :
    ∃ os', arsCompileFrom before (os ++ ds) = .ok (os' ++ ds) ∧ layersBytes os' =
      layersBytes os ++ List.replicate (padding (layersBytes os).length) (UInt8.ofNat nop) := by
  have hdata := arsCompileFrom_kept fun l hl => kept_data (hds l hl)
  cases os with
  | nil => exact ⟨[], hdata before, rfl⟩
  | cons o os =>
    have hhead : ds.head?.map ArsLayer.lType ≠ some t := by
      cases ds with
      | nil => exact fun h => by cases h
      | cons d ds =>
        rw [List.head?_cons, Option.map_some, hds d List.mem_cons_self]
        exact fun h => ht (Option.some.inj h).symm
    obtain ⟨os', hok, -, -, hbytes⟩ := arsCompileFrom_opts hcomp hhead hos (hdata _)
    refine ⟨os', hok, ?_⟩
    rw [hbytes, hrun, Nat.zero_add, ← length_layersBytes]

end StyxWire
