import StyxWire.Ars.AutoFields

/-!
# Fields set explicitly

“Anything else is generated, and setting a field explicitly always overrides the
generated value” (`docs/APD.txt`). So setting a field to the very value that would be
generated should make no difference. It makes none
(`StyxWire.explicit_fields_iff`), with one exception in `ars_compiler_ip`: the loop that
adds up the options for the header length also moves the variable that the search for
the protocol starts from. With an explicit header length the search starts at the IP
header itself, and an automatic protocol is that of an IP header.

## The fields

`StyxWire.ArsType.autoFields` lists the automatic fields of a type, each with its flag
and with the way it is copied from one layer to another; `StyxWire.ArsLayer.explicit` sets
some of them – those in a mask of flags – to what another layer has.
-/

namespace StyxWire

open Mem ArsLayer

/-- The automatic fields of a type: the flag that protects the field, and how to give it
to `l` the value it has in `c`. -/
def ArsType.autoFields : ArsType → List (ℕ × (ArsLayer → ArsLayer → ArsLayer))
  | .ip =>
    [(arsTakeIpVersion, fun c l => l.writeHi 0 ((c.byte 0).toNat / 16)),
      (arsTakeIpHdrlen, fun c l => l.writeLo 0 ((c.byte 0).toNat % 16)),
      (arsTakeIpTotlen, fun c l => l.write 2 (c.slice 2 2)),
      (arsTakeIpProtocol, fun c l => l.write 9 (c.slice 9 1)),
      (arsTakeIpCksum, fun c l => l.write 10 (c.slice 10 2))]
  | .icmp => [(arsTakeIcmpCksum, fun c l => l.write 2 (c.slice 2 2))]
  | .udp =>
    [(arsTakeUdpLen, fun c l => l.write 4 (c.slice 4 2)),
      (arsTakeUdpCksum, fun c l => l.write 6 (c.slice 6 2))]
  | .tcp =>
    [(arsTakeTcpHdrlen, fun c l => l.writeHi 12 ((c.byte 12).toNat / 16)),
      (arsTakeTcpCksum, fun c l => l.write 16 (c.slice 16 2))]
  | .igrp => [(arsTakeIgrpCksum, fun c l => l.write 10 (c.slice 10 2))]
  | .ip6 =>
    [(arsTakeIp6Version, fun c l => l.ip6Set c.ip6Version l.ip6Tclass l.ip6Flow),
      (arsTakeIp6Payloadlen, fun c l => l.write 4 (c.slice 4 2)),
      (arsTakeIp6Nexthdr, fun c l => l.write 6 (c.slice 6 1))]
  | .icmp6 => [(arsTakeIcmp6Cksum, fun c l => l.write 2 (c.slice 2 2))]
  | .ipopt | .tcpopt | .igrpentry | .data => []

/-- Set the fields whose flag is in `mask` to what they are in `c`, and the flags. -/
def ArsLayer.explicit (l : ArsLayer) (mask : ℕ) (c : ArsLayer) : ArsLayer :=
  (l.lType.autoFields.foldl (fun l f => if arsTake mask f.1 then f.2 c l else l) l).setFlags mask

/-- The same for the layers of a packet, a mask for each. -/
def setExplicit : List ℕ → List ArsLayer → List ArsLayer → List ArsLayer
  | mask :: masks, c :: cs, l :: ls => l.explicit mask c :: setExplicit masks cs ls
  | _, _, _ => []

theorem length_setExplicit_le (masks : List ℕ) (cs ls : List ArsLayer) :
    (setExplicit masks cs ls).length ≤ ls.length := by
  induction masks, cs, ls using setExplicit.induct with
  | case1 mask masks c cs l ls ih =>
    rw [setExplicit, List.length_cons, List.length_cons]
    omega
  | case2 masks cs ls h =>
    rw [setExplicit]
    · exact Nat.zero_le _
    · exact h

/-- A packet with some of its automatic fields set to what they are in another one. -/
def ArsPacket.explicit (pkt : ArsPacket) (masks : List ℕ) (out : ArsPacket) : ArsPacket :=
  { pkt with
    pLayer := setExplicit masks out.pLayer pkt.pLayer
    nr_le := (length_setExplicit_le _ _ _).trans pkt.nr_le }

/-! ### The layers with explicit fields -/

theorem ite_not_take {α : Type} (f x : ℕ) (a b : α) :
    (if arsDonttake f x then a else if arsTake f x then a else b) = a := by
  rw [arsDonttake_eq]
  cases arsTake f x <;> rfl

@[simp] theorem setFlags_writeAll (l : ArsLayer) (f : ℕ) (ws : List (ℕ × List UInt8)) :
    (l.setFlags f).writeAll ws = (l.writeAll ws).setFlags f :=
  ext_data (by simp) (by simp) (by simp) (by simp)

@[simp] theorem setFlags_byte (l : ArsLayer) (f i : ℕ) : (l.setFlags f).byte i = l.byte i := rfl

@[simp] theorem setFlags_slice (l : ArsLayer) (f off n : ℕ) :
    (l.setFlags f).slice off n = l.slice off n := rfl

theorem length_ite_slice_slice (b : Bool) {c l : ArsLayer} {off n : ℕ}
    (hc : off + n ≤ c.lData.length) (hl : off + n ≤ l.lData.length) :
    (if b then c.slice off n else l.slice off n).length = n :=
  length_ite_slice b (length_slice_of_le hc) hl

/-- A stretch that may be copied, in a layer that has the old one. -/
theorem ite_write_slice (b : Bool) {c l m : ArsLayer} {off n : ℕ}
    (hc : off + n ≤ c.lData.length) (hm : m.slice off n = l.slice off n) :
    (if b then m.write off (c.slice off n) else m) =
      m.write off (if b then c.slice off n else l.slice off n) := by
  refine (ite_write b m off _).trans ?_
  rw [length_slice_of_le hc, hm]

/-- The automatic fields of an IP header, some of them copied from `c`. -/
def ipExplicit (mask : ℕ) (c l : ArsLayer) : List (ℕ × List UInt8) :=
  [(0, [ipByte0 (arsTake mask arsTakeIpVersion) (arsTake mask arsTakeIpHdrlen)
      ((c.byte 0).toNat / 16) ((c.byte 0).toNat % 16) (l.byte 0)]),
    (2, if arsTake mask arsTakeIpTotlen then c.slice 2 2 else l.slice 2 2),
    (9, if arsTake mask arsTakeIpProtocol then c.slice 9 1 else l.slice 9 1),
    (10, if arsTake mask arsTakeIpCksum then c.slice 10 2 else l.slice 10 2)]

theorem explicit_ip {c l : ArsLayer} (hc : c.lType = .ip) (hl : l.lType = .ip) (mask : ℕ) :
    l.explicit mask c = (l.writeAll (ipExplicit mask c l)).setFlags mask ∧
      (ipExplicit mask c l).map span = l.lType.autoSpans := by
  have hlc : 20 ≤ c.lData.length := hdr_le_of_lType hc
  have hll : 20 ≤ l.lData.length := hdr_le_of_lType hl
  have hlen2 := length_ite_slice_slice (arsTake mask arsTakeIpTotlen)
    (show 2 + 2 ≤ c.lData.length by omega) (show 2 + 2 ≤ l.lData.length by omega)
  have hlen9 := length_ite_slice_slice (arsTake mask arsTakeIpProtocol)
    (show 9 + 1 ≤ c.lData.length by omega) (show 9 + 1 ≤ l.lData.length by omega)
  have hlen10 := length_ite_slice_slice (arsTake mask arsTakeIpCksum)
    (show 10 + 2 ≤ c.lData.length by omega) (show 10 + 2 ≤ l.lData.length by omega)
  refine ⟨?_, by simp [ipExplicit, span, hl, ArsType.autoSpans, hlen2, hlen9, hlen10]⟩
  have key : ∀ b : UInt8,
      (let l2 := if arsTake mask arsTakeIpTotlen then (l.write 0 [b]).write 2 (c.slice 2 2)
        else l.write 0 [b]
      let l3 := if arsTake mask arsTakeIpProtocol then l2.write 9 (c.slice 9 1) else l2
      if arsTake mask arsTakeIpCksum then l3.write 10 (c.slice 10 2) else l3) = l.writeAll
        [(0, [b]), (2, if arsTake mask arsTakeIpTotlen then c.slice 2 2 else l.slice 2 2),
          (9, if arsTake mask arsTakeIpProtocol then c.slice 9 1 else l.slice 9 1),
          (10, if arsTake mask arsTakeIpCksum then c.slice 10 2 else l.slice 10 2)] := by
    intro b
    extract_lets l2 l3
    have h2 : l2 = (l.write 0 [b]).write 2
        (if arsTake mask arsTakeIpTotlen then c.slice 2 2 else l.slice 2 2) :=
      ite_write_slice _ (by omega) (slice_write_of_apart (by simp))
    have h3 : l3 = l2.write 9 (if arsTake mask arsTakeIpProtocol then c.slice 9 1
        else l.slice 9 1) := by
      refine ite_write_slice _ (by omega) ?_
      rw [h2, slice_write_of_apart (by omega), slice_write_of_apart (by simp)]
    have h10 : l3.slice 10 2 = l.slice 10 2 := by
      rw [h3, h2, slice_write_of_apart (by omega), slice_write_of_apart (by omega),
        slice_write_of_apart (by simp)]
    rw [ite_write_slice _ (by omega) h10, h3, h2]
    rfl
  rw [ArsLayer.explicit, hl]
  simp only [ArsType.autoFields, List.foldl_cons, List.foldl_nil]
  rw [ite_writeHi _ _ (by omega), ite_writeLo _ _ (by simp; omega), byte_write_self (by omega),
    write_write (by simp)]
  exact congrArg (ArsLayer.setFlags · mask) (key _)

/-- The automatic fields of a UDP header, some of them copied from `c`. -/
def udpExplicit (mask : ℕ) (c l : ArsLayer) : List (ℕ × List UInt8) :=
  [(4, if arsTake mask arsTakeUdpLen then c.slice 4 2 else l.slice 4 2),
    (6, if arsTake mask arsTakeUdpCksum then c.slice 6 2 else l.slice 6 2)]

theorem explicit_udp {c l : ArsLayer} (hc : c.lType = .udp) (hl : l.lType = .udp) (mask : ℕ) :
    l.explicit mask c = (l.writeAll (udpExplicit mask c l)).setFlags mask ∧
      (udpExplicit mask c l).map span = l.lType.autoSpans := by
  have hlc : 8 ≤ c.lData.length := hdr_le_of_lType hc
  have hll : 8 ≤ l.lData.length := hdr_le_of_lType hl
  have hlen4 := length_ite_slice_slice (arsTake mask arsTakeUdpLen)
    (show 4 + 2 ≤ c.lData.length by omega) (show 4 + 2 ≤ l.lData.length by omega)
  have hlen6 := length_ite_slice_slice (arsTake mask arsTakeUdpCksum)
    (show 6 + 2 ≤ c.lData.length by omega) (show 6 + 2 ≤ l.lData.length by omega)
  refine ⟨?_, by simp [udpExplicit, span, hl, ArsType.autoSpans, hlen4, hlen6]⟩
  rw [ArsLayer.explicit, hl]
  simp only [ArsType.autoFields, List.foldl_cons, List.foldl_nil]
  rw [ite_write_slice (l := l) _ (by omega) rfl, ite_write_slice (l := l) _ (by omega)]
  · rfl
  · rw [slice_write_of_apart (by omega)]

/-- The automatic fields of a TCP header, some of them copied from `c`. -/
def tcpExplicit (mask : ℕ) (c l : ArsLayer) : List (ℕ × List UInt8) :=
  [(12, [if arsTake mask arsTakeTcpHdrlen then setHi (l.byte 12) ((c.byte 12).toNat / 16)
      else l.byte 12]),
    (16, if arsTake mask arsTakeTcpCksum then c.slice 16 2 else l.slice 16 2)]

theorem explicit_tcp {c l : ArsLayer} (hc : c.lType = .tcp) (hl : l.lType = .tcp) (mask : ℕ) :
    l.explicit mask c = (l.writeAll (tcpExplicit mask c l)).setFlags mask ∧
      (tcpExplicit mask c l).map span = l.lType.autoSpans := by
  have hlc : 20 ≤ c.lData.length := hdr_le_of_lType hc
  have hll : 20 ≤ l.lData.length := hdr_le_of_lType hl
  have hlen16 := length_ite_slice_slice (arsTake mask arsTakeTcpCksum)
    (show 16 + 2 ≤ c.lData.length by omega) (show 16 + 2 ≤ l.lData.length by omega)
  refine ⟨?_, by simp [tcpExplicit, span, hl, ArsType.autoSpans, hlen16]⟩
  rw [ArsLayer.explicit, hl]
  simp only [ArsType.autoFields, List.foldl_cons, List.foldl_nil]
  rw [ite_writeHi _ _ (by omega), ite_write_slice (l := l) _ (by omega)]
  · rfl
  · rw [slice_write_of_apart (by simp)]

/-- The automatic fields of an IPv6 header, some of them copied from `c`. -/
def ip6Explicit (mask : ℕ) (c l : ArsLayer) : List (ℕ × List UInt8) :=
  [(0, if arsTake mask arsTakeIp6Version then
      putBe32 (arsIp6Word c.ip6Version l.ip6Tclass l.ip6Flow) else l.slice 0 4),
    (4, if arsTake mask arsTakeIp6Payloadlen then c.slice 4 2 else l.slice 4 2),
    (6, if arsTake mask arsTakeIp6Nexthdr then c.slice 6 1 else l.slice 6 1)]

theorem explicit_ip6 {c l : ArsLayer} (hc : c.lType = .ip6) (hl : l.lType = .ip6) (mask : ℕ) :
    l.explicit mask c = (l.writeAll (ip6Explicit mask c l)).setFlags mask ∧
      (ip6Explicit mask c l).map span = l.lType.autoSpans := by
  have hlc : 40 ≤ c.lData.length := hdr_le_of_lType hc
  have hll : 40 ≤ l.lData.length := hdr_le_of_lType hl
  have hlen0 : (if arsTake mask arsTakeIp6Version then
      putBe32 (arsIp6Word c.ip6Version l.ip6Tclass l.ip6Flow) else l.slice 0 4).length = 4 :=
    length_ite_slice _ rfl (by omega)
  have hlen4 := length_ite_slice_slice (arsTake mask arsTakeIp6Payloadlen)
    (show 4 + 2 ≤ c.lData.length by omega) (show 4 + 2 ≤ l.lData.length by omega)
  have hlen6 := length_ite_slice_slice (arsTake mask arsTakeIp6Nexthdr)
    (show 6 + 1 ≤ c.lData.length by omega) (show 6 + 1 ≤ l.lData.length by omega)
  refine ⟨?_, by simp [ip6Explicit, span, hl, ArsType.autoSpans, hlen0, hlen4, hlen6]⟩
  rw [ArsLayer.explicit, hl]
  simp only [ArsType.autoFields, List.foldl_cons, List.foldl_nil, ip6Set, ip6Explicit]
  rw [ite_write (arsTake mask arsTakeIp6Version) l 0
    (putBe32 (arsIp6Word c.ip6Version l.ip6Tclass l.ip6Flow)), length_putBe32]
  refine congrArg (ArsLayer.setFlags · mask) ?_
  generalize (if arsTake mask arsTakeIp6Version then
    putBe32 (arsIp6Word c.ip6Version l.ip6Tclass l.ip6Flow) else l.slice 0 4) = w at hlen0 ⊢
  have h4 : (if arsTake mask arsTakeIp6Payloadlen then (l.write 0 w).write 4 (c.slice 4 2)
      else l.write 0 w) = (l.write 0 w).write 4
        (if arsTake mask arsTakeIp6Payloadlen then c.slice 4 2 else l.slice 4 2) :=
    ite_write_slice _ (by omega) (slice_write_of_apart (by omega))
  rw [h4]
  refine ite_write_slice _ (by omega) ?_
  rw [slice_write_of_apart (by omega), slice_write_of_apart (by omega)]

/-- A layer whose one automatic field is the checksum at `off`. -/
theorem explicit_cksum {t : ArsType} {take off : ℕ} {c l : ArsLayer} (hc : c.lType = t)
    (hl : l.lType = t) (hfields : t.autoFields = [(take, fun c l => l.write off (c.slice off 2))])
    (hspans : t.autoSpans = [(off, 2)]) (hfit : off + 2 ≤ t.hdrSize) (mask : ℕ) :
    l.explicit mask c = (l.writeAll
        [(off, if arsTake mask take then c.slice off 2 else l.slice off 2)]).setFlags mask ∧
      [(off, if arsTake mask take then c.slice off 2 else l.slice off 2)].map span =
        l.lType.autoSpans := by
  have hlc := hdr_le_of_lType hc
  have hll := hdr_le_of_lType hl
  have hlen := length_ite_slice_slice (arsTake mask take) (show off + 2 ≤ c.lData.length by omega)
    (show off + 2 ≤ l.lData.length by omega)
  refine ⟨?_, by simp [span, hl, hspans, hlen]⟩
  rw [ArsLayer.explicit, hl, hfields]
  simp only [List.foldl_cons, List.foldl_nil]
  rw [ite_write_slice (l := l) _ (by omega) rfl]
  rfl

/-! ### One layer -/

theorem explicit_of_autoFields_nil {l : ArsLayer} (h : l.lType.autoFields = []) (mask : ℕ)
    (c : ArsLayer) : l.explicit mask c = l.setFlags mask := by
  rw [ArsLayer.explicit, h, List.foldl_nil]

/-- Explicit fields are writes in the automatic stretches. -/
theorem explicit_eq_writeAll {c l : ArsLayer} (hc : c.lType = l.lType) (mask : ℕ) :
    ∃ ws : List (ℕ × List UInt8), ws.map span = l.lType.autoSpans ∧
      l.explicit mask c = (l.writeAll ws).setFlags mask := by
  cases ht : l.lType with
  | ip =>
    obtain ⟨hexp, hspan⟩ := explicit_ip (hc.trans ht) ht mask
    exact ⟨_, ht ▸ hspan, hexp⟩
  | ip6 =>
    obtain ⟨hexp, hspan⟩ := explicit_ip6 (hc.trans ht) ht mask
    exact ⟨_, ht ▸ hspan, hexp⟩
  | udp =>
    obtain ⟨hexp, hspan⟩ := explicit_udp (hc.trans ht) ht mask
    exact ⟨_, ht ▸ hspan, hexp⟩
  | tcp =>
    obtain ⟨hexp, hspan⟩ := explicit_tcp (hc.trans ht) ht mask
    exact ⟨_, ht ▸ hspan, hexp⟩
  | icmp | igrp | icmp6 =>
    obtain ⟨hexp, hspan⟩ := explicit_cksum (hc.trans ht) ht rfl rfl (by decide) mask
    exact ⟨_, ht ▸ hspan, hexp⟩
  | ipopt | tcpopt | igrpentry | data =>
    exact ⟨[], rfl, explicit_of_autoFields_nil (by rw [ht]; rfl) mask c⟩

theorem explicit_lType {c l : ArsLayer} (hc : c.lType = l.lType) (mask : ℕ) :
    (l.explicit mask c).lType = l.lType := by
  obtain ⟨ws, -, hexp⟩ := explicit_eq_writeAll hc mask
  rw [hexp, setFlags_lType, writeAll_lType]

theorem explicit_lSize {c l : ArsLayer} (hc : c.lType = l.lType) (mask : ℕ) :
    (l.explicit mask c).lSize = l.lSize := by
  obtain ⟨ws, -, hexp⟩ := explicit_eq_writeAll hc mask
  rw [hexp, setFlags_lSize, writeAll_lSize]

theorem explicit_side {c l : ArsLayer} (hc : c.lType = l.lType) (mask : ℕ) :
    (l.explicit mask c).side = l.side := by
  obtain ⟨ws, hws, hexp⟩ := explicit_eq_writeAll hc mask
  rw [hexp]
  exact side_writeAll hws

/-- **Explicit fields that the rest of a compiler does not notice**: if they leave alone
what the compiler computes for the other fields, they leave alone its outcome. -/
theorem Fills.explicit {t : ArsType} {take off : ℕ}
    {A : ArsLayer → List UInt8 → List (ℕ × List UInt8)} {sumOf : ArsLayer → Except ArsErr ℕ}
    {F : ArsLayer → Except ArsErr ArsLayer} (h : Fills t take off A sumOf F)
    {l c : ArsLayer} (hl : l.lType = t) (hflags : l.lFlags = 0) (hok : F l = .ok c) {mask : ℕ}
    (hsum : ∀ m f, sumOf (m.setFlags f) = sumOf m) {E : List (ℕ × List UInt8)}
    (hE : E.map span = l.lType.autoSpans)
    (hexp : l.explicit mask c = (l.writeAll E).setFlags mask)
    (hck : (off, if arsTake mask take then c.slice off 2 else l.slice off 2) ∈ E)
    (hA : ∀ ck', A (l.explicit mask c) ck' = A l ck') :
    F (l.explicit mask c) = .ok (c.setFlags mask) := by
  have htype : (l.explicit mask c).lType = t := by
    rw [hexp, setFlags_lType, writeAll_lType, hl]
  have hauto : ∀ ck' : List UInt8, ck'.length = 2 →
      (l.explicit mask c).writeAll (A (l.explicit mask c) ck') =
        (l.writeAll (A l ck')).setFlags mask := by
    intro ck' hck'
    rw [hA, hexp, setFlags_writeAll, writeAll_writeAll_auto hE (h.span_eq l ck' hl hck')]
  rw [h.eq l hl, hflags, arsDonttake_zero, if_pos rfl] at hok
  obtain ⟨sum, hs, rfl⟩ := map_eq_ok.mp hok
  have hslice := h.slice_writeAll hl (length_putLe16 sum)
  rw [h.eq _ htype, show (l.explicit mask _).lFlags = mask from rfl, arsDonttake_eq]
  by_cases htake : arsTake mask take = true
  · have hread : (l.explicit mask (l.writeAll (A l (putLe16 sum)))).slice off 2 = putLe16 sum := by
      rw [if_pos htake, hslice] at hck
      have hfit := h.fit.trans (hdr_le_of_lType hl)
      have hr := Mem.slice_writeAll (d := l.lData) (ArsType.pairwise_apart hE) hck hfit
      rw [hexp, setFlags_slice, ArsLayer.slice, ArsLayer.writeAll_lData]
      exact hr
    rw [htake, hread]
    exact congrArg Except.ok (hauto _ rfl)
  · rw [Bool.not_eq_true] at htake
    rw [htake, hauto _ rfl, hsum, hs]
    exact congrArg Except.ok (hauto (putLe16 sum) rfl)

/-- The type of the first of the given layers that is not an IP option is IP. -/
def IpFollows (after : List ArsLayer) : Prop :=
  ((after.map ArsLayer.lType).dropWhile (· = .ipopt)).head? = some .ip

/-- The explicit fields of a layer do no harm: an IP header whose header length is
explicit has an explicit protocol as well, or another IP header follows it. -/
def ExplicitAt (mask : ℕ) (l : ArsLayer) (after : List ArsLayer) : Prop :=
  l.lType = .ip → arsTake mask arsTakeIpHdrlen = true →
    arsTake mask arsTakeIpProtocol = true ∨ IpFollows after

/-- The automatic protocol is that of an IP header exactly where one follows. -/
theorem arsIpProtocol_eq_four (after : List ArsLayer) :
    UInt8.ofNat (arsIpProtocol after) = UInt8.ofNat 4 ↔ IpFollows after := by
  induction after with
  | nil => simp [arsIpProtocol, IpFollows]
  | cons l ls ih =>
    simp only [IpFollows, List.map_cons] at ih ⊢
    by_cases hopt : l.lType = .ipopt
    · rw [List.dropWhile_cons_of_pos (by simp [hopt]), arsIpProtocol, hopt]
      exact ih
    · rw [List.dropWhile_cons_of_neg (by simp [hopt])]
      cases hl : l.lType <;> simp_all [arsIpProtocol]

theorem ipByte0_explicit (ver hl : Bool) (h : ℕ) (b : UInt8) :
    ipByte0 (!ver) (!hl) 4 h (ipByte0 ver hl ((ipByte0 true true 4 h b).toNat / 16)
      ((ipByte0 true true 4 h b).toNat % 16) b) = ipByte0 true true 4 h b := by
  refine eq_of_halves ?_ ?_ <;> cases ver <;> cases hl <;> simp [ipByte0] <;> omega

/-- What the compiler computes for an IP header with explicit fields: what it computes
without them, but for the protocol. -/
theorem ipAuto_explicit {l : ArsLayer} (hl : l.lType = .ip) (hflags : l.lFlags = 0)
    (after : List ArsLayer) {c : ArsLayer} (hc : c = arsCompilerIp l after) (mask : ℕ)
    (ck : List UInt8) :
    ipAuto (l.explicit mask c) after ck =
      [(0, [ipByte0 true true 4 (20 / 4 + arsRelativeSize (after.takeWhile isIpopt) / 4)
          (l.byte 0)]),
        (2, putBe16 (l.lSize + arsRelativeSize after)),
        (9, [UInt8.ofNat (if arsTake mask arsTakeIpHdrlen && !arsTake mask arsTakeIpProtocol then 4
          else arsIpProtocol after)]),
        (10, ck)] := by
  obtain ⟨h0, h2, h9⟩ := ip_fields hl hflags after hc
  have htype : c.lType = .ip := by
    obtain ⟨ck', -, hok⟩ := (fills_ip after).exists_eq hl rfl
    rw [hc, hok, writeAll_lType, hl]
  have hlc : 20 ≤ c.lData.length := hdr_le_of_lType htype
  have hll : 20 ≤ l.lData.length := hdr_le_of_lType hl
  obtain ⟨hexp, hspan⟩ := explicit_ip htype hl mask
  have hauto := auto_writeAll hspan
  set e := l.writeAll (ipExplicit mask c l) with he
  have hetype : e.lType = .ip := by rw [he, writeAll_lType, hl]
  have hesize : e.lSize = l.lSize := by rw [he, writeAll_lSize]
  have hle : 20 ≤ e.lData.length := hdr_le_of_lType hetype
  simp only [auto, hetype, ArsType.autoSpans, List.map_cons, List.map_nil, ipExplicit,
    List.cons.injEq, Prod.mk.injEq, true_and, and_true,
    slice_one (show 0 < e.lData.length by omega)] at hauto
  obtain ⟨he0, he2, he9, -⟩ := hauto
  rw [hexp]
  simp only [ipAuto, setFlags_lFlags, setFlags_lSize, setFlags_byte, setFlags_slice, he0, he2, he9,
    hesize, h0, h2, h9, arsIpProtocol_dropWhile, arsDonttake_eq, ipByte0_explicit]
  refine congrArg₂ _ rfl ?_
  cases arsTake mask arsTakeIpHdrlen <;> cases arsTake mask arsTakeIpProtocol <;>
    cases arsTake mask arsTakeIpTotlen <;> rfl

theorem udpAuto_explicit {before after : List ArsLayer} {l c : ArsLayer} (hl : l.lType = .udp)
    (hflags : l.lFlags = 0) (hok : arsCompilerUdp before l after = .ok c) (mask : ℕ)
    (ck : List UInt8) : udpAuto (l.explicit mask c) after ck = udpAuto l after ck := by
  obtain ⟨ck', hck, rfl⟩ := (fills_udp before after).exists_eq hl hok
  set c := l.writeAll (udpAuto l after ck') with hc
  have htype : c.lType = .udp := by rw [hc, writeAll_lType, hl]
  have hauto := auto_writeAll (span_udpAuto hl after hck)
  rw [← hc] at hauto
  simp only [auto, htype, ArsType.autoSpans, List.map_cons, List.map_nil, udpAuto, hflags,
    arsDonttake_zero, if_true, List.cons.injEq, Prod.mk.injEq, true_and, and_true] at hauto
  obtain ⟨hexp, hspan⟩ := explicit_udp htype hl mask
  have hauto' := auto_writeAll hspan
  rw [hexp]
  set e := l.writeAll (udpExplicit mask c l) with he
  have hetype : e.lType = .udp := by rw [he, writeAll_lType, hl]
  have hesize : e.lSize = l.lSize := by rw [he, writeAll_lSize]
  simp only [auto, hetype, ArsType.autoSpans, List.map_cons, List.map_nil, udpExplicit,
    List.cons.injEq, Prod.mk.injEq, true_and, and_true] at hauto'
  simp only [udpAuto, setFlags_lFlags, setFlags_lSize, setFlags_slice, hesize, hauto'.1, hauto.1,
    hflags, arsDonttake_zero, if_true, ite_not_take]

theorem setHi_explicit (hl : Bool) (v : ℕ) (b : UInt8) :
    (if !hl then setHi (if hl then setHi b ((setHi b v).toNat / 16) else b) v
      else if hl then setHi b ((setHi b v).toNat / 16) else b) = setHi b v := by
  refine eq_of_halves ?_ ?_ <;> cases hl <;> simp
  omega

theorem tcpAuto_explicit {before after : List ArsLayer} {l c : ArsLayer} (hl : l.lType = .tcp)
    (hflags : l.lFlags = 0) (hok : arsCompilerTcp before l after = .ok c) (mask : ℕ)
    (ck : List UInt8) : tcpAuto (l.explicit mask c) after ck = tcpAuto l after ck := by
  obtain ⟨ck', hck, rfl⟩ := (fills_tcp before after).exists_eq hl hok
  set c := l.writeAll (tcpAuto l after ck') with hc
  have htype : c.lType = .tcp := by rw [hc, writeAll_lType, hl]
  have hlc : 20 ≤ c.lData.length := hdr_le_of_lType htype
  have hauto := auto_writeAll (span_tcpAuto hl after hck)
  rw [← hc] at hauto
  simp only [auto, htype, ArsType.autoSpans, List.map_cons, List.map_nil, tcpAuto, hflags,
    arsDonttake_zero, if_true, List.cons.injEq, Prod.mk.injEq, true_and, and_true,
    slice_one (show 12 < c.lData.length by omega)] at hauto
  obtain ⟨hexp, hspan⟩ := explicit_tcp htype hl mask
  have hauto' := auto_writeAll hspan
  rw [hexp]
  set e := l.writeAll (tcpExplicit mask c l) with he
  have hetype : e.lType = .tcp := by rw [he, writeAll_lType, hl]
  have hle : 20 ≤ e.lData.length := hdr_le_of_lType hetype
  simp only [auto, hetype, ArsType.autoSpans, List.map_cons, List.map_nil, tcpExplicit,
    List.cons.injEq, Prod.mk.injEq, true_and, and_true,
    slice_one (show 12 < e.lData.length by omega)] at hauto'
  simp only [tcpAuto, setFlags_lFlags, setFlags_byte, hauto'.1, hauto.1, hflags,
    arsDonttake_zero, if_true, arsDonttake_eq mask, setHi_explicit]

theorem ip6Auto_explicit {l : ArsLayer} (hl : l.lType = .ip6) (hflags : l.lFlags = 0)
    (after : List ArsLayer) {c : ArsLayer} (hc : c = arsCompilerIp6 l after) (mask : ℕ) :
    ip6Auto (l.explicit mask c) after = ip6Auto l after := by
  rw [arsCompilerIp6_eq hl] at hc
  have htype : c.lType = .ip6 := by rw [hc, writeAll_lType, hl]
  have hlc : 40 ≤ c.lData.length := hdr_le_of_lType htype
  have hauto := auto_writeAll (span_ip6Auto hl after)
  rw [← hc] at hauto
  simp only [auto, htype, ArsType.autoSpans, List.map_cons, List.map_nil, ip6Auto, hflags,
    arsDonttake_zero, if_true, List.cons.injEq, Prod.mk.injEq, true_and, and_true] at hauto
  obtain ⟨h0, h4, h6⟩ := hauto
  obtain ⟨hv, htc, hfl⟩ := ip6Fields_of_slice (by omega) h0
  obtain ⟨hexp, hspan⟩ := explicit_ip6 htype hl mask
  have hauto' := auto_writeAll hspan
  rw [hexp]
  set e := l.writeAll (ip6Explicit mask c l) with he
  have hetype : e.lType = .ip6 := by rw [he, writeAll_lType, hl]
  have hle : 40 ≤ e.lData.length := hdr_le_of_lType hetype
  simp only [auto, hetype, ArsType.autoSpans, List.map_cons, List.map_nil, ip6Explicit,
    List.cons.injEq, Prod.mk.injEq, true_and, and_true] at hauto'
  obtain ⟨he0, he4, he6⟩ := hauto'
  -- an explicit version leaves the traffic class and the flow label alone
  have hword : (if arsDonttake mask arsTakeIp6Version then
      putBe32 (arsIp6Word 6 e.ip6Tclass e.ip6Flow) else e.slice 0 4) =
        putBe32 (arsIp6Word 6 l.ip6Tclass l.ip6Flow) := by
    rw [arsDonttake_eq]
    cases hver : arsTake mask arsTakeIp6Version
    · rw [hver] at he0
      have hsame : e.verTcFl = l.verTcFl := verTcFl_eq_of_slice (by simpa [hver] using he0)
      simp only [ip6Tclass, ip6Flow, hsame]
      rfl
    · rw [hver, if_pos rfl, hv] at he0
      exact he0
  simp only [ip6Auto, setFlags_lFlags, setFlags_slice, he4, he6, h4, h6, hflags, arsDonttake_zero,
    if_true, ite_not_take]
  exact congrArg₂ _ (congrArg _ hword) rfl

theorem arsCompilerOpt_setFlags (type : ArsType) (nop : ℕ) (before : List ArsLayer) (l : ArsLayer)
    (after : List ArsLayer) (f : ℕ) :
    arsCompilerOpt type nop before (l.setFlags f) after =
      (arsCompilerOpt type nop before l after).setFlags f := by
  unfold arsCompilerOpt
  split
  · rfl
  · dsimp only [setFlags_lSize]
    split <;> rfl

/-- **One layer**: explicit fields that do no harm change nothing in its outcome. -/
theorem arsLiCompiler_explicit {before after : List ArsLayer} {l c : ArsLayer} {mask : ℕ}
    (hflags : l.lFlags = 0) (hok : arsLiCompiler before l after = .ok c)
    (hat : ExplicitAt mask l after) :
    arsLiCompiler before (l.explicit mask c) after = .ok (c.setFlags mask) := by
  have hct := arsLiCompiler_lType hok
  unfold arsLiCompiler at hok ⊢
  rw [explicit_lType hct]
  cases ht : l.lType with
  | ip =>
    rw [ht] at hok hct
    have hc := (Except.ok.inj hok).symm
    obtain ⟨hexp, hspan⟩ := explicit_ip hct ht mask
    refine (fills_ip after).explicit ht hflags hok (fun _ _ => rfl) hspan hexp
      (by simp [ipExplicit]) fun ck => ?_
    have hproto : UInt8.ofNat (if arsTake mask arsTakeIpHdrlen && !arsTake mask arsTakeIpProtocol
        then 4 else arsIpProtocol after) = UInt8.ofNat (arsIpProtocol after) := by
      split_ifs with hmask
      · rw [Bool.and_eq_true, Bool.not_eq_true'] at hmask
        refine ((arsIpProtocol_eq_four after).mpr ((hat ht hmask.1).resolve_left ?_)).symm
        simp [hmask.2]
      · rfl
    rw [ipAuto_explicit ht hflags after hc, hproto]
    simp [ipAuto, hflags, arsIpProtocol_dropWhile]
  | ipopt =>
    rw [ht] at hok
    obtain rfl := Except.ok.inj hok
    rw [explicit_of_autoFields_nil (by rw [ht]; rfl)]
    exact congrArg Except.ok (arsCompilerOpt_setFlags _ _ _ _ _ _)
  | tcpopt =>
    rw [ht] at hok
    obtain rfl := Except.ok.inj hok
    rw [explicit_of_autoFields_nil (by rw [ht]; rfl)]
    exact congrArg Except.ok (arsCompilerOpt_setFlags _ _ _ _ _ _)
  | icmp =>
    rw [ht] at hok hct
    obtain ⟨hexp, hspan⟩ := explicit_cksum hct ht rfl rfl (by decide) mask
    exact (fills_icmp after).explicit ht hflags hok (fun _ _ => rfl) hspan hexp (by simp)
      fun _ => rfl
  | igrp =>
    rw [ht] at hok hct
    obtain ⟨hexp, hspan⟩ := explicit_cksum hct ht rfl rfl (by decide) mask
    exact (fills_igrp after).explicit ht hflags hok (fun _ _ => rfl) hspan hexp (by simp)
      fun _ => rfl
  | udp =>
    rw [ht] at hok hct
    obtain ⟨hexp, hspan⟩ := explicit_udp hct ht mask
    exact (fills_udp before after).explicit ht hflags hok (fun _ _ => rfl) hspan hexp
      (by simp [udpExplicit]) (udpAuto_explicit ht hflags hok mask)
  | tcp =>
    rw [ht] at hok hct
    obtain ⟨hexp, hspan⟩ := explicit_tcp hct ht mask
    exact (fills_tcp before after).explicit ht hflags hok (fun _ _ => rfl) hspan hexp
      (by simp [tcpExplicit]) (tcpAuto_explicit ht hflags hok mask)
  | ip6 =>
    rw [ht] at hok hct
    have hc := (Except.ok.inj hok).symm
    obtain ⟨hexp, hspan⟩ := explicit_ip6 hct ht mask
    have htype : (l.explicit mask c).lType = .ip6 := by
      rw [hexp, setFlags_lType, writeAll_lType, ht]
    refine congrArg Except.ok ?_
    rw [arsCompilerIp6_eq htype, ip6Auto_explicit ht hflags after hc, hexp, setFlags_writeAll,
      writeAll_writeAll_auto hspan (span_ip6Auto ht after), hc, arsCompilerIp6_eq ht]
  | icmp6 =>
    rw [ht] at hok hct
    obtain ⟨hexp, hspan⟩ := explicit_cksum hct ht rfl rfl (by decide) mask
    exact (fills_icmp6 before after).explicit ht hflags hok (fun _ _ => rfl) hspan hexp (by simp)
      fun _ => rfl
  | igrpentry =>
    rw [ht] at hok
    obtain rfl := Except.ok.inj hok
    rw [explicit_of_autoFields_nil (by rw [ht]; rfl)]
  | data =>
    rw [ht] at hok
    obtain rfl := Except.ok.inj hok
    rw [explicit_of_autoFields_nil (by rw [ht]; rfl)]

/-- Conversely, an explicit header length without the protocol shows in the protocol. -/
theorem explicitAt_of_strip_eq {after : List ArsLayer} {l c : ArsLayer} {mask : ℕ}
    (hflags : l.lFlags = 0) (hl : l.lType = .ip) (hc : c = arsCompilerIp l after)
    (hstrip : (arsCompilerIp (l.explicit mask c) after).strip = c.strip) :
    ExplicitAt mask l after := by
  intro _ hhl
  by_contra hnot
  rw [not_or, Bool.not_eq_true] at hnot
  have hcomp : arsLiCompiler [] l after = .ok c := by rw [arsLiCompiler, hl, hc]
  have hct : c.lType = l.lType := arsLiCompiler_lType hcomp
  have htype : (l.explicit mask c).lType = .ip := (explicit_lType hct mask).trans hl
  obtain ⟨ck, hck, hok⟩ := (fills_ip after).exists_eq htype rfl
  have hauto := auto_writeAll (span_ipAuto htype after hck)
  rw [← hok, ipAuto_explicit hl hflags after hc] at hauto
  simp only [auto, hok, writeAll_lType, htype, ArsType.autoSpans, List.map_cons, hhl, hnot.1,
    List.cons.injEq, Prod.mk.injEq, true_and, Bool.not_false, Bool.and_self, if_true] at hauto
  have h9 : (arsCompilerIp (l.explicit mask c) after).slice 9 1 = c.slice 9 1 := by
    have hdata := congrArg ArsLayer.lData hstrip
    simp only [strip_lData] at hdata
    simp only [ArsLayer.slice, hdata]
  rw [hok, hauto.2.2.1, (ip_fields hl hflags after hc).2.2] at h9
  exact hnot.2 ((arsIpProtocol_eq_four after).mp (List.singleton_injective h9).symm)

/-! ### The packet -/

/-- No explicit field of the packet does harm. -/
def ExplicitOk : List ℕ → List ArsLayer → Prop
  | mask :: masks, l :: ls => ExplicitAt mask l ls ∧ ExplicitOk masks ls
  | _, _ => True

theorem explicitAt_congr {mask : ℕ} {l : ArsLayer} {ls ms : List ArsLayer}
    (h : ms.map ArsLayer.lType = ls.map ArsLayer.lType) :
    ExplicitAt mask l ms ↔ ExplicitAt mask l ls := by
  rw [ExplicitAt, ExplicitAt, IpFollows, IpFollows, h]

/-- The loop, on layers with explicit fields that do no harm. -/
theorem arsCompileFrom_explicit {before before' ls out : List ArsLayer} {masks : List ℕ}
    (hleft : SameLeft (ls.head?.map ArsLayer.lType) before before')
    (hflags : ∀ l ∈ ls, l.lFlags = 0) (hok : arsCompileFrom before ls = .ok out)
    (hlen : masks.length = ls.length) (hex : ExplicitOk masks ls) :
    ∃ out', arsCompileFrom before' (setExplicit masks out ls) = .ok out' ∧
      out'.map strip = out.map strip := by
  induction ls generalizing before before' out masks with
  | nil =>
    obtain rfl : [] = out := by simpa [arsCompileFrom] using hok
    obtain rfl : masks = [] := by simpa using hlen
    exact ⟨[], rfl, rfl⟩
  | cons l ls ih =>
    obtain ⟨c, cs, hcs, hc, rfl⟩ := arsCompileFrom_cons.mp hok
    obtain ⟨mask, masks, rfl⟩ := List.exists_cons_of_length_eq_add_one hlen
    have hct := arsLiCompiler_lType hc
    have hleft' : SameLeft (some l.lType) before before' := hleft
    have hrest : SameLeft (ls.head?.map ArsLayer.lType) (l :: before)
        (l.explicit mask c :: before') :=
      hleft'.cons (explicit_side hct mask) (fun _ _ => explicit_lSize hct mask)
        (head?_arsCompileFrom hcs)
    obtain ⟨ds, hds, hstrip⟩ := ih hrest (fun m hm => hflags m (by simp [hm])) hcs
      (by simpa using hlen) hex.2
    have hat : ExplicitAt mask l cs :=
      (explicitAt_congr (map_lType_arsCompileFrom hcs)).mpr hex.1
    have hd : arsLiCompiler before' (l.explicit mask c) ds = .ok (c.setFlags mask) := by
      rw [← arsLiCompiler_map_strip, hstrip, arsLiCompiler_map_strip,
        ← arsLiCompiler_congr (by rwa [explicit_lType hct])]
      exact arsLiCompiler_explicit (hflags l (by simp)) hc hat
    refine ⟨c.setFlags mask :: ds, arsCompileFrom_cons.mpr ⟨_, _, hds, hd, rfl⟩, ?_⟩
    rw [List.map_cons, List.map_cons, hstrip]
    rfl

/-- Conversely, if the layers come out the same, no explicit field does harm. -/
theorem explicitOk_of_strip_eq {before before' ls out out' : List ArsLayer} {masks : List ℕ}
    (hleft : SameLeft (ls.head?.map ArsLayer.lType) before before')
    (hflags : ∀ l ∈ ls, l.lFlags = 0) (hok : arsCompileFrom before ls = .ok out)
    (hlen : masks.length = ls.length)
    (hok' : arsCompileFrom before' (setExplicit masks out ls) = .ok out')
    (hstrip : out'.map strip = out.map strip) : ExplicitOk masks ls := by
  induction ls generalizing before before' out out' masks with
  | nil =>
    obtain rfl : masks = [] := by simpa using hlen
    trivial
  | cons l ls ih =>
    obtain ⟨c, cs, hcs, hc, rfl⟩ := arsCompileFrom_cons.mp hok
    obtain ⟨mask, masks, rfl⟩ := List.exists_cons_of_length_eq_add_one hlen
    obtain ⟨d, ds, hds, hd, rfl⟩ := arsCompileFrom_cons.mp hok'
    rw [List.map_cons, List.map_cons, List.cons.injEq] at hstrip
    have hct := arsLiCompiler_lType hc
    have hleft' : SameLeft (some l.lType) before before' := hleft
    have hrest : SameLeft (ls.head?.map ArsLayer.lType) (l :: before)
        (l.explicit mask c :: before') :=
      hleft'.cons (explicit_side hct mask) (fun _ _ => explicit_lSize hct mask)
        (head?_arsCompileFrom hcs)
    refine ⟨(explicitAt_congr (map_lType_arsCompileFrom hcs)).mp fun hl => ?_,
      ih hrest (fun m hm => hflags m (by simp [hm])) hcs (by simpa using hlen) hds hstrip.2⟩
    rw [arsLiCompiler, hl] at hc
    rw [← arsLiCompiler_map_strip, hstrip.2, arsLiCompiler_map_strip, arsLiCompiler,
      explicit_lType hct, hl] at hd
    have hceq := (Except.ok.inj hc).symm
    refine explicitAt_of_strip_eq (hflags l (by simp)) hl hceq ?_ hl
    rw [Except.ok.inj hd]
    exact hstrip.1

/-- **Explicit fields.** Let a packet without flags compile to `out`, and let any of its
automatic fields be set, with their flags, to what they are in `out`. The packet then
compiles to the same layers, flags aside, **if and only if** every IP header with an
explicit header length has an explicit protocol too, or another IP header after it. -/
theorem explicit_fields_iff {pkt out : ArsPacket} (hflags : ∀ l ∈ pkt.pLayer, l.lFlags = 0)
    (h : arsCompile pkt = .ok out) {masks : List ℕ} (hlen : masks.length = pkt.pLayer.length) :
    (∃ out', arsCompile (pkt.explicit masks out) = .ok out' ∧
      out'.pLayer.map strip = out.pLayer.map strip) ↔ ExplicitOk masks pkt.pLayer := by
  have hls := (arsCompile_eq_ok.mp h).1
  have hnil : SameLeft (pkt.pLayer.head?.map ArsLayer.lType) [] [] := ⟨rfl, fun _ _ _ => rfl⟩
  constructor
  · rintro ⟨out', hok', hstrip⟩
    exact explicitOk_of_strip_eq hnil hflags hls hlen (arsCompile_eq_ok.mp hok').1 hstrip
  · intro hex
    obtain ⟨ds, hds, hstrip⟩ := arsCompileFrom_explicit hnil hflags hls hlen hex
    refine ⟨{ pkt.explicit masks out with pLayer := ds, nr_le := ?_ },
      arsCompile_eq_ok.mpr ⟨hds, rfl, rfl, rfl, rfl⟩, hstrip⟩
    rw [length_arsCompileFrom hds]
    exact (pkt.explicit masks out).nr_le

theorem explicit_fields_iff_ipUdp : ∃ out, arsCompile ipUdpPacket = .ok out ∧
    ((∃ out', arsCompile (ipUdpPacket.explicit [arsTakeIpProtocol, arsTakeUdpLen] out) = .ok out' ∧
      out'.pLayer.map strip = out.pLayer.map strip) ↔
      ExplicitOk [arsTakeIpProtocol, arsTakeUdpLen] ipUdpPacket.pLayer) := by
  obtain ⟨out, h⟩ : ∃ out, arsCompile ipUdpPacket = .ok out := ⟨_, rfl⟩
  exact ⟨out, h, explicit_fields_iff (by decide) h rfl⟩

/-- A UDP datagram whose header length is set to what it is anyway: it is sent as a tunnel. -/
theorem explicit_hdrlen_changes_protocol : ¬∀ (pkt out : ArsPacket) (masks : List ℕ),
    (∀ l ∈ pkt.pLayer, l.lFlags = 0) → arsCompile pkt = .ok out →
      masks.length = pkt.pLayer.length →
      ∃ out', arsCompile (pkt.explicit masks out) = .ok out' ∧
        out'.pLayer.map strip = out.pLayer.map strip := by
  intro hall
  obtain ⟨out, h⟩ : ∃ out, arsCompile ipUdpPacket = .ok out := ⟨_, rfl⟩
  have hflags : ∀ l ∈ ipUdpPacket.pLayer, l.lFlags = 0 := by decide
  obtain ⟨out', hok', hstrip⟩ := hall ipUdpPacket out [arsTakeIpHdrlen, 0] hflags h rfl
  have hex := explicitOk_of_strip_eq ⟨rfl, fun _ _ _ => rfl⟩ hflags (arsCompile_eq_ok.mp h).1 rfl
    (arsCompile_eq_ok.mp hok').1 hstrip
  rcases hex.1 rfl (by decide) with hproto | hip
  · exact absurd hproto (by decide)
  · exact absurd hip (by simp [IpFollows, full])

end StyxWire
