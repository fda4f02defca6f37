import StyxWire.Ars.Compile

/-!
# The automatic fields

The fields the compilers fill in are stretches of the header, one list for each type
(`StyxWire.ArsType.autoSpans`). For each compiler there is the list of what it leaves in
these stretches – the value computed, or the old one where the flag of the field is
set – and the theorem that its outcome is the layer with these stretches overwritten
and nothing else changed. Most compilers end with a checksum, computed with a zero in its
place; `StyxWire.Fills` is what they have in common.

What a compiler computes depends on little of its surroundings: on the types, the sizes
and the bytes of the layers on the right, never on their flags, and on the left on what
`StyxWire.ArsLayer.side` keeps of a layer and on the size of the run of options
(`StyxWire.SameLeft`).
-/

namespace StyxWire

open Mem ArsLayer

/-! ### The stretches -/

/-- The stretches of the header that are automatic. -/
def ArsType.autoSpans : ArsType → List (ℕ × ℕ)
  | .ip => [(0, 1), (2, 2), (9, 1), (10, 2)]
  | .icmp => [(2, 2)]
  | .udp => [(4, 2), (6, 2)]
  | .tcp => [(12, 1), (16, 2)]
  | .igrp => [(10, 2)]
  | .ip6 => [(0, 4), (4, 2), (6, 1)]
  | .icmp6 => [(2, 2)]
  | .ipopt | .tcpopt | .igrpentry | .data => []

theorem ArsType.add_le_of_mem_autoSpans {t : ArsType} {s : ℕ × ℕ} (h : s ∈ t.autoSpans) :
    s.1 + s.2 ≤ t.hdrSize := by
  revert s
  cases t <;> decide

/-- The stretches of a type do not overlap. -/
theorem ArsType.pairwise_apart {t : ArsType} {ws : List (ℕ × List UInt8)}
    (h : ws.map span = t.autoSpans) : ws.Pairwise Apart := by
  have hp : t.autoSpans.Pairwise fun s s' => s.1 + s.2 ≤ s'.1 := by
    cases t <;> decide
  rw [← h, List.pairwise_map] at hp
  exact hp.imp Or.inl

namespace ArsLayer

/-- What a layer has in the automatic stretches. -/
def auto (l : ArsLayer) : List (ℕ × List UInt8) :=
  l.lType.autoSpans.map fun s => (s.1, l.slice s.1 s.2)

theorem length_slice {l : ArsLayer} {s : ℕ × ℕ} (h : s ∈ l.lType.autoSpans) :
    (l.slice s.1 s.2).length = s.2 := by
  have h1 := ArsType.add_le_of_mem_autoSpans h
  have h2 := l.hdr_le
  rw [slice, List.length_take, List.length_drop]
  omega

@[simp] theorem span_auto (l : ArsLayer) : l.auto.map span = l.lType.autoSpans := by
  rw [auto, List.map_map]
  conv_rhs => rw [← List.map_id l.lType.autoSpans]
  refine List.map_congr_left fun s hs => ?_
  simp [span, length_slice hs]

/-- Writing the automatic fields a layer has changes nothing. -/
theorem writeAll_auto (l : ArsLayer) : l.writeAll l.auto = l := by
  refine ext_data (by simp) (by simp) (by simp) ?_
  rw [writeAll_lData]
  refine writeAll_self fun w hw => ?_
  obtain ⟨s, hs, rfl⟩ := List.mem_map.mp hw
  rw [length_slice hs]
  rfl

/-- **The automatic fields read back as they were written.** -/
theorem auto_writeAll {l : ArsLayer} {ws : List (ℕ × List UInt8)}
    (h : ws.map span = l.lType.autoSpans) : (l.writeAll ws).auto = ws := by
  rw [auto, writeAll_lType, ← h, List.map_map]
  conv_rhs => rw [← List.map_id ws]
  refine List.map_congr_left fun w hw => ?_
  have hfit := ArsType.add_le_of_mem_autoSpans (h ▸ List.mem_map_of_mem hw)
  have hlen := l.hdr_le
  simp only [span] at hfit
  simp only [Function.comp_apply, id_eq, span, slice, writeAll_lData]
  rw [slice_writeAll (ArsType.pairwise_apart h) hw (by omega)]

/-- Only the last values written in the automatic stretches count. -/
theorem writeAll_writeAll_auto {l : ArsLayer} {ws ws' : List (ℕ × List UInt8)}
    (h : ws.map span = l.lType.autoSpans) (h' : ws'.map span = l.lType.autoSpans) :
    (l.writeAll ws).writeAll ws' = l.writeAll ws' :=
  writeAll_writeAll (h.trans h'.symm) (ArsType.pairwise_apart h)

end ArsLayer

/-! ### Writes that may not happen -/

namespace ArsLayer

theorem ite_writeHi (c : Bool) {l : ArsLayer} {i : ℕ} (v : ℕ) (h : i < l.lData.length) :
    (if c then l.writeHi i v else l) =
      l.write i [if c then setHi (l.byte i) v else l.byte i] := by
  rw [writeHi, ite_write, List.length_singleton, slice_one h]
  cases c <;> rfl

theorem ite_writeLo (c : Bool) {l : ArsLayer} {i : ℕ} (v : ℕ) (h : i < l.lData.length) :
    (if c then l.writeLo i v else l) =
      l.write i [if c then setLo (l.byte i) v else l.byte i] := by
  rw [writeLo, ite_write, List.length_singleton, slice_one h]
  cases c <;> rfl

theorem length_ite_slice (c : Bool) {l : ArsLayer} {off n : ℕ} {src : List UInt8}
    (hsrc : src.length = n) (h : off + n ≤ l.lData.length) :
    (if c then src else l.slice off n).length = n := by
  cases c
  · simp only [slice, Bool.false_eq_true, if_false, List.length_take, List.length_drop]
    omega
  · exact hsrc

theorem length_slice_of_le {l : ArsLayer} {off n : ℕ} (h : off + n ≤ l.lData.length) :
    (l.slice off n).length = n := by
  rw [slice, List.length_take, List.length_drop]
  omega

theorem hdr_le_of_lType {l : ArsLayer} {t : ArsType} (h : l.lType = t) :
    t.hdrSize ≤ l.lData.length :=
  h ▸ l.hdr_le

end ArsLayer

/-! ### The first word of an IPv6 header -/

theorem verTcFl_of_slice {l : ArsLayer} {n : ℕ} (hlen : 4 ≤ l.lData.length)
    (h : l.slice 0 4 = putBe32 n) : l.verTcFl = n % 4294967296 := by
  have h2 := @slice_two l 0 (by omega)
  have h4 := @slice_two l 2 (by omega)
  have hsplit : l.slice 0 4 = l.slice 0 2 ++ l.slice 2 2 := by
    simp only [slice, ← List.take_add, show 4 = 2 + 2 from rfl, List.drop_zero]
  rw [hsplit, h2, h4, putBe32, putBe16, putBe16] at h
  simp only [List.cons_append, List.nil_append, List.cons.injEq, and_true, Nat.zero_add,
    Nat.reduceAdd] at h
  obtain ⟨h0, h1, h2, h3⟩ := h
  rw [verTcFl, h0, h1, h2, h3, be32_putBe32]

theorem byte_eq_of_slice {l m : ArsLayer} {off n i : ℕ} (h : l.slice off n = m.slice off n)
    (hi : i < n) : l.byte (off + i) = m.byte (off + i) := by
  have key : ∀ k : ArsLayer, (k.slice off n).getD i 0 = k.byte (off + i) := by
    intro k
    rw [slice, byte, List.getD_eq_getElem?_getD, List.getD_eq_getElem?_getD,
      List.getElem?_take_of_lt hi, List.getElem?_drop]
  rw [← key, h, key]

theorem verTcFl_eq_of_slice {l m : ArsLayer} (h : l.slice 0 4 = m.slice 0 4) :
    l.verTcFl = m.verTcFl := by
  have hbyte : ∀ i < 4, l.byte i = m.byte i := by
    intro i hi
    simpa using byte_eq_of_slice h hi
  rw [verTcFl, verTcFl, hbyte 0 (by omega), hbyte 1 (by omega), hbyte 2 (by omega),
    hbyte 3 (by omega)]

theorem arsIp6Word_lt (v tc fl : ℕ) : arsIp6Word v tc fl < 4294967296 := by
  simp only [arsIp6Word]
  omega

theorem arsIp6Word_fields (v tc fl : ℕ) :
    arsIp6Word v tc fl / 2 ^ 28 % 16 = v % 16 ∧ arsIp6Word v tc fl / 2 ^ 20 % 256 = tc % 256 ∧
      arsIp6Word v tc fl % 2 ^ 20 = fl % 2 ^ 20 := by
  simp only [arsIp6Word]
  omega

/-- The fields of a word that was stored by `ARS_IP6_SET`. -/
theorem ip6Fields_of_slice {l : ArsLayer} {v tc fl : ℕ} (hlen : 4 ≤ l.lData.length)
    (h : l.slice 0 4 = putBe32 (arsIp6Word v tc fl)) :
    l.ip6Version = v % 16 ∧ l.ip6Tclass = tc % 256 ∧ l.ip6Flow = fl % 2 ^ 20 := by
  have hword := verTcFl_of_slice hlen h
  rw [Nat.mod_eq_of_lt (arsIp6Word_lt v tc fl)] at hword
  rw [ip6Version, ip6Tclass, ip6Flow, hword]
  exact arsIp6Word_fields v tc fl

/-! ### What each compiler writes -/

/-- The first byte of an IP header, whose halves are set apart. -/
def ipByte0 (ver hl : Bool) (v h : ℕ) (b : UInt8) : UInt8 :=
  let b := if ver then setHi b v else b
  if hl then setLo b h else b

/-- The automatic fields of an IP header but for the checksum, which is `ck`. -/
def ipAuto (l : ArsLayer) (after : List ArsLayer) (ck : List UInt8) : List (ℕ × List UInt8) :=
  let flags := l.lFlags
  let hl := arsDonttake flags arsTakeIpHdrlen
  [(0, [ipByte0 (arsDonttake flags arsTakeIpVersion) hl 4
      (20 / 4 + arsRelativeSize (after.takeWhile isIpopt) / 4) (l.byte 0)]),
    (2, if arsDonttake flags arsTakeIpTotlen then putBe16 (l.lSize + arsRelativeSize after)
      else l.slice 2 2),
    (9, if arsDonttake flags arsTakeIpProtocol then
        [UInt8.ofNat (if hl then arsIpProtocol (after.dropWhile isIpopt) else 4)]
      else l.slice 9 1),
    (10, ck)]

/-- The checksum of an IP header whose checksum field is zero, and of its options. -/
def ipCksum (l : ArsLayer) (after : List ArsLayer) : List UInt8 :=
  putLe16 (arsMultiCksum (l.lData.take 20 :: (after.takeWhile isIpopt).map ArsLayer.bytes))

theorem arsCompilerIp_eq {l : ArsLayer} (hl : l.lType = .ip) (after : List ArsLayer) :
    arsCompilerIp l after = l.writeAll (ipAuto l after
      (if arsDonttake l.lFlags arsTakeIpCksum then
        ipCksum (l.writeAll (ipAuto l after [0, 0])) after
      else l.slice 10 2)) := by
  have hlen : 20 ≤ l.lData.length := hdr_le_of_lType hl
  unfold arsCompilerIp
  extract_lets flags ipopts l1 l2 j l3 l4 l5
  -- the two halves of the first byte
  have h1 : l1 = l.write 0 [ipByte0 (arsDonttake flags arsTakeIpVersion) false 4 0 (l.byte 0)] :=
    ite_writeHi _ 4 (by omega)
  have h2 : l2 = l.write 0 [ipByte0 (arsDonttake flags arsTakeIpVersion)
      (arsDonttake flags arsTakeIpHdrlen) 4 (20 / 4 + arsRelativeSize ipopts / 4) (l.byte 0)] := by
    refine (ite_writeLo _ _ (by rw [h1]; simp; omega)).trans ?_
    rw [h1, byte_write_self (by omega)]
    exact write_write (Nat.le_refl _)
  -- the other fields, one stretch each
  have h3 : l3 = l2.write 2 (if arsDonttake flags arsTakeIpTotlen then
      putBe16 (l.lSize + arsRelativeSize after) else l.slice 2 2) := by
    refine (ite_write _ _ _ _).trans ?_
    rw [arsRelativeSize_cons, length_putBe16, h2, slice_write_of_apart (by simp), write_lSize]
  have htot : (if arsDonttake flags arsTakeIpTotlen then
      putBe16 (l.lSize + arsRelativeSize after) else l.slice 2 2).length = 2 :=
    length_ite_slice _ rfl (by omega)
  have hj : arsIpProtocol j = if arsDonttake flags arsTakeIpHdrlen then
      arsIpProtocol (after.dropWhile isIpopt) else 4 := by
    have hip : arsIpProtocol (l2 :: after) = 4 := by
      rw [arsIpProtocol, h2, write_lType, hl]
    rw [← hip]
    exact apply_ite arsIpProtocol _ _ _
  have h4 : l4 = l3.write 9 (if arsDonttake flags arsTakeIpProtocol then
      [UInt8.ofNat (if arsDonttake flags arsTakeIpHdrlen then
        arsIpProtocol (after.dropWhile isIpopt) else 4)] else l.slice 9 1) := by
    refine (ite_write _ _ _ _).trans ?_
    rw [hj, List.length_singleton, h3, h2, slice_write_of_apart (by omega),
      slice_write_of_apart (by simp)]
  have hproto : (if arsDonttake flags arsTakeIpProtocol then
      [UInt8.ofNat (if arsDonttake flags arsTakeIpHdrlen then
        arsIpProtocol (after.dropWhile isIpopt) else 4)] else l.slice 9 1).length = 1 :=
    length_ite_slice _ rfl (by omega)
  have hck : l4.slice 10 2 = l.slice 10 2 := by
    rw [h4, h3, h2, slice_write_of_apart (by omega), slice_write_of_apart (by omega),
      slice_write_of_apart (by simp)]
  have h5 : l5 = l.writeAll (ipAuto l after [0, 0]) := by
    rw [show l5 = l4.write 10 [0, 0] from rfl, h4, h3, h2]
    rfl
  calc (if arsDonttake flags arsTakeIpCksum then l5.write 10 (ipCksum l5 after) else l4)
      = if arsDonttake flags arsTakeIpCksum then l4.write 10 (ipCksum l5 after) else l4 := by
        rw [show l5.write 10 (ipCksum l5 after) = l4.write 10 (ipCksum l5 after) from
          write_write (Nat.le_refl _)]
    _ = l4.write 10 (if arsDonttake flags arsTakeIpCksum then ipCksum l5 after
          else l.slice 10 2) := by
        rw [ite_write, ← hck]
        rfl
    _ = _ := by
        rw [h5, h4, h3, h2]
        rfl

/-- The automatic fields of an IPv6 header. -/
def ip6Auto (l : ArsLayer) (after : List ArsLayer) : List (ℕ × List UInt8) :=
  let flags := l.lFlags
  [(0, if arsDonttake flags arsTakeIp6Version then putBe32 (arsIp6Word 6 l.ip6Tclass l.ip6Flow)
      else l.slice 0 4),
    (4, if arsDonttake flags arsTakeIp6Payloadlen then putBe16 (arsRelativeSize after)
      else l.slice 4 2),
    (6, if arsDonttake flags arsTakeIp6Nexthdr then [UInt8.ofNat (arsIp6Nexthdr after)]
      else l.slice 6 1)]

theorem arsCompilerIp6_eq {l : ArsLayer} (hl : l.lType = .ip6) (after : List ArsLayer) :
    arsCompilerIp6 l after = l.writeAll (ip6Auto l after) := by
  have hlen : 40 ≤ l.lData.length := hdr_le_of_lType hl
  unfold arsCompilerIp6
  extract_lets flags l1 l2
  have h1 : l1 = l.write 0 (if arsDonttake flags arsTakeIp6Version then
      putBe32 (arsIp6Word 6 l.ip6Tclass l.ip6Flow) else l.slice 0 4) :=
    ite_write _ _ _ _
  have hword : (if arsDonttake flags arsTakeIp6Version then
      putBe32 (arsIp6Word 6 l.ip6Tclass l.ip6Flow) else l.slice 0 4).length = 4 :=
    length_ite_slice _ rfl (by omega)
  have h2 : l2 = l1.write 4 (if arsDonttake flags arsTakeIp6Payloadlen then
      putBe16 (arsRelativeSize after) else l.slice 4 2) := by
    refine (ite_write _ _ _ _).trans ?_
    rw [length_putBe16, h1, slice_write_of_apart (by omega)]
  have hplen : (if arsDonttake flags arsTakeIp6Payloadlen then
      putBe16 (arsRelativeSize after) else l.slice 4 2).length = 2 :=
    length_ite_slice _ rfl (by omega)
  refine (ite_write _ _ _ _).trans ?_
  rw [List.length_singleton, h2, h1, slice_write_of_apart (by omega),
    slice_write_of_apart (by omega)]
  rfl

/-- The automatic fields of a TCP header but for the checksum, which is `ck`. -/
def tcpAuto (l : ArsLayer) (after : List ArsLayer) (ck : List UInt8) : List (ℕ × List UInt8) :=
  [(12, [if arsDonttake l.lFlags arsTakeTcpHdrlen then
      setHi (l.byte 12) (20 / 4 + arsRelativeSize (after.takeWhile fun m => m.lType = .tcpopt) / 4)
      else l.byte 12]),
    (16, ck)]

theorem arsCompilerTcp_eq {before : List ArsLayer} {l : ArsLayer} (hl : l.lType = .tcp)
    (after : List ArsLayer) :
    arsCompilerTcp before l after =
      if arsDonttake l.lFlags arsTakeTcpCksum then
        (arsUdptcpCksum before (l.writeAll (tcpAuto l after [0, 0])) after).map fun sum =>
          l.writeAll (tcpAuto l after (putLe16 sum))
      else .ok (l.writeAll (tcpAuto l after (l.slice 16 2))) := by
  have hlen : 20 ≤ l.lData.length := hdr_le_of_lType hl
  unfold arsCompilerTcp
  extract_lets flags tcpopts l1 l2
  have h1 : l1 = l.write 12 [if arsDonttake flags arsTakeTcpHdrlen then
      setHi (l.byte 12) (20 / 4 + arsRelativeSize tcpopts / 4) else l.byte 12] :=
    ite_writeHi _ _ (by omega)
  have h2 : ∀ sum, l2.write 16 (putLe16 sum) = l.writeAll (tcpAuto l after (putLe16 sum)) := by
    intro sum
    refine Eq.trans (b := l1.write 16 (putLe16 sum)) (write_write (Nat.le_refl _)) ?_
    rw [h1]
    rfl
  have h3 : l1 = l.writeAll (tcpAuto l after (l.slice 16 2)) := by
    refine (write_slice l1 16 2).symm.trans ?_
    rw [h1, slice_write_of_apart (by simp)]
    rfl
  have h4 : l2 = l.writeAll (tcpAuto l after [0, 0]) := by
    rw [show l2 = l1.write 16 [0, 0] from rfl, h1]
    rfl
  simp only [h2]
  rw [h4, h3]

/-- The automatic fields of a UDP header but for the checksum, which is `ck`. -/
def udpAuto (l : ArsLayer) (after : List ArsLayer) (ck : List UInt8) : List (ℕ × List UInt8) :=
  [(4, if arsDonttake l.lFlags arsTakeUdpLen then putBe16 (l.lSize + arsRelativeSize after)
      else l.slice 4 2),
    (6, ck)]

theorem arsCompilerUdp_eq {before : List ArsLayer} {l : ArsLayer} (hl : l.lType = .udp)
    (after : List ArsLayer) :
    arsCompilerUdp before l after =
      if arsDonttake l.lFlags arsTakeUdpCksum then
        (arsUdptcpCksum before (l.writeAll (udpAuto l after [0, 0])) after).map fun sum =>
          l.writeAll (udpAuto l after (putLe16 sum))
      else .ok (l.writeAll (udpAuto l after (l.slice 6 2))) := by
  have hlen : 8 ≤ l.lData.length := hdr_le_of_lType hl
  unfold arsCompilerUdp
  extract_lets flags l1 l2
  have h1 : l1 = l.write 4 (if arsDonttake flags arsTakeUdpLen then
      putBe16 (l.lSize + arsRelativeSize after) else l.slice 4 2) := by
    refine (ite_write _ _ _ _).trans ?_
    rw [arsRelativeSize_cons, length_putBe16]
  have hulen : (if arsDonttake flags arsTakeUdpLen then
      putBe16 (l.lSize + arsRelativeSize after) else l.slice 4 2).length = 2 :=
    length_ite_slice _ rfl (by omega)
  have h2 : ∀ sum, l2.write 6 (putLe16 sum) = l.writeAll (udpAuto l after (putLe16 sum)) := by
    intro sum
    refine Eq.trans (b := l1.write 6 (putLe16 sum)) (write_write (Nat.le_refl _)) ?_
    rw [h1]
    rfl
  have h3 : l1 = l.writeAll (udpAuto l after (l.slice 6 2)) := by
    refine (write_slice l1 6 2).symm.trans ?_
    rw [h1, slice_write_of_apart (by omega)]
    rfl
  have h4 : l2 = l.writeAll (udpAuto l after [0, 0]) := by
    rw [show l2 = l1.write 6 [0, 0] from rfl, h1]
    rfl
  simp only [h2]
  rw [h4, h3]

theorem arsCompilerIcmp6_eq (before : List ArsLayer) (l : ArsLayer) (after : List ArsLayer) :
    arsCompilerIcmp6 before l after =
      if arsDonttake l.lFlags arsTakeIcmp6Cksum then
        (arsIp6PseudoCksum before (l.writeAll [(2, [0, 0])] :: after) arsIpprotoIcmpv6).map
          fun sum => l.writeAll [(2, putLe16 sum)]
      else .ok (l.writeAll [(2, l.slice 2 2)]) := by
  have h : ∀ sum, (l.write 2 [0, 0]).write 2 (putLe16 sum) = l.write 2 (putLe16 sum) := fun sum =>
    write_write (Nat.le_refl _)
  simp only [arsCompilerIcmp6, ArsLayer.writeAll_cons, ArsLayer.writeAll_nil, write_slice, h]

theorem arsCompilerCksum_eq (take off : ℕ) (l : ArsLayer) (after : List ArsLayer) :
    arsCompilerCksum take off l after = l.writeAll [(off,
      if arsDonttake l.lFlags take then
        putLe16 (arsMultiCksum ((l.writeAll [(off, [0, 0])] :: after).map ArsLayer.bytes))
      else l.slice off 2)] := by
  have h : ∀ sum, (l.write off [0, 0]).write off (putLe16 sum) = l.write off (putLe16 sum) :=
    fun sum => write_write (Nat.le_refl _)
  simp only [arsCompilerCksum, ArsLayer.writeAll_cons, ArsLayer.writeAll_nil, h]
  exact ite_write _ _ _ _

theorem span_ipAuto {l : ArsLayer} (hl : l.lType = .ip) (after : List ArsLayer)
    {ck : List UInt8} (hck : ck.length = 2) :
    (ipAuto l after ck).map span = l.lType.autoSpans := by
  have hlen : 20 ≤ l.lData.length := hdr_le_of_lType hl
  simp [ipAuto, span, hl, ArsType.autoSpans, hck,
    length_ite_slice _ (length_putBe16 _) (show 2 + 2 ≤ l.lData.length by omega),
    length_ite_slice _ (List.length_singleton) (show 9 + 1 ≤ l.lData.length by omega)]

theorem span_ip6Auto {l : ArsLayer} (hl : l.lType = .ip6) (after : List ArsLayer) :
    (ip6Auto l after).map span = l.lType.autoSpans := by
  have hlen : 40 ≤ l.lData.length := hdr_le_of_lType hl
  simp [ip6Auto, span, hl, ArsType.autoSpans,
    length_ite_slice _ (length_putBe32 _) (show 0 + 4 ≤ l.lData.length by omega),
    length_ite_slice _ (length_putBe16 _) (show 4 + 2 ≤ l.lData.length by omega),
    length_ite_slice _ (List.length_singleton) (show 6 + 1 ≤ l.lData.length by omega)]

theorem span_tcpAuto {l : ArsLayer} (hl : l.lType = .tcp) (after : List ArsLayer)
    {ck : List UInt8} (hck : ck.length = 2) :
    (tcpAuto l after ck).map span = l.lType.autoSpans := by
  simp [tcpAuto, span, hl, ArsType.autoSpans, hck]

theorem span_udpAuto {l : ArsLayer} (hl : l.lType = .udp) (after : List ArsLayer)
    {ck : List UInt8} (hck : ck.length = 2) :
    (udpAuto l after ck).map span = l.lType.autoSpans := by
  have hlen : 8 ≤ l.lData.length := hdr_le_of_lType hl
  simp [udpAuto, span, hl, ArsType.autoSpans, hck,
    length_ite_slice _ (length_putBe16 _) (show 4 + 2 ≤ l.lData.length by omega)]

/-! ### The compilers that compute a checksum -/

/-- The compiler `F` of the layers of type `t` fills in the fields `A`; the last of them,
at `off`, is the checksum: `sumOf` of the layer with a zero there, or the old value
where the flag `take` is set. -/
structure Fills (t : ArsType) (take off : ℕ) (A : ArsLayer → List UInt8 → List (ℕ × List UInt8))
    (sumOf : ArsLayer → Except ArsErr ℕ) (F : ArsLayer → Except ArsErr ArsLayer) : Prop where
  /-- The compiler, read off its fields. -/
  eq : ∀ l, l.lType = t → F l =
    if arsDonttake l.lFlags take then
      (sumOf (l.writeAll (A l [0, 0]))).map fun sum => l.writeAll (A l (putLe16 sum))
    else .ok (l.writeAll (A l (l.slice off 2)))
  /-- The fields are the automatic ones of the type. -/
  span_eq : ∀ l ck, l.lType = t → ck.length = 2 → (A l ck).map span = l.lType.autoSpans
  /-- The checksum is the last of them. -/
  last : ∀ l, ∃ ws, ∀ ck, A l ck = ws ++ [(off, ck)]
  /-- The checksum is in the header. -/
  fit : off + 2 ≤ t.hdrSize

namespace Fills

variable {t : ArsType} {take off : ℕ} {A : ArsLayer → List UInt8 → List (ℕ × List UInt8)}
  {sumOf : ArsLayer → Except ArsErr ℕ} {F : ArsLayer → Except ArsErr ArsLayer}

theorem mem (h : Fills t take off A sumOf F) (l : ArsLayer) (ck : List UInt8) :
    (off, ck) ∈ A l ck := by
  obtain ⟨ws, hws⟩ := h.last l
  rw [hws]
  exact List.mem_append_right ws List.mem_cons_self

theorem length_slice (h : Fills t take off A sumOf F) {l : ArsLayer} (hl : l.lType = t) :
    (l.slice off 2).length = 2 :=
  length_slice_of_le (h.fit.trans (hdr_le_of_lType hl))

/-- The checksum reads back as it was written. -/
theorem slice_writeAll (h : Fills t take off A sumOf F) {l : ArsLayer} (hl : l.lType = t)
    {ck : List UInt8} (hck : ck.length = 2) : (l.writeAll (A l ck)).slice off 2 = ck := by
  have hfit := h.fit.trans (hdr_le_of_lType hl)
  have hread := Mem.slice_writeAll (d := l.lData) (ArsType.pairwise_apart (h.span_eq l ck hl hck))
    (h.mem l ck) (by simpa [hck] using hfit)
  rwa [hck, ← ArsLayer.writeAll_lData] at hread

/-- The outcome of the compiler is the layer with some checksum in it. -/
theorem exists_eq (h : Fills t take off A sumOf F) {l l' : ArsLayer} (hl : l.lType = t)
    (hok : F l = .ok l') : ∃ ck : List UInt8, ck.length = 2 ∧ l' = l.writeAll (A l ck) := by
  rw [h.eq l hl] at hok
  split_ifs at hok
  · obtain ⟨sum, -, rfl⟩ := map_eq_ok.mp hok
    exact ⟨_, rfl, rfl⟩
  · exact ⟨_, h.length_slice hl, (Except.ok.inj hok).symm⟩

end Fills

theorem fills_ip (after : List ArsLayer) :
    Fills .ip arsTakeIpCksum 10 (ipAuto · after)
      (fun l => .ok (arsMultiCksum
        (l.lData.take 20 :: (after.takeWhile isIpopt).map ArsLayer.bytes)))
      (fun l => .ok (arsCompilerIp l after)) where
  eq := by
    intro l hl
    rw [arsCompilerIp_eq hl]
    split_ifs <;> rfl
  span_eq := fun _ _ hl hck => span_ipAuto hl after hck
  last := fun l => ⟨(ipAuto l after []).dropLast, fun _ => rfl⟩
  fit := by decide

theorem fills_tcp (before after : List ArsLayer) :
    Fills .tcp arsTakeTcpCksum 16 (tcpAuto · after) (arsUdptcpCksum before · after)
      (arsCompilerTcp before · after) where
  eq := fun _ hl => arsCompilerTcp_eq hl after
  span_eq := fun _ _ hl hck => span_tcpAuto hl after hck
  last := fun l => ⟨(tcpAuto l after []).dropLast, fun _ => rfl⟩
  fit := by decide

theorem fills_udp (before after : List ArsLayer) :
    Fills .udp arsTakeUdpCksum 6 (udpAuto · after) (arsUdptcpCksum before · after)
      (arsCompilerUdp before · after) where
  eq := fun _ hl => arsCompilerUdp_eq hl after
  span_eq := fun _ _ hl hck => span_udpAuto hl after hck
  last := fun l => ⟨(udpAuto l after []).dropLast, fun _ => rfl⟩
  fit := by decide

theorem fills_icmp6 (before after : List ArsLayer) :
    Fills .icmp6 arsTakeIcmp6Cksum 2 (fun _ ck => [(2, ck)])
      (fun l => arsIp6PseudoCksum before (l :: after) arsIpprotoIcmpv6)
      (arsCompilerIcmp6 before · after) where
  eq := fun l _ => arsCompilerIcmp6_eq before l after
  span_eq := fun _ _ hl hck => by simp [span, hl, hck, ArsType.autoSpans]
  last := fun _ => ⟨[], fun _ => rfl⟩
  fit := by decide

theorem fills_cksum {t : ArsType} (take off : ℕ) (ht : t.autoSpans = [(off, 2)])
    (hfit : off + 2 ≤ t.hdrSize) (after : List ArsLayer) :
    Fills t take off (fun _ ck => [(off, ck)])
      (fun l => .ok (arsMultiCksum ((l :: after).map ArsLayer.bytes)))
      (fun l => .ok (arsCompilerCksum take off l after)) where
  eq := by
    intro l hl
    rw [arsCompilerCksum_eq]
    split_ifs <;> rfl
  span_eq := fun _ _ hl hck => by simp [span, hl, hck, ht]
  last := fun _ => ⟨[], fun _ => rfl⟩
  fit := hfit

theorem fills_icmp (after : List ArsLayer) :
    Fills .icmp arsTakeIcmpCksum 2 (fun _ ck => [(2, ck)])
      (fun l => .ok (arsMultiCksum ((l :: after).map ArsLayer.bytes)))
      (fun l => .ok (arsCompilerIcmp l after)) :=
  fills_cksum _ _ rfl (by decide) after

theorem fills_igrp (after : List ArsLayer) :
    Fills .igrp arsTakeIgrpCksum 10 (fun _ ck => [(10, ck)])
      (fun l => .ok (arsMultiCksum ((l :: after).map ArsLayer.bytes)))
      (fun l => .ok (arsCompilerIgrp l after)) :=
  fills_cksum _ _ rfl (by decide) after

theorem arsIpProtocol_dropWhile (after : List ArsLayer) :
    arsIpProtocol (after.dropWhile isIpopt) = arsIpProtocol after := by
  induction after with
  | nil => rfl
  | cons l ls ih =>
    by_cases hl : l.lType = .ipopt
    · rw [List.dropWhile_cons_of_pos (by simp [isIpopt, hl]), ih, arsIpProtocol, hl]
    · rw [List.dropWhile_cons_of_neg (by simp [isIpopt, hl])]

/-- The fields of a compiled IP header. -/
theorem ip_fields {l : ArsLayer} (hl : l.lType = .ip) (hflags : l.lFlags = 0)
    (after : List ArsLayer) {c : ArsLayer} (hc : c = arsCompilerIp l after) :
    c.byte 0 = ipByte0 true true 4
        (20 / 4 + arsRelativeSize (after.takeWhile isIpopt) / 4) (l.byte 0) ∧
      c.slice 2 2 = putBe16 (l.lSize + arsRelativeSize after) ∧
      c.slice 9 1 = [UInt8.ofNat (arsIpProtocol after)] := by
  obtain ⟨ck, hck, hok⟩ := (fills_ip after).exists_eq hl rfl
  have hauto := auto_writeAll (span_ipAuto hl after hck)
  rw [← hok, ← hc] at hauto
  have htype : c.lType = .ip := by rw [hc, hok, writeAll_lType, hl]
  have hlen : 20 ≤ c.lData.length := hdr_le_of_lType htype
  simp only [auto, htype, ArsType.autoSpans, List.map_cons, List.map_nil, ipAuto, hflags,
    arsDonttake_zero, if_true, List.cons.injEq, Prod.mk.injEq, true_and, and_true,
    slice_one (show 0 < c.lData.length by omega), arsIpProtocol_dropWhile] at hauto
  exact ⟨hauto.1, hauto.2.1, hauto.2.2.1⟩

/-- The data offset of a TCP header that is filled in. -/
theorem tcpAuto_byte {l : ArsLayer} (hl : l.lType = .tcp) (hflags : l.lFlags = 0)
    (after : List ArsLayer) {ck : List UInt8} (hck : ck.length = 2) :
    (l.writeAll (tcpAuto l after ck)).byte 12 = setHi (l.byte 12)
      (20 / 4 + arsRelativeSize (after.takeWhile fun m => m.lType = .tcpopt) / 4) := by
  have hauto := auto_writeAll (span_tcpAuto hl after hck)
  have htype : (l.writeAll (tcpAuto l after ck)).lType = .tcp := by rw [writeAll_lType, hl]
  have hlen : 20 ≤ (l.writeAll (tcpAuto l after ck)).lData.length := hdr_le_of_lType htype
  generalize l.writeAll (tcpAuto l after ck) = c at hauto htype hlen
  simp only [auto, htype, ArsType.autoSpans, List.map_cons, List.map_nil, tcpAuto, hflags,
    arsDonttake_zero, if_true, List.cons.injEq, Prod.mk.injEq, true_and, and_true,
    slice_one (show 12 < c.lData.length by omega)] at hauto
  exact hauto.1

/-! ### What a compiler reads of the layers on its right -/

/-- A layer without its flags. -/
def ArsLayer.strip (l : ArsLayer) : ArsLayer := l.setFlags 0

@[simp] theorem ArsLayer.strip_lType (l : ArsLayer) : l.strip.lType = l.lType := rfl

@[simp] theorem ArsLayer.strip_lSize (l : ArsLayer) : l.strip.lSize = l.lSize := rfl

@[simp] theorem ArsLayer.strip_lData (l : ArsLayer) : l.strip.lData = l.lData := rfl

@[simp] theorem ArsLayer.strip_bytes (l : ArsLayer) : l.strip.bytes = l.bytes := rfl

@[simp] theorem arsRelativeSize_map_strip (ls : List ArsLayer) :
    arsRelativeSize (ls.map strip) = arsRelativeSize ls := by
  simp [arsRelativeSize, Function.comp_def]

@[simp] theorem map_bytes_map_strip (ls : List ArsLayer) :
    (ls.map strip).map ArsLayer.bytes = ls.map ArsLayer.bytes := by
  simp [Function.comp_def]

theorem takeWhile_map_strip (p : ArsLayer → Bool) (hp : ∀ l, p l.strip = p l)
    (ls : List ArsLayer) : (ls.map strip).takeWhile p = (ls.takeWhile p).map strip := by
  rw [List.takeWhile_map]
  congr 2
  funext l
  exact hp l

theorem dropWhile_map_strip (p : ArsLayer → Bool) (hp : ∀ l, p l.strip = p l)
    (ls : List ArsLayer) : (ls.map strip).dropWhile p = (ls.dropWhile p).map strip := by
  rw [List.dropWhile_map]
  congr 2
  funext l
  exact hp l

theorem arsIpProtocol_map_strip (ls : List ArsLayer) :
    arsIpProtocol (ls.map strip) = arsIpProtocol ls := by
  induction ls with
  | nil => rfl
  | cons l ls ih => simp only [List.map_cons, arsIpProtocol, strip_lType, ih]

theorem arsIp6Nexthdr_map_strip (ls : List ArsLayer) :
    arsIp6Nexthdr (ls.map strip) = arsIp6Nexthdr ls := by
  cases ls <;> rfl

theorem arsUdptcpCksum_map_strip (before : List ArsLayer) (l : ArsLayer) (ls : List ArsLayer) :
    arsUdptcpCksum before l (ls.map strip) = arsUdptcpCksum before l ls := by
  simp only [arsUdptcpCksum, arsIp6PseudoCksum, arsRelativeSize_cons, arsRelativeSize_map_strip,
    List.map_cons, map_bytes_map_strip]

/-- **The flags of the layers on the right are not read.** -/
theorem arsLiCompiler_map_strip (before : List ArsLayer) (l : ArsLayer) (ls : List ArsLayer) :
    arsLiCompiler before l (ls.map strip) = arsLiCompiler before l ls := by
  have hip : (ls.map strip).takeWhile isIpopt = (ls.takeWhile isIpopt).map strip :=
    takeWhile_map_strip _ (fun _ => rfl) ls
  have hdrop : (ls.map strip).dropWhile isIpopt = (ls.dropWhile isIpopt).map strip :=
    dropWhile_map_strip _ (fun _ => rfl) ls
  have htcp : ((ls.map strip).takeWhile fun m => m.lType = .tcpopt) =
      (ls.takeWhile fun m => m.lType = .tcpopt).map strip :=
    takeWhile_map_strip _ (fun _ => rfl) ls
  have hhead : (ls.map strip).head?.map ArsLayer.lType = ls.head?.map ArsLayer.lType := by
    cases ls <;> rfl
  unfold arsLiCompiler
  cases l.lType with
  | ip =>
    have hproto : ∀ m, arsIpProtocol (m :: ls.map strip) = arsIpProtocol (m :: ls) := by
      intro m
      simp only [arsIpProtocol, arsIpProtocol_map_strip]
    simp only [arsCompilerIp, hip, hdrop, arsRelativeSize_cons, arsRelativeSize_map_strip,
      map_bytes_map_strip, apply_ite arsIpProtocol, arsIpProtocol_map_strip, hproto]
  | ipopt => simp only [arsCompilerIpopt, arsCompilerOpt, hhead]
  | tcpopt => simp only [arsCompilerTcpopt, arsCompilerOpt, hhead]
  | icmp => simp only [arsCompilerIcmp, arsCompilerCksum, List.map_cons, map_bytes_map_strip]
  | igrp => simp only [arsCompilerIgrp, arsCompilerCksum, List.map_cons, map_bytes_map_strip]
  | udp =>
    simp only [arsCompilerUdp, arsUdptcpCksum_map_strip, arsRelativeSize_cons,
      arsRelativeSize_map_strip]
  | tcp =>
    simp only [arsCompilerTcp, arsUdptcpCksum_map_strip, htcp, arsRelativeSize_map_strip]
  | ip6 => simp only [arsCompilerIp6, arsIp6Nexthdr_map_strip, arsRelativeSize_map_strip]
  | icmp6 =>
    simp only [arsCompilerIcmp6, arsIp6PseudoCksum, arsRelativeSize_cons,
      arsRelativeSize_map_strip, List.map_cons, map_bytes_map_strip]
  | igrpentry => rfl
  | data => rfl

/-! ### What a compiler reads of the layers on its left -/

/-- What the compilers on the right of a layer read of it: its type, and the addresses
that go in a pseudo header. -/
def ArsLayer.side (l : ArsLayer) : ArsType × List UInt8 :=
  (l.lType, match l.lType with
    | .ip => l.slice 12 8
    | .ip6 => l.slice 8 32
    | _ => [])

/-- The size of the run of options a layer of that type would continue. -/
def runSize (type : ArsType) (before : List ArsLayer) : ℕ :=
  arsRelativeSize (before.takeWhile fun m => m.lType = type)

/-- Two lists of layers that a layer of type `type` cannot tell apart on its left. -/
structure SameLeft (type : Option ArsType) (before before' : List ArsLayer) : Prop where
  /-- The sides are the same. -/
  side : before.map ArsLayer.side = before'.map ArsLayer.side
  /-- If the layer is an option, so is the size of its run. -/
  run : ∀ t, type = some t → t = .ipopt ∨ t = .tcpopt → runSize t before = runSize t before'

theorem arsIp6PseudoCksum_congr {before before' : List ArsLayer}
    (h : before.map ArsLayer.side = before'.map ArsLayer.side) (ls : List ArsLayer) (n : ℕ) :
    arsIp6PseudoCksum before ls n = arsIp6PseudoCksum before' ls n := by
  cases before with
  | nil =>
    obtain rfl : before' = [] := by simpa using h.symm
    rfl
  | cons b bs =>
    obtain ⟨b', bs', rfl, hb, -⟩ := List.map_eq_cons_iff.mp h.symm
    simp only [ArsLayer.side, Prod.mk.injEq] at hb
    obtain ⟨htype, haddr⟩ := hb
    simp only [arsIp6PseudoCksum, htype]
    by_cases h6 : b.lType = .ip6
    · rw [htype, h6] at haddr
      simp only [ArsLayer.slice] at haddr
      simp only [arsIp6Pseudohdr, haddr]
    · rw [if_neg h6, if_neg h6]

theorem arsUdptcpCksum_congr {before before' : List ArsLayer}
    (h : before.map ArsLayer.side = before'.map ArsLayer.side) (l : ArsLayer)
    (ls : List ArsLayer) : arsUdptcpCksum before l ls = arsUdptcpCksum before' l ls := by
  have hdrop : (before.dropWhile isIpopt).map ArsLayer.side =
      (before'.dropWhile isIpopt).map ArsLayer.side := by
    have hp : isIpopt = (fun s : ArsType × List UInt8 => decide (s.1 = .ipopt)) ∘ ArsLayer.side := by
      funext m
      rfl
    rw [hp, ← List.dropWhile_map, ← List.dropWhile_map, h]
  simp only [arsUdptcpCksum, arsIp6PseudoCksum_congr h]
  cases hb : before.dropWhile isIpopt with
  | nil =>
    rw [hb] at hdrop
    rw [show before'.dropWhile isIpopt = [] by simpa using hdrop.symm]
  | cons b bs =>
    rw [hb] at hdrop
    obtain ⟨b', bs', hb', hside, -⟩ := List.map_eq_cons_iff.mp hdrop.symm
    simp only [ArsLayer.side, Prod.mk.injEq] at hside
    obtain ⟨htype, haddr⟩ := hside
    rw [hb']
    simp only [htype]
    by_cases h4 : b.lType = .ip
    · rw [htype, h4] at haddr
      simp only [ArsLayer.slice] at haddr
      simp only [arsPseudohdr, haddr]
    · rw [if_neg h4, if_neg h4]

/-- **The layers on the left are read through `StyxWire.SameLeft` only.** -/
theorem arsLiCompiler_congr {before before' : List ArsLayer} {l : ArsLayer}
    (h : SameLeft (some l.lType) before before') (ls : List ArsLayer) :
    arsLiCompiler before l ls = arsLiCompiler before' l ls := by
  have hrun := h.run l.lType rfl
  unfold arsLiCompiler
  cases ht : l.lType with
  | ipopt =>
    rw [ht] at hrun
    have h := hrun (Or.inl rfl)
    simp only [runSize] at h
    simp only [arsCompilerIpopt, arsCompilerOpt, h]
  | tcpopt =>
    rw [ht] at hrun
    have h := hrun (Or.inr rfl)
    simp only [runSize] at h
    simp only [arsCompilerTcpopt, arsCompilerOpt, h]
  | udp => simp only [arsCompilerUdp, arsUdptcpCksum_congr h.side]
  | tcp => simp only [arsCompilerTcp, arsUdptcpCksum_congr h.side]
  | icmp6 => simp only [arsCompilerIcmp6, arsIp6PseudoCksum_congr h.side]
  | ip | icmp | igrp | igrpentry | ip6 | data => rfl

/-! ### What a compiler leaves alone -/

/-- **What a compiler does to its layer**: it overwrites the automatic fields, or it pads
the last of a run of options. -/
theorem arsLiCompiler_cases {before : List ArsLayer} {l l' : ArsLayer} {after : List ArsLayer}
    (h : arsLiCompiler before l after = .ok l') :
    (∃ ws : List (ℕ × List UInt8), ws.map span = l.lType.autoSpans ∧ l' = l.writeAll ws) ∨
      ((l.lType = .ipopt ∨ l.lType = .tcpopt) ∧ after.head?.map ArsLayer.lType ≠ some l.lType ∧
        ∃ src, l' = l.grow src) := by
  have hopt : ∀ t nop, l.lType = t → t.autoSpans = [] → (t = .ipopt ∨ t = .tcpopt) →
      l' = arsCompilerOpt t nop before l after →
      (∃ ws : List (ℕ × List UInt8), ws.map span = l.lType.autoSpans ∧ l' = l.writeAll ws) ∨
        ((l.lType = .ipopt ∨ l.lType = .tcpopt) ∧
          after.head?.map ArsLayer.lType ≠ some l.lType ∧ ∃ src, l' = l.grow src) := by
    intro t nop ht hspans hcase hl'
    rw [ht]
    rw [arsCompilerOpt] at hl'
    by_cases hhead : after.head?.map ArsLayer.lType = some t
    · rw [if_pos hhead] at hl'
      exact Or.inl ⟨[], hspans.symm, hl'⟩
    · rw [if_neg hhead] at hl'
      dsimp only at hl'
      split_ifs at hl'
      · exact Or.inr ⟨hcase, hhead, _, hl'⟩
      · exact Or.inl ⟨[], hspans.symm, hl'⟩
  unfold arsLiCompiler at h
  cases ht : l.lType with
  | ip =>
    rw [ht] at h
    obtain ⟨ck, hck, rfl⟩ := (fills_ip after).exists_eq ht h
    exact Or.inl ⟨_, ht ▸ span_ipAuto ht after hck, rfl⟩
  | ipopt =>
    rw [ht] at h
    exact ht ▸ hopt .ipopt _ ht rfl (Or.inl rfl) (Except.ok.inj h).symm
  | tcpopt =>
    rw [ht] at h
    exact ht ▸ hopt .tcpopt _ ht rfl (Or.inr rfl) (Except.ok.inj h).symm
  | icmp =>
    rw [ht] at h
    obtain ⟨ck, hck, rfl⟩ := (fills_icmp after).exists_eq ht h
    exact Or.inl ⟨_, ht ▸ (fills_icmp after).span_eq l ck ht hck, rfl⟩
  | igrp =>
    rw [ht] at h
    obtain ⟨ck, hck, rfl⟩ := (fills_igrp after).exists_eq ht h
    exact Or.inl ⟨_, ht ▸ (fills_igrp after).span_eq l ck ht hck, rfl⟩
  | udp =>
    rw [ht] at h
    obtain ⟨ck, hck, rfl⟩ := (fills_udp before after).exists_eq ht h
    exact Or.inl ⟨_, ht ▸ span_udpAuto ht after hck, rfl⟩
  | tcp =>
    rw [ht] at h
    obtain ⟨ck, hck, rfl⟩ := (fills_tcp before after).exists_eq ht h
    exact Or.inl ⟨_, ht ▸ span_tcpAuto ht after hck, rfl⟩
  | ip6 =>
    rw [ht, arsCompilerIp6_eq ht] at h
    exact Or.inl ⟨_, ht ▸ span_ip6Auto ht after, (Except.ok.inj h).symm⟩
  | icmp6 =>
    rw [ht] at h
    obtain ⟨ck, hck, rfl⟩ := (fills_icmp6 before after).exists_eq ht h
    exact Or.inl ⟨_, ht ▸ (fills_icmp6 before after).span_eq l ck ht hck, rfl⟩
  | igrpentry | data =>
    rw [ht] at h
    exact Or.inl ⟨[], rfl, (Except.ok.inj h).symm⟩

theorem slice_writeAll_of_apart {l : ArsLayer} {ws : List (ℕ × List UInt8)} {off n : ℕ}
    (hws : ws.map span = l.lType.autoSpans)
    (h : ∀ s ∈ l.lType.autoSpans, s.1 + s.2 ≤ off ∨ off + n ≤ s.1) :
    (l.writeAll ws).slice off n = l.slice off n := by
  rw [slice, ArsLayer.writeAll_lData]
  refine drop_take_writeAll fun w hw => ?_
  exact h (span w) (hws ▸ List.mem_map_of_mem hw)

/-- The addresses are not automatic. -/
theorem side_writeAll {l : ArsLayer} {ws : List (ℕ × List UInt8)}
    (hws : ws.map span = l.lType.autoSpans) : (l.writeAll ws).side = l.side := by
  simp only [ArsLayer.side, ArsLayer.writeAll_lType, Prod.mk.injEq, true_and]
  cases ht : l.lType with
  | ip =>
    exact slice_writeAll_of_apart hws (by rw [ht]; decide)
  | ip6 =>
    exact slice_writeAll_of_apart hws (by rw [ht]; decide)
  | _ => rfl

section Frame

variable {before after : List ArsLayer} {l l' : ArsLayer}

theorem arsLiCompiler_lType (h : arsLiCompiler before l after = .ok l') :
    l'.lType = l.lType := by
  obtain ⟨ws, -, rfl⟩ | ⟨-, -, src, rfl⟩ := arsLiCompiler_cases h
  · simp
  · rfl

theorem arsLiCompiler_side (h : arsLiCompiler before l after = .ok l') : l'.side = l.side := by
  obtain ⟨ws, hws, rfl⟩ | ⟨hopt, -, src, rfl⟩ := arsLiCompiler_cases h
  · exact side_writeAll hws
  · rcases hopt with ht | ht <;> simp [ArsLayer.side, grow, ht]

/-- The size of a layer changes only where it is padded, at the end of a run of options. -/
theorem arsLiCompiler_lSize (h : arsLiCompiler before l after = .ok l')
    (hrun : (l.lType = .ipopt ∨ l.lType = .tcpopt) →
      after.head?.map ArsLayer.lType = some l.lType) : l'.lSize = l.lSize := by
  obtain ⟨ws, -, rfl⟩ | ⟨hopt, hend, -⟩ := arsLiCompiler_cases h
  · simp
  · exact absurd (hrun hopt) hend

end Frame

/-- The types of the layers are those of the packet. -/
theorem map_lType_arsCompileFrom {before ls out : List ArsLayer}
    (h : arsCompileFrom before ls = .ok out) :
    out.map ArsLayer.lType = ls.map ArsLayer.lType := by
  induction ls generalizing before out with
  | nil =>
    obtain rfl : [] = out := by simpa [arsCompileFrom] using h
    rfl
  | cons l ls ih =>
    obtain ⟨l', ls', hls, hl, rfl⟩ := arsCompileFrom_cons.mp h
    rw [List.map_cons, List.map_cons, ih hls, arsLiCompiler_lType hl]

theorem head?_arsCompileFrom {before ls out : List ArsLayer}
    (h : arsCompileFrom before ls = .ok out) :
    out.head?.map ArsLayer.lType = ls.head?.map ArsLayer.lType := by
  rw [← List.head?_map, ← List.head?_map, map_lType_arsCompileFrom h]

/-- **A layer that changes in its automatic fields only**, or is padded at the end of its
run, is the same layer seen from its right. -/
theorem SameLeft.cons {before before' ls out : List ArsLayer} {l l' : ArsLayer}
    (h : SameLeft (some l.lType) before before') (hside : l'.side = l.side)
    (hsize : (l.lType = .ipopt ∨ l.lType = .tcpopt) →
      out.head?.map ArsLayer.lType = some l.lType → l'.lSize = l.lSize)
    (hout : out.head?.map ArsLayer.lType = ls.head?.map ArsLayer.lType) :
    SameLeft (ls.head?.map ArsLayer.lType) (l :: before) (l' :: before') where
  side := by
    rw [List.map_cons, List.map_cons, h.side, hside]
  run := by
    intro t ht hopt
    have hl' : l'.lType = l.lType := congrArg Prod.fst hside
    by_cases heq : l.lType = t
    · subst heq
      have hrun := h.run _ rfl hopt
      simp only [runSize, List.takeWhile_cons, hl', decide_true, if_true,
        arsRelativeSize_cons] at hrun ⊢
      rw [hsize hopt (hout.trans ht)]
      omega
    · simp [runSize, hl', heq]

end StyxWire
