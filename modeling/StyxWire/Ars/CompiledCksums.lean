import StyxWire.Ars.Idempotence
import StyxWire.Ars.InternetCksum
import StyxWire.Ars.RoundTrip

/-!
# The checksums of a compiled packet

A packet may have many checksums: those of the IP headers, one in each message or segment, and
those of the datagrams that an ICMP error quotes, which are covered by the checksum of the error.
`ars_compile` computes one after the other, from the last layer to the first, and a checksum that
is computed later covers those that are there already.

All of them are right at once in the packet that is compiled (`StyxWire.compiled_checksums`): the
layers behind a header are compiled before it, and of those in front of it only the addresses are
covered, which the compiler leaves alone. It is shown from the other end. Compiling once more
changes nothing (`StyxWire.arsCompileFrom_idem`), so that each layer is what its compiler makes of
it in its place (`StyxWire.recompiled`), and its field is the checksum of the bytes that are there.
-/

namespace StyxWire

open Mem Text OnesComplement ArsLayer

/-- **A field that is what is computed makes the sum right.** Of the two zeros, the one that is
stored for a block of zeros counts as one with a word. -/
theorem onesSum_of_recomputed {t : List UInt8} {i : ℕ} (hi : i + 2 ≤ t.length) (heven : i % 2 = 0)
    (hmax : t.length ≤ 131072)
    (h : le16 (t.getD i 0) (t.getD (i + 1) 0) = arsCksum (writeAt t i [0, 0])) :
    onesSum t = 65535 := by
  refine ((recomputed_iff hi heven hmax).mpr ?_).mp (beq_iff_eq.mpr h)
  rintro ⟨hones, hright⟩
  have hsum : wordSum (writeAt t i [0, 0]) < 2 ^ 32 :=
    wordSum_lt_of_length (by rwa [length_writeAt])
  obtain ⟨-, hzero⟩ := foldCarry_spec hsum
  rw [h, arsCksum_eq, Nat.mod_eq_of_lt hsum] at hones
  have hnone : wordSum (writeAt t i [0, 0]) = 0 := hzero.mp (by omega)
  exact ((onesSum_eq_iff _).mp hright).1 hnone

/-! ### What is covered -/

/-- The types with a checksum, and the flag that says that it is given. -/
def ArsType.takeCksum : ArsType → Option ℕ
  | .ip => some arsTakeIpCksum
  | .icmp => some arsTakeIcmpCksum
  | .igrp => some arsTakeIgrpCksum
  | .udp => some arsTakeUdpCksum
  | .tcp => some arsTakeTcpCksum
  | .icmp6 => some arsTakeIcmp6Cksum
  | _ => none

/-- **The bytes that the checksum of a layer covers**, in its packet: the layers before it, the
nearest first, and those behind it. -/
inductive CksumOver (before : List ArsLayer) (l : ArsLayer) (after : List ArsLayer) :
    List UInt8 → Prop
  /-- An IP header and its options. -/
  | ip (htype : l.lType = .ip) :
      CksumOver before l after (l.bytes.take 20 ++ layersBytes (after.takeWhile isIpopt))
  /-- A message and all that it quotes. -/
  | message (htype : l.lType = .icmp ∨ l.lType = .igrp) :
      CksumOver before l after (layersBytes (l :: after))
  /-- A datagram or a segment, behind the pseudo header of the IP header it is in. -/
  | transport {v6 : Bool} {addrs : List UInt8} (htype : l.lType = .udp ∨ l.lType = .tcp)
      (hparent : Parent v6 addrs before) :
      CksumOver before l after (pseudohdr v6 addrs (arsUdptcpProtocol l)
        (layersBytes (l :: after)).length ++ layersBytes (l :: after))
  /-- A message of IPv6. -/
  | icmp6 {addrs : List UInt8} (htype : l.lType = .icmp6) (hparent : Parent true addrs before) :
      CksumOver before l after (pseudohdr true addrs arsIpprotoIcmpv6
        (layersBytes (l :: after)).length ++ layersBytes (l :: after))

section Pseudo

variable {before : List ArsLayer} {l : ArsLayer} {after : List ArsLayer} {sum : ℕ}

theorem exists_parent6 {ls : List ArsLayer} {n : ℕ} (h : arsIp6PseudoCksum before ls n = .ok sum) :
    ∃ addrs, Parent true addrs before := by
  cases before with
  | nil => cases h
  | cons ip6 before =>
    rw [arsIp6PseudoCksum] at h
    by_cases htype : ip6.lType = .ip6
    · exact ⟨_, ip6, before, rfl, htype, rfl⟩
    · rw [if_neg htype] at h
      cases h

/-- **A checksum that needs addresses finds them.** -/
theorem exists_parent (h : arsUdptcpCksum before l after = .ok sum) :
    ∃ v6 addrs, Parent v6 addrs before := by
  rw [arsUdptcpCksum] at h
  cases hdrop : before.dropWhile isIpopt with
  | nil =>
    rw [hdrop] at h
    cases h
  | cons ip rest =>
    rw [hdrop] at h
    dsimp only at h
    split_ifs at h with h6 h4
    · obtain ⟨addrs, hparent⟩ := exists_parent6 h
      exact ⟨true, addrs, hparent⟩
    · exact ⟨false, _, ip, rest, hdrop, h4, rfl⟩
    · cases h

theorem Parent.even {v6 : Bool} {addrs : List UInt8} (h : Parent v6 addrs before)
    (protocol len : ℕ) :
    (pseudohdr v6 addrs protocol len).length % 2 = 0 ∧
      (pseudohdr v6 addrs protocol len).length ≤ 40 := by
  obtain ⟨hle, heven⟩ := h.length
  cases v6 with
  | false =>
    rw [pseudohdr, if_neg Bool.false_ne_true]
    simp only [List.length_append, List.length_cons, List.length_nil, length_putBe16]
    omega
  | true =>
    rw [pseudohdr, if_pos rfl]
    simp only [List.length_append, List.length_cons, List.length_nil, length_putBe32]
    omega

end Pseudo

/-! ### The layers of a compiled packet -/

/-- **Each layer is what its compiler makes of it**, in the packet that is compiled. -/
theorem recompiled {pkt out : ArsPacket} (h : arsCompile pkt = .ok out)
    {before after : List ArsLayer} {l : ArsLayer} (hl : out.pLayer = before ++ l :: after) :
    arsLiCompiler before.reverse l after = .ok l := by
  have hnil : SameLeft (pkt.pLayer.head?.map ArsLayer.lType) [] [] := ⟨rfl, fun _ _ _ => rfl⟩
  have hagain := arsCompileFrom_idem hnil (arsCompile_eq_ok.mp h).1
  rw [hl] at hagain
  obtain ⟨ls, ms, hout, hlen, hms⟩ := arsCompileFrom_append hagain
  obtain ⟨-, rfl⟩ := List.append_inj hout hlen.symm
  obtain ⟨l', after', -, hcompile, heq⟩ := arsCompileFrom_cons.mp hms
  obtain ⟨rfl, rfl⟩ := List.cons.inj heq
  rwa [List.append_nil] at hcompile

/-- **The field of a compiled layer** is what is computed with a zero in its place. -/
theorem Fills.field_eq {t : ArsType} {take off : ℕ}
    {A : ArsLayer → List UInt8 → List (ℕ × List UInt8)} {sumOf : ArsLayer → Except ArsErr ℕ}
    {F : ArsLayer → Except ArsErr ArsLayer}
    (h : Fills t take off A sumOf F) {l : ArsLayer} (hl : l.lType = t)
    (htake : arsDonttake l.lFlags take = true) (hfix : F l = .ok l) :
    ∃ sum, sumOf (l.write off [0, 0]) = .ok sum ∧ l.slice off 2 = putLe16 sum := by
  obtain ⟨ws, hws⟩ := h.last l
  rw [h.eq l hl, if_pos htake] at hfix
  obtain ⟨sum, hsum, heq⟩ := map_eq_ok.mp hfix
  refine ⟨sum, ?_, ?_⟩
  · have hwrite : ∀ ck, l.writeAll (A l ck) = (l.writeAll ws).write off ck := by
      intro ck
      rw [hws, ArsLayer.writeAll, List.foldl_append]
      rfl
    rw [hwrite] at heq hsum
    rw [← hsum]
    congr 1
    conv_lhs => rw [← heq]
    exact write_write (Nat.le_refl 2)
  · have hread := h.slice_writeAll hl (length_putLe16 sum)
    rwa [heq] at hread

/-- What is covered, around the header with the field. -/
theorem onesSum_of_field {pre hdr post : List UInt8} {off sum : ℕ} (hpre : pre.length % 2 = 0)
    (heven : off % 2 = 0) (hoff : off + 2 ≤ hdr.length)
    (hmax : pre.length + (hdr.length + post.length) ≤ 131072)
    (hfield : [hdr.getD off 0, hdr.getD (off + 1) 0] = putLe16 sum)
    (hsum : sum = arsCksum (pre ++ (writeAt hdr off [0, 0] ++ post))) :
    onesSum (pre ++ (hdr ++ post)) = 65535 := by
  have hget : ∀ i, i < hdr.length →
      (pre ++ (hdr ++ post)).getD (pre.length + i) 0 = hdr.getD i 0 := by
    intro i hi
    rw [List.getD_append_right _ _ _ _ (by omega), Nat.add_sub_cancel_left,
      List.getD_append _ _ _ _ hi]
  have hwrite : writeAt (pre ++ (hdr ++ post)) (pre.length + off) [0, 0] =
      pre ++ (writeAt hdr off [0, 0] ++ post) := by
    rw [← writeAt_append (by simpa using hoff), writeAt_eq (by simp; omega),
      writeAt_eq (by simp; omega), List.take_length_add_append, List.append_assoc,
      List.append_assoc, List.append_assoc]
    simp only [List.length_cons, List.length_nil, Nat.add_assoc, List.drop_length_add_append]
  refine @onesSum_of_recomputed _ (pre.length + off) ?_ ?_ ?_ ?_
  · simp only [List.length_append]
    omega
  · omega
  · simpa only [List.length_append] using hmax
  · rw [hget off (by omega), Nat.add_assoc, hget (off + 1) (by omega), hwrite, ← hsum]
    rw [putLe16, List.cons.injEq, List.cons.injEq] at hfield
    have h16 := le16_putLe16 sum
    rw [Nat.mod_eq_of_lt (hsum ▸ arsCksum_lt _)] at h16
    rw [hfield.1, hfield.2.1, h16]

/-- The compiler of a layer that it leaves as it is has stored a checksum that is right. What is
covered are the first `n` bytes of the layer, what is in front of them and what is behind. -/
theorem Fills.right {t : ArsType} {take off : ℕ}
    {A : ArsLayer → List UInt8 → List (ℕ × List UInt8)} {sumOf : ArsLayer → Except ArsErr ℕ}
    {F : ArsLayer → Except ArsErr ArsLayer}
    (h : Fills t take off A sumOf F) {l : ArsLayer} (hl : l.lType = t)
    (htake : arsDonttake l.lFlags take = true) (hfix : F l = .ok l) {pre post : List UInt8} {n : ℕ}
    (hpre : pre.length % 2 = 0) (heven : off % 2 = 0) (hn : t.hdrSize ≤ n) (hsize : n ≤ l.lSize)
    (hmax : pre.length + (l.lSize + post.length) ≤ 131072)
    (hsum : ∀ sum, sumOf (l.write off [0, 0]) = .ok sum →
      sum = arsCksum (pre ++ (writeAt (l.lData.take n) off [0, 0] ++ post))) :
    onesSum (pre ++ (l.lData.take n ++ post)) = 65535 := by
  obtain ⟨sum, hok, hfield⟩ := h.field_eq hl htake hfix
  have hfit := h.fit
  have hdata := l.size_le
  have hlen : (l.lData.take n).length = n := List.length_take_of_le (by omega)
  have hget : ∀ i, i < n → (l.lData.take n).getD i 0 = l.byte i := by
    intro i hi
    rw [ArsLayer.byte, List.getD_eq_getElem?_getD, List.getElem?_take_of_lt hi,
      List.getD_eq_getElem?_getD]
  refine onesSum_of_field hpre heven (by omega) (by omega) ?_ (hsum sum hok)
  rw [hget off (by omega), hget (off + 1) (by omega), ← hfield, slice_two (by omega)]

theorem layersBytes_write (l : ArsLayer) (off : ℕ) (src : List UInt8) (ls : List ArsLayer) :
    layersBytes (l.write off src :: ls) = writeAt l.bytes off src ++ layersBytes ls := by
  rw [layersBytes_cons, write_bytes]

theorem length_write_layersBytes (l : ArsLayer) (off : ℕ) (src : List UInt8) (ls : List ArsLayer) :
    (layersBytes (l.write off src :: ls)).length = (layersBytes (l :: ls)).length := by
  rw [length_layersBytes, length_layersBytes]
  rfl

/-! ### All checksums at once -/

section Right

variable {before after : List ArsLayer} {l : ArsLayer}

/-- A message, whose checksum has no pseudo header. -/
theorem right_message {t : ArsType} {take off : ℕ} {F : ArsLayer → Except ArsErr ArsLayer}
    (h : Fills t take off (fun _ ck => [(off, ck)])
      (fun l => .ok (arsMultiCksum ((l :: after).map ArsLayer.bytes))) F)
    (hl : l.lType = t) (htake : arsDonttake l.lFlags take = true) (hfix : F l = .ok l)
    (heven : off % 2 = 0) (hwhole : t.hdrSize ≤ l.lSize)
    (hmax : l.lSize + (layersBytes after).length + 40 ≤ 131072) :
    onesSum (layersBytes (l :: after)) = 65535 := by
  change onesSum ([] ++ (l.lData.take l.lSize ++ layersBytes after)) = 65535
  have hlen : ([] : List UInt8).length + (l.lSize + (layersBytes after).length) ≤ 131072 := by
    rw [List.length_nil]
    omega
  refine h.right hl htake hfix rfl heven hwhole (Nat.le_refl _) hlen fun sum hsum => ?_
  obtain rfl := Except.ok.inj hsum
  rw [arsMultiCksum_eq]
  exact congrArg arsCksum (layersBytes_write l off [0, 0] after)

/-- An IP header and its options. -/
theorem right_ip (hl : l.lType = .ip) (htake : arsDonttake l.lFlags arsTakeIpCksum = true)
    (hfix : arsCompilerIp l after = l) (hwhole : 20 ≤ l.lSize)
    (hmax : l.lSize + (layersBytes after).length + 40 ≤ 131072) :
    onesSum (l.bytes.take 20 ++ layersBytes (after.takeWhile isIpopt)) = 65535 := by
  have htwenty : l.bytes.take 20 = l.lData.take 20 := by
    rw [ArsLayer.bytes, List.take_take, Nat.min_eq_left hwhole]
  have hopts : (layersBytes (after.takeWhile isIpopt)).length ≤ (layersBytes after).length := by
    conv_rhs => rw [← List.takeWhile_append_dropWhile (p := isIpopt) (l := after)]
    rw [layersBytes, layersBytes, List.map_append, List.flatten_append, List.length_append]
    omega
  have hlen : ([] : List UInt8).length +
      (l.lSize + (layersBytes (after.takeWhile isIpopt)).length) ≤ 131072 := by
    rw [List.length_nil]
    omega
  rw [htwenty]
  refine (fills_ip after).right hl htake (congrArg Except.ok hfix) rfl rfl (Nat.le_refl 20) hwhole
    hlen fun sum hsum => ?_
  obtain rfl := Except.ok.inj hsum
  rw [arsMultiCksum_eq, List.flatten_cons, ← layersBytes, write_lData, take_writeAt]
  rfl

/-- A message of IPv6. -/
theorem right_icmp6 (hl : l.lType = .icmp6) (htake : arsDonttake l.lFlags arsTakeIcmp6Cksum = true)
    (hfix : arsCompilerIcmp6 before l after = .ok l) (hwhole : ArsType.icmp6.hdrSize ≤ l.lSize)
    (hmax : l.lSize + (layersBytes after).length + 40 ≤ 131072) :
    ∃ addrs, Parent true addrs before ∧ onesSum (pseudohdr true addrs arsIpprotoIcmpv6
      (layersBytes (l :: after)).length ++ layersBytes (l :: after)) = 65535 := by
  obtain ⟨sum, hok, -⟩ := (fills_icmp6 before after).field_eq hl htake hfix
  obtain ⟨addrs, hparent⟩ := exists_parent6 hok
  obtain ⟨hpre, hle⟩ := hparent.even arsIpprotoIcmpv6 (layersBytes (l :: after)).length
  refine ⟨addrs, hparent, ?_⟩
  change onesSum (_ ++ (l.lData.take l.lSize ++ layersBytes after)) = 65535
  refine (fills_icmp6 before after).right hl htake hfix hpre rfl hwhole (Nat.le_refl _) (by omega)
    fun sum hsum => ?_
  rw [arsIp6PseudoCksum_of_parent hparent, pseudoCksum, length_write_layersBytes] at hsum
  rw [← Except.ok.inj hsum]
  exact congrArg (fun s => arsCksum (_ ++ s)) (layersBytes_write l 2 [0, 0] after)

/-- A datagram or a segment. -/
theorem right_transport {t : ArsType} {take off : ℕ}
    {A : ArsLayer → List UInt8 → List (ℕ × List UInt8)} {F : ArsLayer → Except ArsErr ArsLayer}
    (h : Fills t take off A (arsUdptcpCksum before · after) F) (hl : l.lType = t)
    (htake : arsDonttake l.lFlags take = true) (hfix : F l = .ok l) (heven : off % 2 = 0)
    (hwhole : t.hdrSize ≤ l.lSize) (hmax : l.lSize + (layersBytes after).length + 40 ≤ 131072) :
    ∃ v6 addrs, Parent v6 addrs before ∧ onesSum (pseudohdr v6 addrs (arsUdptcpProtocol l)
      (layersBytes (l :: after)).length ++ layersBytes (l :: after)) = 65535 := by
  obtain ⟨sum, hok, -⟩ := h.field_eq hl htake hfix
  obtain ⟨v6, addrs, hparent⟩ := exists_parent hok
  obtain ⟨hpre, hle⟩ := hparent.even (arsUdptcpProtocol l) (layersBytes (l :: after)).length
  refine ⟨v6, addrs, hparent, ?_⟩
  change onesSum (_ ++ (l.lData.take l.lSize ++ layersBytes after)) = 65535
  refine h.right hl htake hfix hpre heven hwhole (Nat.le_refl _) (by omega) fun sum hsum => ?_
  rw [arsUdptcpCksum_of_parent hparent, pseudoCksum, length_write_layersBytes] at hsum
  rw [← Except.ok.inj hsum]
  exact congrArg (fun s => arsCksum (_ ++ s)) (layersBytes_write l off [0, 0] after)

end Right

/-- **Every checksum of a compiled packet is right**: the sum of what it covers is the zero that
has all its bits set. The header is a whole one whose checksum is not given, and the packet is not
so long that a sum of its words, with those of a pseudo header, has more than 32 bits. -/
theorem compiled_checksums {pkt out : ArsPacket} (h : arsCompile pkt = .ok out)
    (hfit : arsRelativeSize out.pLayer + 40 ≤ 131072) {before after : List ArsLayer} {l : ArsLayer}
    (hl : out.pLayer = before ++ l :: after) {take : ℕ} (htake : l.lType.takeCksum = some take)
    (hdont : arsDonttake l.lFlags take = true) (hwhole : l.lType.hdrSize ≤ l.lSize) :
    ∃ s, CksumOver before.reverse l after s ∧ onesSum s = 65535 := by
  have hfix := recompiled h hl
  have hmax : l.lSize + (layersBytes after).length + 40 ≤ 131072 := by
    rw [hl, arsRelativeSize, List.map_append, List.sum_append, List.map_cons, List.sum_cons] at hfit
    rw [length_layersBytes, arsRelativeSize]
    omega
  rw [arsLiCompiler] at hfix
  cases ht : l.lType with
  | ip =>
    rw [ht] at htake hwhole hfix
    obtain rfl := Option.some.inj htake
    exact ⟨_, .ip ht, right_ip ht hdont (Except.ok.inj hfix) hwhole hmax⟩
  | icmp =>
    rw [ht] at htake hwhole hfix
    obtain rfl := Option.some.inj htake
    exact ⟨_, .message (Or.inl ht), right_message (fills_icmp after) ht hdont hfix rfl hwhole hmax⟩
  | igrp =>
    rw [ht] at htake hwhole hfix
    obtain rfl := Option.some.inj htake
    exact ⟨_, .message (Or.inr ht), right_message (fills_igrp after) ht hdont hfix rfl hwhole hmax⟩
  | udp =>
    rw [ht] at htake hwhole hfix
    obtain rfl := Option.some.inj htake
    obtain ⟨v6, addrs, hparent, hsum⟩ :=
      right_transport (fills_udp before.reverse after) ht hdont hfix rfl hwhole hmax
    exact ⟨_, .transport (Or.inl ht) hparent, hsum⟩
  | tcp =>
    rw [ht] at htake hwhole hfix
    obtain rfl := Option.some.inj htake
    obtain ⟨v6, addrs, hparent, hsum⟩ :=
      right_transport (fills_tcp before.reverse after) ht hdont hfix rfl hwhole hmax
    exact ⟨_, .transport (Or.inr ht) hparent, hsum⟩
  | icmp6 =>
    rw [ht] at htake hwhole hfix
    obtain rfl := Option.some.inj htake
    obtain ⟨addrs, hparent, hsum⟩ := right_icmp6 ht hdont hfix hwhole hmax
    exact ⟨_, .icmp6 ht hparent, hsum⟩
  | ipopt | tcpopt | igrpentry | ip6 | data =>
    rw [ht] at htake
    exact absurd htake (by simp [ArsType.takeCksum])

/-- An error that quotes a datagram: its checksum covers the two that are quoted. -/
theorem compiled_checksums_quoted :
    ∃ pkt out ip icmp ip' udp s s', arsDBuild numericLibc arsInit (lit "ip+icmp+ip+udp") = .ok pkt ∧
      arsCompile pkt = .ok out ∧ out.pLayer = [ip, icmp, ip', udp] ∧
      CksumOver [ip] icmp [ip', udp] s ∧ onesSum s = 65535 ∧
      CksumOver [ip', icmp, ip] udp [] s' ∧ onesSum s' = 65535 := by
  obtain ⟨pkt, out, ip, icmp, ip', udp, hbuild, hcomp, hl, hicmp, hudp, hdont, hdont', hsize,
      hsize', hfit⟩ :
      ∃ pkt out ip icmp ip' udp, arsDBuild numericLibc arsInit (lit "ip+icmp+ip+udp") = .ok pkt ∧
        arsCompile pkt = .ok out ∧ out.pLayer = [ip, icmp, ip', udp] ∧ icmp.lType = .icmp ∧
        udp.lType = .udp ∧ arsDonttake icmp.lFlags arsTakeIcmpCksum = true ∧
        arsDonttake udp.lFlags arsTakeUdpCksum = true ∧ icmp.lSize = 8 ∧ udp.lSize = 8 ∧
        arsRelativeSize out.pLayer = 56 :=
    ⟨_, _, _, _, _, _, rfl, rfl, rfl, rfl, rfl, rfl, rfl, rfl, rfl, rfl⟩
  obtain ⟨s, hcovers, hsum⟩ := @compiled_checksums _ _ hcomp (by omega) [ip] [ip', udp] icmp hl _
    (congrArg ArsType.takeCksum hicmp) hdont (by rw [hicmp, hsize]; decide)
  obtain ⟨s', hcovers', hsum'⟩ := @compiled_checksums _ _ hcomp (by omega) [ip, icmp, ip'] [] udp hl
    _ (congrArg ArsType.takeCksum hudp) hdont' (by rw [hudp, hsize']; decide)
  exact ⟨pkt, out, ip, icmp, ip', udp, s, s', hbuild, hcomp, hl, hcovers, hsum, hcovers', hsum'⟩

end StyxWire
