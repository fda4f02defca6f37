import StyxWire.Ars.UdpCksum

/-!
# The Internet checksum, against its standard

There are three functions for one sum: `ars_cksum`, which is given a block,
`ars_multi_cksum`, which is given it in pieces, and `cksum` (`cksum.c`), which the scanner
uses. They agree (`StyxWire.multi_cksum_eq`).

What they compute is the sum of the standard as long as it fits in the 32 bits it is added up
in. Past that the carries out of the 32 bits are lost, and the result is right only when the
number of those that are lost is a multiple of 65535 (`StyxWire.arsCksum_eq_onesSumLe_iff`).

A checksum is checked by computing it again and comparing. Of the two zeros of one's
complement, only one is ever computed, so that this is what every other host does except for a
field that has the other one (`StyxWire.check_cksum_iff`).
-/

namespace StyxWire

open Mem OnesComplement

/-! ### The checksum of the scanner -/

/-- The loop of `cksum` and what it does with an odd byte. A read outside the block is
`none`. -/
def cksumLoop : List UInt8 → ℤ → ℕ → Option ℕ
  | a :: b :: buf, nbytes, sum =>
    if 1 < nbytes then cksumLoop buf (nbytes - 2) ((sum + le16 a b) % 2 ^ 32)
    else if nbytes = 1 then some ((sum + le16 a 0) % 2 ^ 32)
    else some sum
  | [a], nbytes, sum =>
    if 1 < nbytes then none
    else if nbytes = 1 then some ((sum + le16 a 0) % 2 ^ 32)
    else some sum
  | [], nbytes, sum => if 0 < nbytes then none else some sum

/-- `cksum`, with the option `--badcksum` or without. -/
def cksum (optBadcksum : Bool) (buf : List UInt8) (nbytes : Int32) : Option ℕ :=
  (cksumLoop buf nbytes.toInt 0).map fun sum =>
    65535 - if optBadcksum then foldCarry sum ^^^ 0x5555 else foldCarry sum

theorem cksumLoop_eq (buf : List UInt8) (sum : ℕ) :
    cksumLoop buf buf.length (sum % 2 ^ 32) = some ((sum + wordSum buf) % 2 ^ 32) := by
  induction buf using wordSum.induct generalizing sum with
  | case1 a b buf ih =>
    have hlong : (1 : ℤ) < (a :: b :: buf).length := by
      simp only [List.length_cons]
      omega
    have hrest : ((a :: b :: buf).length : ℤ) - 2 = buf.length := by
      simp only [List.length_cons]
      omega
    rw [cksumLoop, if_pos hlong, hrest, Nat.mod_add_mod, ih, wordSum, Nat.add_assoc]
  | case2 a =>
    rw [cksumLoop, if_neg (by simp), if_pos (by simp), Nat.mod_add_mod, wordSum]
  | case3 => rw [cksumLoop, if_neg (by simp), wordSum, Nat.add_zero]

theorem cksum_eq {buf : List UInt8} {nbytes : Int32} (h : nbytes.toInt = buf.length) :
    cksum false buf nbytes = some (arsCksum buf) := by
  have hloop := cksumLoop_eq buf 0
  rw [Nat.zero_mod, Nat.zero_add] at hloop
  rw [cksum, h, hloop, Option.map_some, if_neg Bool.false_ne_true, arsCksum_eq]

/-- **The three checksums are one**: the sum in pieces is that of all of them together, and so
is the sum of the scanner, of a block whose size is an `int`. -/
theorem multi_cksum_eq (chunks : List (List UInt8)) :
    arsMultiCksum chunks = arsCksum chunks.flatten ∧
      ∀ nbytes : Int32, nbytes.toInt = chunks.flatten.length →
        cksum false chunks.flatten nbytes = some (arsMultiCksum chunks) := by
  have hchunks := arsMultiCksum_eq chunks
  refine ⟨hchunks, fun nbytes h => ?_⟩
  rw [hchunks, cksum_eq h]

/-- Three chunks, of which the first two are odd and the second is one byte. -/
theorem multi_cksum_eq_odd :
    arsMultiCksum [[1, 2, 3], [4], [], [5, 6]] = arsCksum [1, 2, 3, 4, 5, 6] ∧
      cksum false [1, 2, 3, 4, 5, 6] 6 = some (arsMultiCksum [[1, 2, 3], [4], [], [5, 6]]) := by
  obtain ⟨hars, hscan⟩ := multi_cksum_eq [[1, 2, 3], [4], [], [5, 6]]
  exact ⟨hars, hscan 6 rfl⟩

/-! ### The sum of the standard -/

/-- **The checksum is right** when what does not fit in 32 bits is not missed: the carries out
of them are a multiple of 65535, and the sum does not come to zero by them. -/
theorem arsCksum_eq_onesSumLe_iff (buf : List UInt8) :
    arsCksum buf = 65535 - onesSumLe buf ↔
      65535 ∣ wordSum buf / 2 ^ 32 ∧ (wordSum buf % 2 ^ 32 = 0 → wordSum buf = 0) := by
  obtain ⟨hlt, hmod, hzero⟩ := onesSumLe_spec buf
  obtain ⟨hmod', hzero'⟩ := foldCarry_spec (Nat.mod_lt (wordSum buf) (by decide : 0 < 2 ^ 32))
  have hlt' := foldCarry_lt (wordSum buf % 2 ^ 32)
  have hsplit := Nat.div_add_mod (wordSum buf) (2 ^ 32)
  rw [arsCksum_eq]
  generalize wordSum buf / 2 ^ 32 = q at hsplit ⊢
  generalize wordSum buf % 2 ^ 32 = x at *
  omega

/-- The sum of a block that has all its bits set. -/
theorem wordSum_replicate (k : ℕ) : wordSum (List.replicate (2 * k) 255) = 65535 * k := by
  induction k with
  | zero => rfl
  | succ k ih =>
    rw [Nat.mul_succ, List.replicate_succ, List.replicate_succ, wordSum, ih]
    have hword : le16 255 255 = 65535 := rfl
    omega

/-- A block of 131076 bytes that have all their bits set: there is one carry, and it is
lost. -/
theorem arsCksum_long :
    arsCksum (List.replicate 131076 255) ≠ 65535 - onesSumLe (List.replicate 131076 255) := by
  have hsum : wordSum (List.replicate 131076 255) = 65535 * 65538 := wordSum_replicate 65538
  obtain ⟨hlt, hmod, hzero⟩ := onesSumLe_spec (List.replicate 131076 255)
  have hcode : arsCksum (List.replicate 131076 255) = 1 := by
    rw [arsCksum_eq, hsum]
    rfl
  rw [hsum] at hmod hzero
  omega

/-! ### Checking a checksum -/

/-- A sum of this many bytes fits in 32 bits. -/
theorem wordSum_lt_of_length {s : List UInt8} (h : s.length ≤ 131072) : wordSum s < 2 ^ 32 := by
  have hle := wordSum_le s
  omega

/-- **Computing the checksum again** tells what the sum of the whole block tells, unless the
field is the zero that is never computed. -/
theorem recomputed_iff {t : List UInt8} {i : ℕ} (hi : i + 2 ≤ t.length) (heven : i % 2 = 0)
    (hmax : t.length ≤ 131072) :
    ((le16 (t.getD i 0) (t.getD (i + 1) 0) == arsCksum (writeAt t i [0, 0])) = true ↔
        onesSum t = 65535) ↔
      ¬(le16 (t.getD i 0) (t.getD (i + 1) 0) = 65535 ∧ onesSum (writeAt t i [0, 0]) = 65535) := by
  have hsum := wordSum_writeAt hi heven
  have hrest : wordSum (writeAt t i [0, 0]) < 2 ^ 32 :=
    wordSum_lt_of_length (by rwa [length_writeAt])
  have hfield := le16_lt (t.getD i 0) (t.getD (i + 1) 0)
  obtain ⟨hmod, hzero⟩ := foldCarry_spec hrest
  have hfold := foldCarry_lt (wordSum (writeAt t i [0, 0]))
  rw [beq_iff_eq, arsCksum_eq, Nat.mod_eq_of_lt hrest, onesSum_eq_iff, onesSum_eq_iff, hsum]
  rcases Nat.eq_zero_or_pos (wordSum (writeAt t i [0, 0])) with hnone | hpos
  · -- the field is all there is
    have hnofold := hzero.mpr hnone
    rw [hnofold, hnone]
    omega
  · have hdvd := dvd_add_iff hpos.ne' hrest hfield
    omega

/-- The size of an IPv4 header, as it says itself. -/
def ipHdrsize (ip : List UInt8) : ℕ := (ip.getD 0 0).toNat % 16 * 4

/-- **A checksum is checked as the standard has it**, in an IPv4 header and in an ICMP message,
in these cases and no others: unless the field has all its bits set and the sum of everything
else is the same zero. -/
theorem check_cksum_iff {ip icmp : List UInt8} {size : ℕ} (hihl : 20 ≤ ipHdrsize ip)
    (hip : ipHdrsize ip ≤ ip.length) (hmin : 4 ≤ size) (hmax : size ≤ 65535)
    (hicmp : size ≤ icmp.length) :
    ((arsCheckIpCksum ip = .ok true ↔ onesSum (ip.take (ipHdrsize ip)) = 65535) ↔
      ¬(le16 (ip.getD 10 0) (ip.getD 11 0) = 65535 ∧
        onesSum (writeAt (ip.take (ipHdrsize ip)) 10 [0, 0]) = 65535)) ∧
    ((arsCheckIcmpCksum icmp size = .ok true ↔ onesSum (icmp.take size) = 65535) ↔
      ¬(le16 (icmp.getD 2 0) (icmp.getD 3 0) = 65535 ∧
        onesSum (writeAt (icmp.take size) 2 [0, 0]) = 65535)) := by
  have hget : ∀ {s : List UInt8} {n i : ℕ}, i < n → (s.take n).getD i 0 = s.getD i 0 := by
    intro s n i h
    rw [List.getD_eq_getElem?_getD, List.getElem?_take_of_lt h, List.getD_eq_getElem?_getD]
  constructor
  · have h60 : ipHdrsize ip ≤ 60 := by
      have hlo := Nat.mod_lt (ip.getD 0 0).toNat (by decide : 0 < 16)
      rw [ipHdrsize]
      omega
    have hlen : (ip.take (ipHdrsize ip)).length = ipHdrsize ip := List.length_take_of_le hip
    have hiff := @recomputed_iff (ip.take (ipHdrsize ip)) 10 (by omega) rfl (by omega)
    rw [hget (by omega), hget (by omega)] at hiff
    have heq := @arsCheckIpCksum_eq ip (by rw [ipHdrsize] at hihl; omega) hip
    rw [← ipHdrsize] at heq
    rw [← hiff, heq, Except.ok.injEq]
  · have hlen : (icmp.take size).length = size := List.length_take_of_le hicmp
    have hcheck : arsCheckIcmpCksum icmp size = arsCheckIcmpCksum (icmp.take size) size := by
      rw [arsCheckIcmpCksum, arsCheckIcmpCksum, rdBytes_eq (by omega), rdBytes_eq (by omega),
        List.drop_zero, List.drop_zero, List.take_take, Nat.min_self]
    have hiff := @recomputed_iff (icmp.take size) 2 (by omega) rfl (by omega)
    have heq := @arsCheckIcmpCksum_eq (icmp.take size) (by omega)
    rw [hlen] at heq
    rw [hget (by omega), hget (by omega)] at hiff heq
    rw [← hiff, hcheck, heq, Except.ok.injEq]

/-- An IPv4 header without options, and an echo reply, both with the right checksum. -/
theorem check_cksum_iff_reply :
    arsCheckIpCksum [0x45, 0, 0, 28, 0, 0, 0, 0, 64, 1, 102, 223, 10, 0, 0, 2, 10, 0, 0, 1] =
        .ok true ∧
      arsCheckIcmpCksum [0, 0, 255, 253, 0, 1, 0, 1] 8 = .ok true := by
  obtain ⟨hip, hicmp⟩ := @check_cksum_iff
    [0x45, 0, 0, 28, 0, 0, 0, 0, 64, 1, 102, 223, 10, 0, 0, 2, 10, 0, 0, 1]
    [0, 0, 255, 253, 0, 1, 0, 1] 8 (by decide) (by decide) (by decide) (by decide) (by decide)
  exact ⟨(hip.mpr (by decide)).mpr (by decide), (hicmp.mpr (by decide)).mpr (by decide)⟩

/-- A message of four bytes that have all their bits set, and a header that ends with such a
word, are right and are refused. -/
theorem check_cksum_ones :
    (onesSum [255, 255, 255, 255] = 65535 ∧
      arsCheckIcmpCksum [255, 255, 255, 255] 4 = .ok false) ∧
    onesSum [0x45, 0, 0, 0, 0, 0, 0, 0, 0, 0, 255, 255, 0xba, 0xff, 0, 0, 0, 0, 0, 0] = 65535 ∧
      arsCheckIpCksum [0x45, 0, 0, 0, 0, 0, 0, 0, 0, 0, 255, 255, 0xba, 0xff, 0, 0, 0, 0, 0, 0] =
        .ok false := by
  refine ⟨⟨by decide, by decide⟩, by decide, by decide⟩

end StyxWire
