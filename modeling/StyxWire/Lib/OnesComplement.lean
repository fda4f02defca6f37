import Mathlib.Data.Nat.ModEq
import StyxWire.Lib.Bytes

/-!
# Sums of 16-bit words

The sum the Internet checksum is made of: the bytes of a block are paired into words,
the least significant byte first – the way a little-endian machine sees them – and an
odd byte at the end stands for a word whose other byte is zero.

The one law needed is how the sum of a block splits
(`OnesComplement.wordSum_append`): at an even position the two sums add up, whereas at
an odd one the byte left over has to be paired with the next byte first.

The sum as a standard has it (`OnesComplement.onesSum`) is over the words in the order of the
network and carries around. It has two zeros: a block that is correct sums up to the one that
has all its bits set, and so does every block with a word that is not zero whose sum is a
multiple of 65535 (`OnesComplement.onesSum_eq_iff`).
-/

namespace OnesComplement

open Mem

/-- The sum of the 16-bit words of a block. -/
def wordSum : List UInt8 → ℕ
  | a :: b :: s => le16 a b + wordSum s
  | [a] => le16 a 0
  | [] => 0

/-- **The sum splits at an even position.** -/
theorem wordSum_append {s : List UInt8} (hs : s.length % 2 = 0) (t : List UInt8) :
    wordSum (s ++ t) = wordSum s + wordSum t := by
  induction s using wordSum.induct with
  | case1 a b s ih =>
    have h : s.length % 2 = 0 := by
      simp only [List.length_cons] at hs
      omega
    simp only [List.cons_append, wordSum, ih h]
    omega
  | case2 a => simp at hs
  | case3 => simp [wordSum]

/-- The two folds that bring a 32-bit sum down to 16 bits:
`sum = (sum >> 16) + (sum & 0xffff); sum += sum >> 16`. -/
def foldCarry (sum : ℕ) : ℕ :=
  let s := sum / 65536 + sum % 65536
  (s + s / 65536) % 65536

theorem foldCarry_lt (sum : ℕ) : foldCarry sum < 65536 :=
  Nat.mod_lt _ (by omega)

/-- **The folds keep the remainder by 65535**, of a sum that has 32 bits. -/
theorem foldCarry_spec {sum : ℕ} (h : sum < 2 ^ 32) :
    foldCarry sum % 65535 = sum % 65535 ∧ (foldCarry sum = 0 ↔ sum = 0) := by
  obtain ⟨q, r, hsum, hq, hr⟩ : ∃ q r, sum = 65536 * q + r ∧ q < 65536 ∧ r < 65536 :=
    ⟨sum / 65536, sum % 65536, (Nat.div_add_mod sum 65536).symm, by omega, by omega⟩
  have hdiv : sum / 65536 = q := by omega
  have hmod : sum % 65536 = r := by omega
  rw [foldCarry, hdiv, hmod]
  rcases Nat.lt_or_ge (q + r) 65536 with hlt | hge
  · rw [Nat.div_eq_of_lt hlt, Nat.add_zero, Nat.mod_eq_of_lt hlt]
    omega
  · rw [show (q + r) / 65536 = 1 by omega, show (q + r + 1) % 65536 = q + r - 65535 by omega]
    omega

theorem wordSum_le (s : List UInt8) : 2 * wordSum s ≤ 65535 * (s.length + 1) := by
  induction s using wordSum.induct with
  | case1 a b s ih =>
    have hlt := le16_lt a b
    simp only [wordSum, List.length_cons]
    omega
  | case2 a =>
    have hlt := le16_lt a 0
    simp only [wordSum, List.length_singleton]
    omega
  | case3 => exact Nat.zero_le _

/-! ### The sum of the standard -/

/-- One's complement addition of 16-bit words: a carry is added again. -/
def onesAdd (a b : ℕ) : ℕ := if a + b < 65536 then a + b else a + b - 65535

/-- The one's complement sum of the words of a block, in the order of the network. -/
def onesSum : List UInt8 → ℕ
  | a :: b :: s => onesAdd (be16 a b) (onesSum s)
  | [a] => be16 a 0
  | [] => 0

/-- The same sum of the words as a little-endian machine has them in memory. -/
def onesSumLe : List UInt8 → ℕ
  | a :: b :: s => onesAdd (le16 a b) (onesSumLe s)
  | [a] => le16 a 0
  | [] => 0

theorem onesSumLe_spec (s : List UInt8) :
    onesSumLe s < 65536 ∧ onesSumLe s % 65535 = wordSum s % 65535 ∧
      (onesSumLe s = 0 ↔ wordSum s = 0) := by
  induction s using onesSumLe.induct with
  | case1 a b s ih =>
    obtain ⟨hlt, hmod, hzero⟩ := ih
    have hab := le16_lt a b
    simp only [onesSumLe, onesAdd, wordSum]
    split_ifs <;> omega
  | case2 a => exact ⟨le16_lt a 0, rfl, Iff.rfl⟩
  | case3 => exact ⟨by simp [onesSumLe], rfl, by simp [onesSumLe, wordSum]⟩

theorem be16_mod (a b : UInt8) : 256 * be16 a b % 65535 = le16 a b % 65535 := by
  simp only [be16, le16]
  omega

theorem be16_eq_zero (a b : UInt8) : be16 a b = 0 ↔ le16 a b = 0 := by
  simp only [be16, le16]
  omega

/-- The two sums of a block. -/
theorem onesSum_spec (s : List UInt8) :
    onesSum s < 65536 ∧ 256 * onesSum s % 65535 = wordSum s % 65535 ∧
      (onesSum s = 0 ↔ wordSum s = 0) := by
  induction s using onesSum.induct with
  | case1 a b s ih =>
    obtain ⟨hlt, hmod, hzero⟩ := ih
    have hab := be16_mod a b
    have habz := be16_eq_zero a b
    have hablt := be16_lt a b
    simp only [onesSum, onesAdd, wordSum]
    split_ifs <;> omega
  | case2 a => exact ⟨be16_lt a 0, be16_mod a 0, be16_eq_zero a 0⟩
  | case3 => exact ⟨by simp [onesSum], rfl, by simp [onesSum, wordSum]⟩

/-- **A block is correct** when the sum of its words is a multiple of 65535, and not zero. -/
theorem onesSum_eq_iff (s : List UInt8) :
    onesSum s = 65535 ↔ wordSum s ≠ 0 ∧ 65535 ∣ wordSum s := by
  obtain ⟨hlt, hmod, hzero⟩ := onesSum_spec s
  rw [Nat.dvd_iff_mod_eq_zero, ← hmod, ← Nat.dvd_iff_mod_eq_zero,
    Nat.Coprime.dvd_mul_left (by decide : Nat.Coprime 65535 256)]
  omega

end OnesComplement
