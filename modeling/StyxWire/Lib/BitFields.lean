import Mathlib.Data.Nat.Bits
import StyxWire.Lib.Numerals

/-!
# Bit fields of byte strings

The bits of a byte string are numbered as protocols draw them: the first one is the most
significant bit of the first byte (`Mem.bitAt`). A field is a stretch of bits, and to assign to it
is to replace these and no others (`Mem.assign`). Assignments to fields that do not overlap commute
(`Mem.assign_comm`), whether or not the fields share bytes.

What code does to bytes is an assignment if its bits say so (`Mem.eq_assign`): a write of whole
bytes is one, and so is a write of half a byte.
-/

namespace Mem

/-- A bit of a byte string. -/
def bitAt (d : List UInt8) (p : ℕ) : Bool := (d.getD (p / 8) 0).toNat.testBit (7 - p % 8)

/-- The bytes that have these bits. -/
def ofBits (n : ℕ) (b : ℕ → Bool) : List UInt8 :=
  (List.range n).map fun j => UInt8.ofNat (Nat.ofBits fun i : Fin 8 => b (8 * j + (7 - i)))

@[simp] theorem length_ofBits (n : ℕ) (b : ℕ → Bool) : (ofBits n b).length = n := by
  simp [ofBits]

theorem bitAt_ofBits {n p : ℕ} (h : p < 8 * n) (b : ℕ → Bool) : bitAt (ofBits n b) p = b p := by
  have hj : p / 8 < (ofBits n b).length := by
    rw [length_ofBits]
    omega
  have hbyte : Nat.ofBits (fun i : Fin 8 => b (8 * (p / 8) + (7 - i))) < 2 ^ 8 :=
    Nat.ofBits_lt_two_pow _
  have hp : 8 * (p / 8) + (7 - (7 - p % 8)) = p := by omega
  rw [bitAt, List.getD_eq_getElem _ _ hj]
  simp only [ofBits, List.getElem_map, List.getElem_range, UInt8.toNat_ofNat']
  rw [Nat.mod_eq_of_lt hbyte, Nat.testBit_ofBits_lt _ _ (by omega)]
  exact congrArg b hp

/-- **Byte strings with the same bits are the same.** -/
theorem ext_bits {d e : List UInt8} (hlen : d.length = e.length)
    (h : ∀ p < 8 * d.length, bitAt d p = bitAt e p) : d = e := by
  refine List.ext_getElem hlen fun j hd he => ?_
  refine UInt8.toNat_inj.mp (Nat.eq_of_testBit_eq fun i => ?_)
  by_cases hi : i < 8
  · have hp := h (8 * j + (7 - i)) (by omega)
    have hdiv : (8 * j + (7 - i)) / 8 = j := by omega
    have hmod : 7 - (8 * j + (7 - i)) % 8 = i := by omega
    rwa [bitAt, bitAt, hdiv, hmod, List.getD_eq_getElem _ _ hd, List.getD_eq_getElem _ _ he] at hp
  · have hlt : ∀ b : UInt8, b.toNat.testBit i = false := fun b =>
      Nat.testBit_lt_two_pow (lt_of_lt_of_le b.toNat_lt (Nat.pow_le_pow_right (by decide)
        (Nat.le_of_not_lt hi)))
    rw [hlt, hlt]

/-! ### Assignments -/

/-- **Replace the `w` bits from `s` on.** -/
def assign (s w : ℕ) (c : ℕ → Bool) (d : List UInt8) : List UInt8 :=
  ofBits d.length fun p => if s ≤ p ∧ p < s + w then c p else bitAt d p

section Assign

variable {s w s' w' p off v : ℕ} {c c' : ℕ → Bool} {d d' src : List UInt8}

@[simp] theorem length_assign : (assign s w c d).length = d.length := length_ofBits _ _

theorem bitAt_assign (h : p < 8 * d.length) :
    bitAt (assign s w c d) p = if s ≤ p ∧ p < s + w then c p else bitAt d p :=
  bitAt_ofBits h _

/-- What changes a byte string in these bits only is an assignment. -/
theorem eq_assign (hlen : d'.length = d.length) (h : ∀ p < 8 * d.length,
    bitAt d' p = if s ≤ p ∧ p < s + w then c p else bitAt d p) : d' = assign s w c d := by
  refine ext_bits (by rw [hlen, length_assign]) fun p hp => ?_
  rw [hlen] at hp
  rw [h p hp, bitAt_assign hp]

/-- **Assignments to fields that do not overlap commute.** -/
theorem assign_comm (h : s + w ≤ s' ∨ s' + w' ≤ s) :
    assign s w c (assign s' w' c' d) = assign s' w' c' (assign s w c d) := by
  refine (eq_assign (by simp) fun p hp => ?_).symm
  rw [length_assign] at hp
  rw [bitAt_assign (by simpa using hp), bitAt_assign hp, bitAt_assign hp]
  by_cases hin : s ≤ p ∧ p < s + w
  · have hout : ¬(s' ≤ p ∧ p < s' + w') := by omega
    rw [if_neg hout, if_pos hin, if_pos hin]
  · rw [if_neg hin, if_neg hin]

/-! ### Writes that are assignments -/

theorem bitAt_writeAt (hfit : off + src.length ≤ d.length) (p : ℕ) :
    bitAt (writeAt d off src) p =
      if 8 * off ≤ p ∧ p < 8 * off + 8 * src.length then bitAt src (p - 8 * off)
      else bitAt d p := by
  have hbyte : (writeAt d off src).getD (p / 8) 0 =
      if off ≤ p / 8 ∧ p / 8 < off + src.length then src.getD (p / 8 - off) 0
      else d.getD (p / 8) 0 := by
    simp only [List.getD_eq_getElem?_getD, getElem?_writeAt]
    by_cases hin : off ≤ p / 8 ∧ p / 8 < off + src.length
    · rw [if_pos hin, if_pos (by omega)]
    · rw [if_neg hin, if_neg (by omega)]
  rw [bitAt, hbyte]
  by_cases hin : 8 * off ≤ p ∧ p < 8 * off + 8 * src.length
  · have hdiv : (p - 8 * off) / 8 = p / 8 - off := by omega
    have hmod : (p - 8 * off) % 8 = p % 8 := by omega
    rw [if_pos hin, if_pos (by omega), bitAt, hdiv, hmod]
  · rw [if_neg hin, if_neg (by omega), bitAt]

/-- A write of whole bytes. -/
theorem writeAt_eq_assign (hfit : off + src.length ≤ d.length) :
    writeAt d off src = assign (8 * off) (8 * src.length) (fun p => bitAt src (p - 8 * off)) d :=
  eq_assign (length_writeAt d off src) fun p _ => bitAt_writeAt hfit p

/-- The bits of a number. -/
theorem bitAt_beBytes {n : ℕ} (hp : p < 8 * n) :
    bitAt (beBytes n v) p = v.testBit (8 * n - 1 - p) := by
  induction n generalizing p with
  | zero => omega
  | succ n ih =>
    by_cases hfirst : p < 8
    · have hdiv : p / 8 = 0 := by omega
      have hexp : 256 ^ n = 2 ^ (8 * n) := by
        rw [Nat.pow_mul]
      rw [bitAt, hdiv, beBytes, List.getD_cons_zero, UInt8.toNat_ofNat', Nat.testBit_mod_two_pow,
        hexp, Nat.testBit_div_two_pow, decide_eq_true (by omega), Bool.true_and]
      congr 1
      omega
    · have hdiv : p / 8 = (p - 8) / 8 + 1 := by omega
      have hmod : p % 8 = (p - 8) % 8 := by omega
      have hrest := @ih (p - 8) (by omega)
      rw [bitAt] at hrest
      rw [bitAt, hdiv, hmod, beBytes, List.getD_cons_succ, hrest]
      congr 1
      omega

theorem testBit_setLo (b : UInt8) (i : ℕ) :
    (setLo b v).toNat.testBit i = if i < 4 then v.testBit i else b.toNat.testBit i := by
  have hlt : v % 2 ^ 4 < 2 ^ 4 := Nat.mod_lt _ (by decide)
  have hnum : (setLo b v).toNat = 2 ^ 4 * (b.toNat / 2 ^ 4) + v % 2 ^ 4 := by
    rw [toNat_setLo]
    omega
  rw [hnum, Nat.testBit_two_pow_mul_add _ hlt, Nat.testBit_mod_two_pow, Nat.testBit_div_two_pow]
  by_cases hi : i < 4
  · rw [if_pos hi, if_pos hi, decide_eq_true hi, Bool.true_and]
  · rw [if_neg hi, if_neg hi, Nat.sub_add_cancel (by omega)]

theorem testBit_setHi (b : UInt8) {i : ℕ} (hi : i < 8) :
    (setHi b v).toNat.testBit i = if i < 4 then b.toNat.testBit i else v.testBit (i - 4) := by
  have hlt : b.toNat % 2 ^ 4 < 2 ^ 4 := Nat.mod_lt _ (by decide)
  have hnum : (setHi b v).toNat = 2 ^ 4 * (v % 2 ^ 4) + b.toNat % 2 ^ 4 := by
    rw [toNat_setHi]
    omega
  rw [hnum, Nat.testBit_two_pow_mul_add _ hlt, Nat.testBit_mod_two_pow, Nat.testBit_mod_two_pow]
  by_cases hlow : i < 4
  · rw [if_pos hlow, if_pos hlow, decide_eq_true hlow, Bool.true_and]
  · rw [if_neg hlow, if_neg hlow, decide_eq_true (by omega), Bool.true_and]

theorem bitAt_singleton {b : UInt8} (hp : p < 8) : bitAt [b] p = b.toNat.testBit (7 - p) := by
  have hdiv : p / 8 = 0 := by omega
  rw [bitAt, hdiv, Nat.mod_eq_of_lt hp, List.getD_cons_zero]

/-- Two writes of half a byte. -/
theorem writeAt_setLo (hoff : off < d.length) :
    writeAt d off [setLo (d.getD off 0) v] =
      assign (8 * off + 4) 4 (fun p => v.testBit (8 * off + 7 - p)) d := by
  refine eq_assign (length_writeAt _ _ _) fun p hp => ?_
  rw [bitAt_writeAt (show off + 1 ≤ d.length from hoff), List.length_singleton]
  by_cases hin : 8 * off ≤ p ∧ p < 8 * off + 8
  · rw [if_pos (by omega), bitAt_singleton (by omega), testBit_setLo]
    by_cases hlow : 8 * off + 4 ≤ p ∧ p < 8 * off + 4 + 4
    · rw [if_pos (by omega), if_pos hlow]
      congr 1
      omega
    · have hdiv : p / 8 = off := by omega
      rw [if_neg (by omega), if_neg hlow, bitAt, hdiv]
      congr 1
      omega
  · rw [if_neg (by omega), if_neg (by omega)]

@[inherit_doc writeAt_setLo]
theorem writeAt_setHi (hoff : off < d.length) :
    writeAt d off [setHi (d.getD off 0) v] =
      assign (8 * off) 4 (fun p => v.testBit (8 * off + 3 - p)) d := by
  refine eq_assign (length_writeAt _ _ _) fun p hp => ?_
  rw [bitAt_writeAt (show off + 1 ≤ d.length from hoff), List.length_singleton]
  by_cases hin : 8 * off ≤ p ∧ p < 8 * off + 8
  · rw [if_pos (by omega), bitAt_singleton (by omega), testBit_setHi _ (by omega)]
    by_cases hhigh : 8 * off ≤ p ∧ p < 8 * off + 4
    · rw [if_neg (by omega), if_pos hhigh]
      congr 1
      omega
    · have hdiv : p / 8 = off := by omega
      rw [if_pos (by omega), if_neg hhigh, bitAt, hdiv]
      congr 1
      omega
  · rw [if_neg (by omega), if_neg (by omega)]

/-! ### Masks -/

theorem bitAt_zipWith {op : UInt8 → UInt8 → UInt8} {b : Bool → Bool → Bool}
    (hop : ∀ x y : UInt8, ∀ i, (op x y).toNat.testBit i = b (x.toNat.testBit i) (y.toNat.testBit i))
    (hlen : d.length = d'.length) (hp : p < 8 * d.length) :
    bitAt (List.zipWith op d d') p = b (bitAt d p) (bitAt d' p) := by
  have hd : p / 8 < d.length := by omega
  have hd' : p / 8 < d'.length := hlen ▸ hd
  have hz : p / 8 < (List.zipWith op d d').length := by
    rw [List.length_zipWith, ← hlen, Nat.min_self]
    exact hd
  rw [bitAt, bitAt, bitAt, List.getD_eq_getElem _ _ hz, List.getD_eq_getElem _ _ hd,
    List.getD_eq_getElem _ _ hd', List.getElem_zipWith, hop]

theorem bitAt_slice {k : ℕ} (hp : p < 8 * k) :
    bitAt ((d.drop off).take k) p = bitAt d (8 * off + p) := by
  have hdiv : (8 * off + p) / 8 = off + p / 8 := by omega
  have hmod : (8 * off + p) % 8 = p % 8 := by omega
  rw [bitAt, bitAt, hdiv, hmod, List.getD_eq_getElem?_getD, List.getD_eq_getElem?_getD,
    List.getElem?_take, if_pos (by omega), List.getElem?_drop]

end Assign

end Mem
