import Mathlib.Data.List.GetD
import Mathlib.Data.Nat.Size
import StyxWire.Lib.Limbs

/-!
# The bits of limbs

Limbs of a base that is a power of two hold the bits of the number, in order
(`Limbs.testBit_value`). So a bit is set in one limb (`Limbs.value_set_bit`), the bits are
counted from those of the highest limb (`Limbs.size_value`), and a shift by one bit carries
the highest bit of each limb into the next (`Limbs.lshift1`). A shift by some bits, fewer than a
limb has, carries as many to the limb above, or from it (`Limbs.lshift`, `Limbs.rshift`).
-/

namespace Limbs

variable {w : ℕ}

/-- **The bits of the limbs are those of the value.** -/
theorem testBit_value {xs : List ℕ} (h : Proper (2 ^ w) xs) (i : ℕ) {j : ℕ} (hj : j < w) :
    (Nat.ofDigits (2 ^ w) xs).testBit (w * i + j) = (xs.getD i 0).testBit j := by
  induction xs generalizing i with
  | nil => simp
  | cons x xs ih =>
    obtain ⟨hx, hxs⟩ := proper_cons.mp h
    rw [Nat.ofDigits_cons, Nat.add_comm x, Nat.testBit_two_pow_mul_add _ hx]
    cases i with
    | zero => simp [hj]
    | succ i =>
      rw [if_neg (by rw [Nat.mul_succ]; omega), List.getD_cons_succ, ← ih hxs i]
      congr 1
      rw [Nat.mul_succ]
      omega

/-- A limb is changed. -/
theorem value_set {b : ℕ} (xs : List ℕ) {i : ℕ} (hi : i < xs.length) (y : ℕ) :
    Nat.ofDigits b (xs.set i y) + b ^ i * xs.getD i 0 = Nat.ofDigits b xs + b ^ i * y := by
  induction xs generalizing i with
  | nil => exact absurd hi (Nat.not_lt_zero i)
  | cons x xs ih =>
    cases i with
    | zero =>
      simp only [List.set_cons_zero, Nat.ofDigits_cons, List.getD_cons_zero]
      ring
    | succ i =>
      have hrest := ih (Nat.lt_of_succ_lt_succ hi)
      simp only [List.set_cons_succ, Nat.ofDigits_cons, List.getD_cons_succ, pow_succ]
      linear_combination b * hrest

theorem proper_set {b : ℕ} {xs : List ℕ} (h : Proper b xs) {y : ℕ} (hy : y < b) (i : ℕ) :
    Proper b (xs.set i y) := by
  intro x hx
  rcases List.mem_or_eq_of_mem_set hx with hmem | rfl
  · exact h x hmem
  · exact hy

/-- A bit that is not set is added. -/
theorem lor_two_pow_eq_add {x j : ℕ} (h : x.testBit j = false) : x ||| 2 ^ j = x + 2 ^ j := by
  obtain ⟨q, low, hlow, rfl⟩ : ∃ q low, low < 2 ^ j ∧ x = 2 ^ (j + 1) * q + low := by
    -- the bits from this one on are those of an even number
    have heven : x / 2 ^ j % 2 = 0 := by
      rw [← Nat.toNat_testBit, h, Bool.toNat_false]
    obtain ⟨q, hq⟩ := Nat.dvd_of_mod_eq_zero heven
    refine ⟨q, x % 2 ^ j, Nat.mod_lt _ (Nat.two_pow_pos j), ?_⟩
    conv_lhs => rw [← Nat.div_add_mod x (2 ^ j), hq]
    ring
  have hsum : low + 2 ^ j < 2 ^ (j + 1) := by
    rw [pow_succ]
    omega
  calc 2 ^ (j + 1) * q + low ||| 2 ^ j
      = 2 ^ (j + 1) * q ||| (low ||| 2 ^ j) := by
        rw [Nat.two_pow_add_eq_or_of_lt (by omega), Nat.or_assoc]
    _ = 2 ^ (j + 1) * q + (low + 2 ^ j) := by
        rw [Nat.or_two_pow_eq_add_of_lt hlow, ← Nat.two_pow_add_eq_or_of_lt hsum]
    _ = 2 ^ (j + 1) * q + low + 2 ^ j := (Nat.add_assoc _ _ _).symm

/-- **A bit is set** in its limb. -/
theorem value_set_bit {xs : List ℕ} (h : Proper (2 ^ w) xs) {i j : ℕ} (hi : i < xs.length)
    (hj : j < w) (hbit : (Nat.ofDigits (2 ^ w) xs).testBit (w * i + j) = false) :
    Proper (2 ^ w) (xs.set i (xs.getD i 0 ||| 2 ^ j)) ∧
      Nat.ofDigits (2 ^ w) (xs.set i (xs.getD i 0 ||| 2 ^ j)) =
        Nat.ofDigits (2 ^ w) xs + 2 ^ (w * i + j) := by
  rw [testBit_value h i hj] at hbit
  have hlt : xs.getD i 0 < 2 ^ w := by
    rw [List.getD_eq_getElem _ _ hi]
    exact h _ (List.getElem_mem hi)
  refine ⟨proper_set h (Nat.or_lt_two_pow hlt (Nat.pow_lt_pow_right (by decide) hj)) i, ?_⟩
  have hset := value_set (b := 2 ^ w) xs hi (xs.getD i 0 ||| 2 ^ j)
  rw [lor_two_pow_eq_add hbit] at hset ⊢
  have hpow : 2 ^ (w * i + j) = (2 ^ w) ^ i * 2 ^ j := by rw [pow_add, pow_mul]
  rw [hpow]
  linarith

/-- **The bits are counted** from those of the highest limb. -/
theorem size_value {xs : List ℕ} (h : Proper (2 ^ w) xs) {x : ℕ} (hx : x < 2 ^ w) (hne : x ≠ 0) :
    Nat.size (Nat.ofDigits (2 ^ w) (xs ++ [x])) = w * xs.length + Nat.size x := by
  have hpow : (2 ^ w) ^ xs.length = 2 ^ (w * xs.length) := (pow_mul 2 w xs.length).symm
  rw [Nat.ofDigits_append, Nat.ofDigits_singleton, hpow]
  have hlow : Nat.ofDigits (2 ^ w) xs < 2 ^ (w * xs.length) := by
    rcases Nat.eq_zero_or_pos w with rfl | hw
    · exact absurd (Nat.lt_one_iff.mp hx) hne
    · rw [← hpow]
      exact h.value_lt (Nat.one_lt_two_pow hw.ne')
  refine Nat.le_antisymm (Nat.size_le.mpr ?_) ?_
  · have hsize : x + 1 ≤ 2 ^ Nat.size x := Nat.lt_size_self x
    calc Nat.ofDigits (2 ^ w) xs + 2 ^ (w * xs.length) * x
        < 2 ^ (w * xs.length) + 2 ^ (w * xs.length) * x := Nat.add_lt_add_right hlow _
      _ = 2 ^ (w * xs.length) * (x + 1) := by ring
      _ ≤ 2 ^ (w * xs.length) * 2 ^ Nat.size x := Nat.mul_le_mul_left _ hsize
      _ = 2 ^ (w * xs.length + Nat.size x) := (pow_add _ _ _).symm
  · obtain ⟨m, hm⟩ := Nat.exists_eq_succ_of_ne_zero (Nat.size_eq_zero.not.mpr hne)
    have hle : 2 ^ m ≤ x := Nat.lt_size.mp (by omega)
    rw [hm, Nat.add_succ, Nat.succ_le_iff, Nat.lt_size, pow_add]
    exact (Nat.mul_le_mul_left _ hle).trans (Nat.le_add_left _ _)

/-! ### Shifting by one bit -/

/-- Each limb is doubled, and takes the highest bit of the one below; the last of these bits
goes to the limb `top`. -/
def lshift1 (w : ℕ) : List ℕ → ℕ → ℕ → List ℕ
  | x :: xs, top, c => (x <<< 1 % 2 ^ w ||| c) :: lshift1 w xs top (x.testBit (w - 1)).toNat
  | [], top, c => [top ||| c]

theorem length_lshift1 (xs : List ℕ) (top c : ℕ) : (lshift1 w xs top c).length = xs.length + 1 := by
  induction xs generalizing c with
  | nil => rfl
  | cons x xs ih => exact congrArg (· + 1) (ih _)

theorem lshift1_spec (hw : 0 < w) {xs : List ℕ} (h : Proper (2 ^ w) xs) {c : ℕ} (hc : c ≤ 1) :
    Proper (2 ^ w) (lshift1 w xs 0 c) ∧
      Nat.ofDigits (2 ^ w) (lshift1 w xs 0 c) = 2 * Nat.ofDigits (2 ^ w) xs + c := by
  have htwo : 2 ^ w = 2 * 2 ^ (w - 1) := by rw [← pow_succ', Nat.sub_add_cancel hw]
  induction xs generalizing c with
  | nil =>
    have hlt : c < 2 ^ w := hc.trans_lt (Nat.one_lt_two_pow hw.ne')
    simp [lshift1, proper_cons, proper_nil, hlt]
  | cons x xs ih =>
    obtain ⟨hx, hxs⟩ := proper_cons.mp h
    obtain ⟨hproper, hvalue⟩ := ih hxs (c := (x.testBit (w - 1)).toNat) (Bool.toNat_le _)
    -- the highest bit is what is lost of the double
    have hdouble : x <<< 1 = 2 ^ w * (x.testBit (w - 1)).toNat + x <<< 1 % 2 ^ w := by
      have hdiv : x <<< 1 / 2 ^ w = (x.testBit (w - 1)).toNat := by
        have hquot : x / 2 ^ (w - 1) < 2 := Nat.div_lt_of_lt_mul (by omega)
        rw [Nat.shiftLeft_eq, pow_one, htwo, Nat.mul_comm 2, Nat.mul_div_mul_right _ _ (by decide),
          Nat.toNat_testBit, Nat.mod_eq_of_lt hquot]
      rw [← hdiv, Nat.div_add_mod]
    have hlor : x <<< 1 % 2 ^ w ||| c = x <<< 1 % 2 ^ w + c := by
      have heven : x <<< 1 % 2 ^ w = 2 ^ 1 * (x % 2 ^ (w - 1)) := by
        rw [Nat.shiftLeft_eq, pow_one, htwo, Nat.mul_comm x, Nat.mul_mod_mul_left]
      rw [heven, Nat.two_pow_add_eq_or_of_lt (by omega)]
    refine ⟨proper_cons.mpr ⟨?_, hproper⟩, ?_⟩
    · exact Nat.or_lt_two_pow (Nat.mod_lt _ (Nat.two_pow_pos w))
        (hc.trans_lt (Nat.one_lt_two_pow hw.ne'))
    · rw [lshift1, Nat.ofDigits_cons, Nat.ofDigits_cons, hlor, hvalue]
      rw [Nat.shiftLeft_eq, pow_one] at hdouble
      rw [Nat.shiftLeft_eq, pow_one]
      linarith

/-! ### Shifting by some bits -/

/-- Each limb is shifted to the left and takes what is shifted out of the one below; what is
shifted out of the last one goes to the limb `top`. -/
def lshift (w i : ℕ) : List ℕ → ℕ → ℕ → List ℕ
  | x :: xs, top, c => (x <<< i % 2 ^ w ||| c) :: lshift w i xs top (x <<< i >>> w)
  | [], top, c => [top ||| c]

theorem length_lshift {i : ℕ} (xs : List ℕ) (top c : ℕ) :
    (lshift w i xs top c).length = xs.length + 1 := by
  induction xs generalizing c with
  | nil => rfl
  | cons x xs ih => exact congrArg (· + 1) (ih _)

/-- **A shift to the left is a multiplication.** -/
theorem lshift_spec {i : ℕ} (hi : i ≤ w) {xs : List ℕ} (h : Proper (2 ^ w) xs) {c : ℕ}
    (hc : c < 2 ^ i) :
    Proper (2 ^ w) (lshift w i xs 0 c) ∧
      Nat.ofDigits (2 ^ w) (lshift w i xs 0 c) = Nat.ofDigits (2 ^ w) xs * 2 ^ i + c := by
  have hpow : 2 ^ w = 2 ^ (w - i) * 2 ^ i := by rw [← pow_add, Nat.sub_add_cancel hi]
  have hclt : c < 2 ^ w := hc.trans_le (Nat.pow_le_pow_right (by decide) hi)
  induction xs generalizing c with
  | nil => simp [lshift, proper_cons, proper_nil, hclt]
  | cons x xs ih =>
    obtain ⟨hx, hxs⟩ := proper_cons.mp h
    have hout : x <<< i >>> w < 2 ^ i := by
      rw [Nat.shiftLeft_eq, Nat.shiftRight_eq_div_pow]
      exact Nat.div_lt_of_lt_mul (Nat.mul_lt_mul_of_pos_right hx (Nat.two_pow_pos i))
    obtain ⟨hproper, hvalue⟩ := ih hxs hout (hout.trans_le (Nat.pow_le_pow_right (by decide) hi))
    -- the bits that are taken are those that are free
    have hlor : x <<< i % 2 ^ w ||| c = x <<< i % 2 ^ w + c := by
      have hmultiple : x <<< i % 2 ^ w = 2 ^ i * (x % 2 ^ (w - i)) := by
        rw [Nat.shiftLeft_eq, hpow, Nat.mul_mod_mul_right, Nat.mul_comm]
      rw [hmultiple, Nat.two_pow_add_eq_or_of_lt hc]
    refine ⟨proper_cons.mpr ⟨?_, hproper⟩, ?_⟩
    · exact Nat.or_lt_two_pow (Nat.mod_lt _ (Nat.two_pow_pos w)) hclt
    · have hdiv := Nat.div_add_mod (x * 2 ^ i) (2 ^ w)
      rw [lshift, Nat.ofDigits_cons, Nat.ofDigits_cons, hlor, hvalue, Nat.shiftLeft_eq,
        Nat.shiftRight_eq_div_pow]
      linear_combination hdiv

/-- Each limb is shifted to the right and takes what is shifted out of the one above. -/
def rshift (w i : ℕ) : List ℕ → List ℕ
  | x :: y :: xs => (x >>> i ||| y <<< (w - i) % 2 ^ w) :: rshift w i (y :: xs)
  | [x] => [x >>> i]
  | [] => []

theorem length_rshift {i : ℕ} (xs : List ℕ) : (rshift w i xs).length = xs.length := by
  induction xs with
  | nil => rfl
  | cons x xs ih =>
    cases xs with
    | nil => rfl
    | cons y xs => exact congrArg (· + 1) ih

/-- **A shift to the right is a division.** -/
theorem rshift_spec {i : ℕ} (hi : i ≤ w) {xs : List ℕ} (h : Proper (2 ^ w) xs) :
    Proper (2 ^ w) (rshift w i xs) ∧
      Nat.ofDigits (2 ^ w) (rshift w i xs) = Nat.ofDigits (2 ^ w) xs / 2 ^ i := by
  have hpow : 2 ^ w = 2 ^ i * 2 ^ (w - i) := by rw [← pow_add, Nat.add_sub_cancel' hi]
  have hle : ∀ {x : ℕ}, x < 2 ^ w → x >>> i < 2 ^ w := fun hx => by
    rw [Nat.shiftRight_eq_div_pow]
    exact (Nat.div_le_self _ _).trans_lt hx
  induction xs with
  | nil => simp [rshift, proper_nil]
  | cons x xs ih =>
    obtain ⟨hx, hxs⟩ := proper_cons.mp h
    cases xs with
    | nil =>
      refine ⟨proper_cons.mpr ⟨hle hx, proper_nil⟩, ?_⟩
      rw [rshift, Nat.ofDigits_singleton, Nat.ofDigits_singleton, Nat.shiftRight_eq_div_pow]
    | cons y xs =>
      obtain ⟨hproper, hvalue⟩ := ih hxs
      set rest := Nat.ofDigits (2 ^ w) (y :: xs) with hrest
      have hlow : rest % 2 ^ i = y % 2 ^ i := by
        rw [hrest, Nat.ofDigits_cons, hpow, Nat.mul_assoc, Nat.add_mul_mod_self_left]
      have htaken : y <<< (w - i) % 2 ^ w = 2 ^ (w - i) * (y % 2 ^ i) := by
        rw [Nat.shiftLeft_eq, hpow, Nat.mul_mod_mul_right, Nat.mul_comm]
      have hkept : x >>> i < 2 ^ (w - i) := by
        rw [Nat.shiftRight_eq_div_pow]
        exact Nat.div_lt_of_lt_mul (hpow ▸ hx)
      have hlor : x >>> i ||| y <<< (w - i) % 2 ^ w = x / 2 ^ i + 2 ^ (w - i) * (y % 2 ^ i) := by
        rw [htaken, Nat.or_comm, ← Nat.two_pow_add_eq_or_of_lt hkept, Nat.shiftRight_eq_div_pow,
          Nat.add_comm]
      refine ⟨proper_cons.mpr ⟨?_, hproper⟩, ?_⟩
      · exact Nat.or_lt_two_pow (hle hx) (Nat.mod_lt _ (Nat.two_pow_pos w))
      · have hdivides : Nat.ofDigits (2 ^ w) (x :: y :: xs) / 2 ^ i =
            x / 2 ^ i + 2 ^ (w - i) * rest := by
          rw [Nat.ofDigits_cons, ← hrest, hpow, Nat.mul_assoc,
            Nat.add_mul_div_left _ _ (Nat.two_pow_pos i)]
        rw [rshift, Nat.ofDigits_cons, hvalue, hlor, hdivides, ← hlow]
        have hdiv := Nat.div_add_mod rest (2 ^ i)
        conv_rhs => rw [← hdiv]
        rw [hpow]
        ring

end Limbs
