import Mathlib.Data.Nat.Factorial.Basic
import StyxWire.Sbn.Multiplication

/-!
# Factorials

`mpz_fac_ui` multiplies by the integers from two up to the argument, in place. Its counter has as
many bits as the argument: behind the greatest argument it starts again at zero, and is never
greater. And the factorial of zero is not computed by the loop, it is set, to zero. For every other
argument the result is what it should be (`StyxWire.Sbn.fac_exact_iff`).

How many turns the loop makes is a parameter here, and it ends if it does so for some number.
-/

namespace StyxWire.Sbn

open Nat

/-- The loop, with the counter `j`. -/
def facLoop (r : Ptr) (i : ℕ) : ℕ → ℕ → Store → Except Stop Store
  | 0, _, _ => .error .forever
  | fuel + 1, j, st =>
    if j ≤ i then do
      let st ← mpzMulUi r r j st
      facLoop r i fuel ((j + 1) % 2 ^ 32) st
    else .ok st

/-- `mpz_fac_ui`. -/
def mpzFacUi (fuel : ℕ) (r : Ptr) (i : ℕ) (st : Store) : Except Stop Store :=
  if i = 0 then mpzSetzero r st
  else do
    let st ← mpzSetUi r 1 st
    facLoop r i fuel 2 st

variable {r : Ptr} {i j : ℕ} {st : Store}

/-- **One turn.** -/
theorem facLoop_succ (hrt : r ≠ .rt) (hji : j ≤ i) (hj : j < 2 ^ 32) {v : ℕ} (h : st.Holds r v)
    (fuel : ℕ) :
    ∃ st', facLoop r i (fuel + 1) j st = facLoop r i fuel ((j + 1) % 2 ^ 32) st' ∧
      st'.Holds r (v * j : ℕ) ∧ ∀ p, p ≠ r → p ≠ .rt → st' p = st p := by
  obtain ⟨st', hmul, hv, hother⟩ := mpzMulUi_holds hrt hj h
  refine ⟨st', ?_, hv, hother⟩
  rw [facLoop, if_pos hji, hmul]
  rfl

/-- **The loop computes the factorial**, if the counter gets past the argument. -/
theorem facLoop_spec (hrt : r ≠ .rt) (hi : i + 1 < 2 ^ 32) {n : ℕ} (hn : j + n = i + 1) (hj : 0 < j)
    (h : st.Holds r ((j - 1)! : ℕ)) :
    ∃ st', facLoop r i (n + 1) j st = .ok st' ∧ st'.Holds r (i ! : ℕ) := by
  induction n generalizing j st with
  | zero =>
    have hji : j - 1 = i := by omega
    rw [hji] at h
    exact ⟨st, by rw [facLoop, if_neg (by omega)], h⟩
  | succ n ih =>
    obtain ⟨st', hturn, hv, -⟩ :=
      facLoop_succ hrt (show j ≤ i by omega) (show j < 2 ^ 32 by omega) h (n + 1)
    have hstep : (j - 1)! * j = (j + 1 - 1)! := by
      rw [Nat.add_sub_cancel, Nat.mul_comm, Nat.mul_factorial_pred hj.ne']
    rw [hstep] at hv
    rw [hturn, Nat.mod_eq_of_lt (by omega)]
    exact ih (by omega) (Nat.succ_pos j) hv

/-- **The greatest argument** is never passed. -/
theorem facLoop_forever (hrt : r ≠ .rt) (fuel : ℕ) {v : ℕ} (hj : j < 2 ^ 32) (h : st.Holds r v) :
    facLoop r (2 ^ 32 - 1) fuel j st = .error .forever := by
  induction fuel generalizing j st v with
  | zero => rfl
  | succ fuel ih =>
    obtain ⟨st', hturn, hv, -⟩ := facLoop_succ hrt (i := 2 ^ 32 - 1) (by omega) hj h fuel
    rw [hturn]
    exact ih (Nat.mod_lt _ (Nat.two_pow_pos 32)) hv

/-- `mpz_fac_ui` is as it should be: it ends, and leaves the factorial. -/
def FacExact (r : Ptr) (i : ℕ) (st : Store) : Prop :=
  ∃ fuel st', mpzFacUi fuel r i st = .ok st' ∧ (st' r).Canonical ∧ (st' r).value = i !

/-- What the loop starts with. -/
theorem mpzFacUi_start (hr : r ≠ .mpzSet) (hshape : (st r).Shape) (hi : i ≠ 0) :
    ∃ st', st'.Holds r 1 ∧ ∀ fuel, mpzFacUi fuel r i st = facLoop r i fuel 2 st' := by
  obtain ⟨k, -, hset⟩ := mpzSetUi_eq hr hshape one_lt_base
  refine ⟨_, Store.holds_of (st.set .mpzSet (Mpz.of 1 false 0)) r 1 k, fun fuel => ?_⟩
  rw [mpzFacUi, if_neg hi, hset]
  rfl

/-- **The factorial is computed** for every argument but zero and the greatest one. -/
theorem fac_exact_iff {r i : ℕ} {st : Store} (hi : i < 2 ^ 32) (hr : (st (.obj r)).Shape) :
    FacExact (.obj r) i st ↔ i ≠ 0 ∧ i ≠ 2 ^ 32 - 1 := by
  have hrt : Ptr.obj r ≠ .rt := by simp
  constructor
  · rintro ⟨fuel, st', hrun, -, hvalue⟩
    constructor
    · rintro rfl
      -- the result is set to zero
      obtain ⟨k, -, hzero⟩ := mpzSetzero_eq hr
      rw [mpzFacUi, if_pos rfl, hzero] at hrun
      cases hrun
      rw [Store.set_self, Mpz.of_value] at hvalue
      exact absurd hvalue (by decide)
    · rintro rfl
      obtain ⟨st'', hone, hstart⟩ :=
        mpzFacUi_start (by simp) hr (show 2 ^ 32 - 1 ≠ 0 by decide)
      rw [hstart, facLoop_forever hrt fuel (by decide) hone] at hrun
      nomatch hrun
  · rintro ⟨hzero, hmax⟩
    obtain ⟨st'', hone, hstart⟩ := mpzFacUi_start (by simp) hr hzero
    obtain ⟨st', hloop, hholds⟩ := facLoop_spec (n := i - 1) hrt (show i + 1 < 2 ^ 32 by omega)
      (show 2 + (i - 1) = i + 1 by omega) (Nat.succ_pos 1) hone
    refine ⟨i - 1 + 1, st', by rw [hstart, hloop], ⟨hholds.shape, fun hl => ?_⟩, hholds.value⟩
    -- the result is not zero
    obtain ⟨n, s, k, hof⟩ := hholds.shape.exists_of
    rw [hof, Mpz.of_l, digits_length_eq_zero] at hl
    have hv := hholds.value
    rw [hof, Mpz.of_value_eq_zero.mpr hl] at hv
    exact absurd hv.symm (by exact_mod_cast Nat.factorial_ne_zero i)

/-- The factorial of zero is set to zero. -/
theorem fac_inexact : ¬FacExact (.obj 0) 0 (fun _ => Mpz.init) := by
  rintro ⟨fuel, st', hrun, -, hvalue⟩
  obtain ⟨k, -, hzero⟩ := @mpzSetzero_eq (.obj 0) (fun _ => Mpz.init) Mpz.init_shape
  rw [mpzFacUi, if_pos rfl, hzero] at hrun
  cases hrun
  rw [Store.set_self, Mpz.of_value] at hvalue
  exact absurd hvalue (by decide)

/-- Five. -/
theorem fac_exact_five : FacExact (.obj 0) 5 (fun _ => Mpz.init) :=
  (fac_exact_iff (by decide) Mpz.init_shape).mpr ⟨by decide, by decide⟩

end StyxWire.Sbn
