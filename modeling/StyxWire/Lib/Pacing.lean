import Mathlib.Algebra.Order.Group.Basic
import Mathlib.Algebra.Order.Ring.Int
import Mathlib.Data.List.Basic
import Mathlib.Tactic.Common
import Mathlib.Tactic.Linarith

/-!
# A schedule that does not drift

Something is done again and again, an interval apart: it is due at a moment `next`, and when
it was done, at `t`, it is due again at `next + interval`, however late it was, unless that
moment has passed, too, and then at once (`Pacing.next`). So what is late is caught up with,
but by one step only.

* `Pacing.Paced.le_of_count`: in the long run, it is not done more often than an interval
  allows;
* `Pacing.Paced.window`: in a window that is shorter than an interval, it is not done more
  than twice.

The moments are those of any ordered group, the last one first.
-/

namespace Pacing

variable {α : Type*} [AddCommGroup α] [LinearOrder α] [IsOrderedAddMonoid α]

/-- When it is due again. -/
def next (interval due t : α) : α := max (due + interval) t

/-- It was done at some moments, and is due at another. -/
inductive Paced (interval start : α) : List α → α → Prop
  | start : Paced interval start [] start
  | step {ts : List α} {due t : α} (h : Paced interval start ts due) (hdue : due ≤ t) :
      Paced interval start (t :: ts) (next interval due t)

variable {interval start due : α} {ts : List α}

omit [IsOrderedAddMonoid α] in
/-- It is not due before it was done. -/
theorem Paced.le_due (h : Paced interval start ts due) : ∀ t ∈ ts, t ≤ due := by
  induction h with
  | start => exact fun t ht => absurd ht List.not_mem_nil
  | step _ hdue ih =>
    rintro u hu
    rcases List.mem_cons.mp hu with rfl | hu
    · exact le_max_right _ _
    · exact (ih u hu).trans (hdue.trans (le_max_right _ _))

/-- **It does not drift.** -/
theorem Paced.start_add_le (h : Paced interval start ts due) :
    start + ts.length • interval ≤ due := by
  induction h with
  | start => simp
  | @step ts due t _ _ ih =>
    calc start + (ts.length + 1) • interval
        = start + ts.length • interval + interval := by rw [succ_nsmul, add_assoc]
      _ ≤ due + interval := by gcongr
      _ ≤ next interval due t := le_max_left _ _

/-- **The times by some moment**: after `n + 1` of them, `n` intervals have gone by. -/
theorem Paced.le_of_count (h : Paced interval start ts due) {T : α} {n : ℕ}
    (hn : ts.countP (· ≤ T) = n + 1) : start + n • interval ≤ T := by
  induction h with
  | start => exact absurd hn (Nat.succ_ne_zero n).symm
  | @step ts due t h hdue ih =>
    by_cases ht : t ≤ T
    · -- the others come before this one
      have hall : ts.countP (· ≤ T) = ts.length :=
        List.countP_eq_length.mpr fun u hu =>
          decide_eq_true ((h.le_due u hu).trans (hdue.trans ht))
      rw [List.countP_cons, if_pos (decide_eq_true ht), hall] at hn
      rw [← Nat.succ.inj hn]
      exact h.start_add_le.trans (hdue.trans ht)
    · rw [List.countP_cons, if_neg (by simpa using ht)] at hn
      exact ih hn

/-- An interval has gone by since the last but one. -/
theorem Paced.add_le_due {t : α} (h : Paced interval start (t :: ts) due) :
    ∀ u ∈ ts, u + interval ≤ due := by
  cases h with
  | step h hdue =>
    intro u hu
    exact (add_le_add_left (h.le_due u hu) interval).trans (le_max_left _ _)

/-- **A window that is shorter than the interval.** -/
theorem Paced.window (h : Paced interval start ts due) {a b : α} (hab : b - a < interval) :
    ts.countP (fun t => a ≤ t ∧ t ≤ b) ≤ 2 := by
  induction h with
  | start => exact Nat.zero_le 2
  | @step ts due t h hdue ih =>
    by_cases ht : a ≤ t ∧ t ≤ b
    · rw [List.countP_cons, if_pos (decide_eq_true ht)]
      cases ts with
      | nil => exact Nat.le_succ 1
      | cons u us =>
        -- those before the last one are an interval away
        have hnone : us.countP (fun t => a ≤ t ∧ t ≤ b) = 0 := by
          refine List.countP_eq_zero.mpr fun v hv => ?_
          have hfar : v + interval ≤ t := (h.add_le_due v hv).trans hdue
          have hlt : v < a := by
            have hb : v + interval < a + interval :=
              (hfar.trans ht.2).trans_lt (sub_lt_iff_lt_add'.mp hab)
            exact lt_of_add_lt_add_right hb
          simp [not_le.mpr hlt]
        have hcons := List.countP_cons (p := fun t => decide (a ≤ t ∧ t ≤ b)) (a := u) (l := us)
        rw [hnone] at hcons
        rw [hcons]
        split_ifs <;> omega
    · rw [List.countP_cons, if_neg (by simpa using ht)]
      exact ih

/-- **How often** it is done by some moment, in whole numbers. -/
theorem Paced.count_le {interval start due T : ℤ} {ts : List ℤ} (h : Paced interval start ts due)
    (hinterval : 0 < interval) (hT : start ≤ T) :
    (ts.countP (· ≤ T) : ℤ) ≤ 1 + (T - start) / interval := by
  have hdiv : 0 ≤ (T - start) / interval := Int.ediv_nonneg (by omega) hinterval.le
  rcases hcount : ts.countP (· ≤ T) with _ | n
  · simp only [Nat.cast_zero]
    omega
  · have hle := h.le_of_count hcount
    rw [nsmul_eq_mul] at hle
    have hn : (n : ℤ) ≤ (T - start) / interval :=
      (Int.le_ediv_iff_mul_le hinterval).mpr (by linarith)
    push_cast
    omega

end Pacing
