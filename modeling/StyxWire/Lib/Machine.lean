import Mathlib.Logic.Function.Iterate
import Mathlib.Tactic.Common

/-!
# Runs of a machine that stops

A machine is a total step function together with a set of stopped states that the
step leaves alone. Running it for `n` steps is `step^[n]`, so nothing is said of
fuel: a run long enough is a run that has stopped, and any two of those end in the
same state.

* `Machine.invariant_iterate` carries an invariant along a run;
* `Machine.stopped_iterate` bounds the length of a run by a measure;
* `Machine.eq_of_reaches` identifies the outcome of a long run with a stopped state
  exhibited by hand, one step after the other (`Machine.Reaches`).
-/

namespace Machine

variable {σ : Type*} {step : σ → σ} {Stopped : σ → Prop} {Inv : σ → Prop}

/-- **An invariant of the steps is an invariant of the runs.** -/
theorem invariant_iterate (hstep : ∀ s, Inv s → Inv (step s)) {s : σ} (hs : Inv s) (n : ℕ) :
    Inv (step^[n] s) := by
  induction n generalizing s with
  | zero => exact hs
  | succ n ih => exact ih (hstep s hs)

/-- A stopped state is where every run from it ends. -/
theorem iterate_of_stopped (hfix : ∀ s, Stopped s → step s = s) {s : σ} (hs : Stopped s) (n : ℕ) :
    step^[n] s = s := by
  induction n with
  | zero => rfl
  | succ n ih => rw [Function.iterate_succ_apply, hfix s hs, ih]

/-- **A run longer than its measure has stopped.** The measure has to decrease only
along the steps that neither start nor end in a stopped state. -/
theorem stopped_iterate (hfix : ∀ s, Stopped s → step s = s) (μ : σ → ℕ)
    (hinv : ∀ s, Inv s → Inv (step s))
    (hμ : ∀ s, Inv s → ¬Stopped s → Stopped (step s) ∨ μ (step s) < μ s) {n : ℕ} :
    ∀ {s : σ}, Inv s → μ s < n → Stopped (step^[n] s) := by
  induction n with
  | zero => intro s _ h; omega
  | succ n ih =>
    intro s hs h
    rw [Function.iterate_succ_apply]
    by_cases hst : Stopped s
    · rwa [hfix s hst, iterate_of_stopped hfix hst]
    · rcases hμ s hs hst with hstop | hlt
      · rwa [iterate_of_stopped hfix hstop]
      · exact ih (hinv s hs) (by omega)

variable (step) in
/-- Some run leads from one state to another. -/
def Reaches (s t : σ) : Prop := ∃ n, step^[n] s = t

theorem Reaches.refl (s : σ) : Reaches step s s := ⟨0, rfl⟩

theorem Reaches.trans {s t u : σ} (h : Reaches step s t) (h' : Reaches step t u) :
    Reaches step s u := by
  obtain ⟨n, rfl⟩ := h
  obtain ⟨m, rfl⟩ := h'
  exact ⟨m + n, Function.iterate_add_apply step m n s⟩

/-- A step, and then a run. -/
theorem Reaches.head {s t u : σ} (h : step s = t) (h' : Reaches step t u) : Reaches step s u :=
  Reaches.trans ⟨1, h⟩ h'

/-- **All the long runs end in the same state.** -/
theorem eq_of_reaches (hfix : ∀ s, Stopped s → step s = s) {s t : σ} (hreach : Reaches step s t)
    (ht : Stopped t) {n : ℕ} (hn : Stopped (step^[n] s)) : step^[n] s = t := by
  obtain ⟨k, rfl⟩ := hreach
  rcases Nat.le_total k n with hle | hle
  · obtain ⟨d, rfl⟩ := Nat.exists_eq_add_of_le' hle
    rw [Function.iterate_add_apply, iterate_of_stopped hfix ht]
  · obtain ⟨d, rfl⟩ := Nat.exists_eq_add_of_le' hle
    rw [Function.iterate_add_apply, iterate_of_stopped hfix hn]

end Machine
