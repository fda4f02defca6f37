import Mathlib.Logic.Function.Iterate
import Mathlib.Tactic.Common

/-!
# Outputs of a machine

A machine that is called again and again: each call gives an output and changes the state. Two
states are the same to the caller if they give the same outputs forever (`Outputs.Same`). This is
proved from a relation that the calls preserve (`Outputs.same_of_simulates`), or by going on to
states later on (`Outputs.same_iff_after`), if up to there the calls went in step.

If there are outputs behind which the caller stops, those up to there are a list
(`Outputs.Reads`).
-/

namespace Outputs

variable {σ ω : Type*} {step : σ → ω × σ} {s t : σ}

variable (step) in
/-- The state after some calls. -/
def after (s : σ) (n : ℕ) : σ := (fun s => (step s).2)^[n] s

variable (step) in
/-- The output of a call. -/
def output (s : σ) (n : ℕ) : ω := (step (after step s n)).1

theorem after_succ (s : σ) (n : ℕ) : after step s (n + 1) = after step (step s).2 n :=
  Function.iterate_succ_apply _ n s

theorem output_succ (s : σ) (n : ℕ) : output step s (n + 1) = output step (step s).2 n := by
  rw [output, after_succ, output]

theorem output_add (s : σ) (k n : ℕ) :
    output step s (k + n) = output step (after step s k) n := by
  rw [output, output, after, after, after, Nat.add_comm, Function.iterate_add_apply]

variable (step) in
/-- The outputs are the same. -/
def Same (s t : σ) : Prop := ∀ n, output step s n = output step t n

theorem Same.symm (h : Same step s t) : Same step t s := fun n => (h n).symm

theorem Same.trans {u : σ} (h : Same step s t) (h' : Same step t u) : Same step s u := fun n =>
  (h n).trans (h' n)

/-- One call, and those that follow. -/
theorem same_iff : Same step s t ↔ (step s).1 = (step t).1 ∧ Same step (step s).2 (step t).2 := by
  constructor
  · refine fun h => ⟨h 0, fun n => ?_⟩
    rw [← output_succ, ← output_succ]
    exact h (n + 1)
  · rintro ⟨hfirst, hrest⟩ n
    cases n with
    | zero => exact hfirst
    | succ n =>
      rw [output_succ, output_succ]
      exact hrest n

/-- What is said of each output, of the first one and of the others. -/
theorem forall_output_iff {P : ℕ → ω → Prop} :
    (∀ n, P n (output step s n)) ↔
      P 0 (step s).1 ∧ ∀ n, P (n + 1) (output step (step s).2 n) := by
  constructor
  · refine fun h => ⟨h 0, fun n => ?_⟩
    rw [← output_succ]
    exact h (n + 1)
  · rintro ⟨hfirst, hrest⟩ n
    cases n with
    | zero => exact hfirst
    | succ n =>
      rw [output_succ]
      exact hrest n

/-- The calls from two states are the same if the first ones are. -/
theorem same_of_step_eq (h : step s = step t) : Same step s t :=
  same_iff.mpr ⟨by rw [h], by rw [h]; exact fun _ => rfl⟩

/-- **What a machine does is what another one does with a view of its state.** -/
theorem output_view {τ : Type*} {step' : τ → ω × τ} {view : σ → τ}
    (hview : ∀ s, (step s).1 = (step' (view s)).1 ∧ view (step s).2 = (step' (view s)).2) (s : σ)
    (n : ℕ) : view (after step s n) = after step' (view s) n ∧
      output step s n = output step' (view s) n := by
  have hafter : view (after step s n) = after step' (view s) n := by
    induction n generalizing s with
    | zero => rfl
    | succ n ih => rw [after_succ, after_succ, ih, (hview s).2]
  refine ⟨hafter, ?_⟩
  rw [output, output, (hview _).1, hafter]

/-- **A relation that the calls preserve** is about the same outputs. -/
theorem same_of_simulates {R : σ → σ → Prop}
    (hR : ∀ s t, R s t → (step s).1 = (step t).1 ∧ R (step s).2 (step t).2) (h : R s t) :
    Same step s t := by
  intro n
  induction n generalizing s t with
  | zero => exact (hR s t h).1
  | succ n ih =>
    rw [output_succ, output_succ]
    exact ih (hR s t h).2

/-- **Two machines in step** until one of them is gone for good: what comes later decides. -/
theorem same_iff_after {R : σ → σ → Prop} {Gone : σ → Prop}
    (hgone : ∀ s, Gone s → Gone (step s).2)
    (hR : ∀ s t, R s t → Gone (step s).2 ∨ (step s).1 = (step t).1 ∧ R (step s).2 (step t).2)
    {k : ℕ} (hk : ¬Gone (after step s k)) (h : R s t) :
    R (after step s k) (after step t k) ∧
      (Same step s t ↔ Same step (after step s k) (after step t k)) := by
  have hstays : ∀ n s, Gone s → Gone (after step s n) := by
    intro n
    induction n with
    | zero => exact fun s hs => hs
    | succ n ih =>
      intro s hs
      rw [after_succ]
      exact ih _ (hgone s hs)
  induction k generalizing s t with
  | zero => exact ⟨h, Iff.rfl⟩
  | succ k ih =>
    rw [after_succ] at hk
    obtain ⟨hout, hrel⟩ := (hR s t h).resolve_left fun hnext => hk (hstays k _ hnext)
    obtain ⟨hlater, hiff⟩ := ih hk hrel
    rw [after_succ, after_succ, ← hiff, same_iff]
    exact ⟨hlater, fun hsame => hsame.2, fun hsame => ⟨hout, hsame⟩⟩

/-! ### Outputs up to the end -/

section Reads

variable (step) in
/-- The outputs are these, all of which go on, and then one that ends. -/
def Reads (Goes Ends : ω → Prop) (s : σ) (ws : List ω) : Prop :=
  (∀ n (h : n < ws.length), output step s n = ws[n] ∧ Goes ws[n]) ∧ Ends (output step s ws.length)

variable {Goes Ends : ω → Prop} {w : ω} {ws : List ω}

theorem reads_nil : Reads step Goes Ends s [] ↔ Ends (step s).1 :=
  and_iff_right fun _ h => absurd h (Nat.not_lt_zero _)

/-- The first output, and the others. -/
theorem reads_cons :
    Reads step Goes Ends s (w :: ws) ↔
      (step s).1 = w ∧ Goes w ∧ Reads step Goes Ends (step s).2 ws := by
  have hlast : output step s (w :: ws).length = output step (step s).2 ws.length :=
    output_succ s ws.length
  rw [Reads, Reads, hlast]
  constructor
  · rintro ⟨hall, hend⟩
    obtain ⟨hout, hgoes⟩ := hall 0 (Nat.succ_pos _)
    refine ⟨hout, hgoes, fun n hn => ?_, hend⟩
    rw [← output_succ]
    exact hall (n + 1) (Nat.succ_lt_succ hn)
  · rintro ⟨hout, hgoes, hall, hend⟩
    refine ⟨fun n hn => ?_, hend⟩
    cases n with
    | zero => exact ⟨hout, hgoes⟩
    | succ n =>
      rw [output_succ]
      exact hall n (Nat.lt_of_succ_lt_succ hn)

/-- It is about the outputs only. -/
theorem reads_congr {τ : Type*} {step' : τ → ω × τ} {t : τ}
    (h : ∀ n, output step s n = output step' t n) :
    Reads step Goes Ends s ws ↔ Reads step' Goes Ends t ws := by
  simp only [Reads, h]

/-- **The outputs that go on end**, where each of them makes the state smaller. -/
theorem exists_not_goes {size : σ → ℕ} (h : ∀ s, Goes (step s).1 → size (step s).2 < size s)
    (s : σ) : ∃ n ≤ size s, ¬Goes (output step s n) := by
  induction hsize : size s using Nat.strongRecOn generalizing s with
  | _ k ih =>
    by_cases hgoes : Goes (step s).1
    · obtain ⟨n, hn, hends⟩ := ih _ (hsize ▸ h s hgoes) (step s).2 rfl
      refine ⟨n + 1, hsize ▸ Nat.lt_of_le_of_lt hn (h s hgoes), ?_⟩
      rwa [output_succ]
    · exact ⟨0, Nat.zero_le k, hgoes⟩

end Reads

end Outputs
