import Mathlib.Tactic.Common

/-!
# Interrupts

A program of steps, and something that may come between any two of them: a schedule says what comes
before each step and behind the last one (`Interrupts.run`). What is said of the states is put
together from the steps (`Interrupts.Meets`), and has to be kept by what comes between
(`Interrupts.Stable`).
-/

namespace Interrupts

variable {σ ε : Type*} {deliver : ε → σ → σ}

variable (deliver) in
/-- Interrupts, one after the other. -/
def deliverAll (es : List ε) (s : σ) : σ := es.foldl (fun s e => deliver e s) s

variable (deliver) in
/-- The steps, with what comes before each of them and behind the last one. -/
def run : List (σ → σ) → (ℕ → List ε) → σ → σ
  | [], sched, s => deliverAll deliver (sched 0) s
  | f :: fs, sched, s => run fs (fun n => sched (n + 1)) (f (deliverAll deliver (sched 0) s))

variable {fs gs : List (σ → σ)} {f : σ → σ} {P P' Q R : σ → Prop}

/-- Without interrupts. -/
theorem run_nothing (fs : List (σ → σ)) (s : σ) :
    run deliver fs (fun _ => []) s = fs.foldl (fun s f => f s) s := by
  induction fs generalizing s with
  | nil => rfl
  | cons f fs ih => exact ih (f s)

/-- What comes between two programs belongs to the first one. -/
theorem run_append (fs gs : List (σ → σ)) (sched : ℕ → List ε) (s : σ) :
    run deliver (fs ++ gs) sched s =
      run deliver gs (fun n => if n = 0 then [] else sched (fs.length + n))
        (run deliver fs sched s) := by
  induction fs generalizing sched s with
  | nil =>
    cases gs with
    | nil => rfl
    | cons g gs =>
      rw [List.nil_append, run, run, run]
      congr 1
      funext n
      rw [if_neg (Nat.succ_ne_zero n), List.length_nil, Nat.zero_add]
  | cons f fs ih =>
    rw [List.cons_append, run, run, ih]
    congr 1
    funext n
    rw [List.length_cons, Nat.add_right_comm]

variable (deliver) in
/-- What comes between does not change it. -/
def Stable (P : σ → Prop) : Prop := ∀ e s, P s → P (deliver e s)

theorem Stable.deliverAll (h : Stable deliver P) (es : List ε) {s : σ} (hs : P s) :
    P (deliverAll deliver es s) := by
  induction es generalizing s with
  | nil => exact hs
  | cons e es ih => exact ih (h e s hs)

variable (deliver) in
/-- From states with `P` the program leads to states with `Q`, whatever comes between. -/
def Meets (P : σ → Prop) (fs : List (σ → σ)) (Q : σ → Prop) : Prop :=
  ∀ sched s, P s → Q (run deliver fs sched s)

theorem Meets.nil (h : Stable deliver P) : Meets deliver P [] P := fun sched _ hs =>
  h.deliverAll (sched 0) hs

/-- **The first step, and the others.** -/
theorem Meets.cons (h : Stable deliver P) (hf : ∀ s, P s → P' (f s))
    (hfs : Meets deliver P' fs Q) : Meets deliver P (f :: fs) Q := fun sched _ hs =>
  hfs _ _ (hf _ (h.deliverAll (sched 0) hs))

/-- **Two programs.** -/
theorem Meets.append (hfs : Meets deliver P fs Q) (hgs : Meets deliver Q gs R) :
    Meets deliver P (fs ++ gs) R := by
  intro sched s hs
  rw [run_append]
  exact hgs _ _ (hfs sched s hs)

end Interrupts
