import Mathlib.Data.List.Basic
import Mathlib.Data.List.TakeWhile

/-!
# The maximal runs of a list

A run is a stretch of elements with some property; it is maximal if neither the element in front of
it nor the one behind it has the property (`Runs.IsRun`). `Runs.runs` lists the maximal runs with
the places where they begin, from left to right: it lists all of them and nothing else
(`Runs.mem_runs_iff`), and each one once (`Runs.pairwise_runs`).
-/

namespace Runs

variable {α : Type*} {p : α → Bool}

/-- The maximal runs, where the list begins at the place `i`. -/
def runs (p : α → Bool) : ℕ → List α → List (ℕ × List α)
  | _, [] => []
  | i, c :: s =>
    if p c then (i, c :: s.takeWhile p) :: runs p (i + 1 + (s.takeWhile p).length) (s.dropWhile p)
    else runs p (i + 1) s
termination_by _ s => s.length
decreasing_by
  · have := List.length_dropWhile_le p s
    rw [List.length_cons]
    omega
  · rw [List.length_cons]
    omega

theorem runs_nil (i : ℕ) : runs p i [] = [] := by rw [runs]

theorem runs_cons_of_pos {c : α} (h : p c = true) (i : ℕ) (s : List α) :
    runs p i (c :: s) =
      (i, c :: s.takeWhile p) :: runs p (i + 1 + (s.takeWhile p).length) (s.dropWhile p) := by
  rw [runs, if_pos h]

theorem runs_cons_of_neg {c : α} (h : p c = false) (i : ℕ) (s : List α) :
    runs p i (c :: s) = runs p (i + 1) s := by
  rw [runs, if_neg (by simp [h])]

/-- A maximal run, and the place where it begins. -/
def IsRun (p : α → Bool) (i : ℕ) (s : List α) (run : ℕ × List α) : Prop :=
  ∃ a b, s = a ++ run.2 ++ b ∧ run.1 = i + a.length ∧ run.2 ≠ [] ∧ (∀ c ∈ run.2, p c = true) ∧
    (∀ c ∈ a.getLast?, p c = false) ∧ ∀ c ∈ b.head?, p c = false

theorem head_dropWhile (s : List α) : ∀ c ∈ (s.dropWhile p).head?, p c = false := by
  induction s with
  | nil =>
    rintro c hc
    nomatch hc
  | cons x s ih =>
    by_cases hx : p x = true
    · rw [List.dropWhile_cons_of_pos hx]
      exact ih
    · rw [List.dropWhile_cons_of_neg hx]
      rintro c hc
      rw [List.head?_cons, Option.mem_some_iff] at hc
      rw [← hc]
      simpa using hx

theorem takeWhile_append_of_all {w b : List α} (hw : ∀ c ∈ w, p c = true)
    (hb : ∀ c ∈ b.head?, p c = false) : (w ++ b).takeWhile p = w := by
  rw [List.takeWhile_append_of_pos hw]
  cases b with
  | nil => rw [List.takeWhile_nil, List.append_nil]
  | cons c b => rw [List.takeWhile_cons_of_neg (by simp [hb c rfl]), List.append_nil]

theorem isRun_cons_of_neg {c : α} (h : p c = false) {i : ℕ} {s : List α} {run : ℕ × List α} :
    IsRun p i (c :: s) run ↔ IsRun p (i + 1) s run := by
  constructor
  · rintro ⟨a, b, hs, hi, hne, hw, ha, hb⟩
    cases a with
    | nil =>
      -- the run would begin with the element that has not the property
      obtain ⟨x, w, hrun⟩ := List.exists_cons_of_ne_nil hne
      rw [hrun] at hs hw
      rw [(List.cons.inj hs).1, hw x List.mem_cons_self] at h
      nomatch h
    | cons x a =>
      refine ⟨a, b, (List.cons.inj hs).2, ?_, hne, hw, fun y hy => ha y ?_, hb⟩
      · rw [hi, List.length_cons]
        omega
      · cases a with
        | nil => nomatch hy
        | cons z a => exact hy
  · rintro ⟨a, b, hs, hi, hne, hw, ha, hb⟩
    refine ⟨c :: a, b, by rw [hs]; rfl, ?_, hne, hw, fun y hy => ?_, hb⟩
    · rw [hi, List.length_cons]
      omega
    · cases a with
      | nil =>
        rw [List.getLast?_singleton, Option.mem_some_iff] at hy
        rw [← hy, h]
      | cons z a => exact ha y hy

/-- The first run, and those behind it. -/
theorem isRun_append {t d : List α} (hne : t ≠ []) (ht : ∀ c ∈ t, p c = true)
    (hd : ∀ c ∈ d.head?, p c = false) {i : ℕ} {run : ℕ × List α} :
    IsRun p i (t ++ d) run ↔ run = (i, t) ∨ IsRun p (i + t.length) d run := by
  constructor
  · rintro ⟨a, b, hs, hi, hrun, hw, ha, hb⟩
    rcases List.eq_nil_or_concat' a with rfl | ⟨a, x, rfl⟩
    · left
      rw [List.nil_append] at hs
      have hword : run.2 = t := by
        rw [← takeWhile_append_of_all hw hb, ← hs, takeWhile_append_of_all ht hd]
      exact Prod.ext hi hword
    · -- the element in front is not in the first run
      have hx : p x = false := ha x (by simp)
      right
      rw [List.append_assoc] at hs
      rcases List.append_eq_append_iff.mp hs with ⟨a', haa, hdd⟩ | ⟨c', htt, -⟩
      · rcases List.eq_nil_or_concat' a' with rfl | ⟨a', y, rfl⟩
        · rw [List.append_nil] at haa
          have hmem := ht x (haa ▸ by simp)
          rw [hx] at hmem
          nomatch hmem
        · refine ⟨a' ++ [y], b, by rw [hdd, ← List.append_assoc], ?_, hrun, hw, ?_, hb⟩
          · rw [hi, haa, List.length_append]
            omega
          · intro z hz
            refine ha z ?_
            rw [haa]
            simpa using hz
      · have hmem := ht x (htt ▸ by simp)
        rw [hx] at hmem
        nomatch hmem
  · rintro (rfl | ⟨a, b, hs, hi, hrun, hw, ha, hb⟩)
    · exact ⟨[], d, rfl, rfl, hne, ht, fun c hc => (nomatch hc), hd⟩
    · refine ⟨t ++ a, b, by rw [hs]; simp, ?_, hrun, hw, fun z hz => ?_, hb⟩
      · rw [hi, List.length_append]
        omega
      · rcases List.eq_nil_or_concat' a with rfl | ⟨a, y, rfl⟩
        · -- the next run would begin where the first one ends
          obtain ⟨x, w, hword⟩ := List.exists_cons_of_ne_nil hrun
          rw [hword] at hs hw
          have hx := hd x (by rw [hs]; rfl)
          rw [hw x List.mem_cons_self] at hx
          nomatch hx
        · exact ha z (by simpa using hz)

/-- A list that begins with a run. -/
theorem exists_runs_cons {c : α} (h : p c = true) (i : ℕ) (s : List α) :
    ∃ t d, s = t ++ d ∧ (∀ x ∈ t, p x = true) ∧ (∀ x ∈ d.head?, p x = false) ∧
      runs p i (c :: s) = (i, c :: t) :: runs p (i + (c :: t).length) d := by
  refine ⟨s.takeWhile p, s.dropWhile p, List.takeWhile_append_dropWhile.symm,
    fun x hx => List.mem_takeWhile_imp hx, head_dropWhile s, ?_⟩
  rw [runs_cons_of_pos h, List.length_cons, Nat.add_assoc, Nat.add_comm 1]

/-- **All the maximal runs are listed, and nothing else.** -/
theorem mem_runs_iff {i : ℕ} {s : List α} {run : ℕ × List α} :
    run ∈ runs p i s ↔ IsRun p i s run := by
  induction i, s using runs.induct p with
  | case1 i =>
    rw [runs_nil]
    refine ⟨fun h => absurd h List.not_mem_nil, ?_⟩
    rintro ⟨a, b, hs, -, hne, -⟩
    have hnil := List.append_eq_nil_iff.mp (List.append_eq_nil_iff.mp hs.symm).1
    exact absurd hnil.2 hne
  | case2 i c s hc ih =>
    have hsplit : c :: s = (c :: s.takeWhile p) ++ s.dropWhile p := by
      rw [List.cons_append, List.takeWhile_append_dropWhile]
    have hall : ∀ x ∈ c :: s.takeWhile p, p x = true := by
      intro x hx
      rcases List.mem_cons.mp hx with rfl | hx
      · exact hc
      · exact List.mem_takeWhile_imp hx
    have happ := @isRun_append _ p _ _ (List.cons_ne_nil c _) hall (head_dropWhile s) i run
    rw [← hsplit, List.length_cons, Nat.add_comm _ 1, ← Nat.add_assoc] at happ
    rw [runs_cons_of_pos hc, List.mem_cons, ih, happ]
  | case3 i c s hc ih =>
    rw [runs_cons_of_neg (by simpa using hc), isRun_cons_of_neg (by simpa using hc), ih]

theorem le_of_mem_runs {i : ℕ} {s : List α} {run : ℕ × List α} (h : run ∈ runs p i s) :
    i ≤ run.1 := by
  obtain ⟨a, -, -, hi, -⟩ := mem_runs_iff.mp h
  omega

/-- They are listed from left to right. -/
theorem pairwise_runs (i : ℕ) (s : List α) :
    (runs p i s).Pairwise fun run run' => run.1 < run'.1 := by
  induction i, s using runs.induct p with
  | case1 i =>
    rw [runs_nil]
    exact List.Pairwise.nil
  | case2 i c s hc ih =>
    rw [runs_cons_of_pos hc]
    refine List.pairwise_cons.mpr ⟨fun run hrun => ?_, ih⟩
    have := le_of_mem_runs hrun
    dsimp only
    omega
  | case3 i c s hc ih =>
    rw [runs_cons_of_neg (by simpa using hc)]
    exact ih

end Runs
