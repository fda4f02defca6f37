import Mathlib.Tactic.Common

/-!
# Searching a text

`strchr` and `strstr`, as the place of the first character, or of the first occurrence of a
word, counted from the start of the text.

The texts searched here are made of words and of marks between them. A word that does not have
the first character of what is looked for is passed over (`Search.wordOff_append`), and where a
mark is met it is decided there and then, as a word in front of a mark is told by it
(`Search.word_inj`).
-/

namespace Search

variable {α : Type*} [DecidableEq α]

/-- `strchr`: the place of the first such character. -/
def charOff (s : List α) (c : α) : Option ℕ := s.findIdx? (· = c)

/-- `strstr`: the place of the first occurrence. -/
def wordOff (x : List α) : List α → Option ℕ
  | [] => if x = [] then some 0 else none
  | c :: s => if x <+: c :: s then some 0 else (wordOff x s).map (· + 1)

omit [DecidableEq α] in
/-- **A word is told by the mark behind it.** -/
theorem word_inj {P : α → Prop} {w w' s s' : List α} {c c' : α} (hw : ∀ a ∈ w, ¬P a)
    (hw' : ∀ a ∈ w', ¬P a) (hc : P c) (hc' : P c') (h : w ++ c :: s = w' ++ c' :: s') :
    w = w' ∧ c = c' ∧ s = s' := by
  induction w generalizing w' with
  | nil =>
    cases w' with
    | nil => exact ⟨rfl, (List.cons.inj h).1, (List.cons.inj h).2⟩
    | cons a w' => exact absurd ((List.cons.inj h).1 ▸ hc) (hw' a List.mem_cons_self)
  | cons a w ih =>
    cases w' with
    | nil => exact absurd ((List.cons.inj h).1.symm ▸ hc') (hw a List.mem_cons_self)
    | cons b w' =>
      obtain ⟨rfl, htail⟩ := List.cons.inj h
      obtain ⟨rfl, hrest⟩ := ih (fun d hd => hw d (List.mem_cons_of_mem a hd))
        (fun d hd => hw' d (List.mem_cons_of_mem a hd)) htail
      exact ⟨rfl, hrest⟩

omit [DecidableEq α] in
/-- **A word and its mark at the start of a text** are those of the text. -/
theorem word_prefix_iff {P : α → Prop} {w w' s' : List α} {c c' : α} (hw : ∀ a ∈ w, ¬P a)
    (hw' : ∀ a ∈ w', ¬P a) (hc : P c) (hc' : P c') :
    w ++ [c] <+: w' ++ c' :: s' ↔ w = w' ∧ c = c' := by
  constructor
  · rintro ⟨t, ht⟩
    rw [List.append_assoc, List.singleton_append] at ht
    obtain ⟨rfl, rfl, -⟩ := word_inj hw hw' hc hc' ht
    exact ⟨rfl, rfl⟩
  · rintro ⟨rfl, rfl⟩
    exact ⟨s', by rw [List.append_assoc, List.singleton_append]⟩

/-- The first such character is behind a text without it. -/
theorem charOff_append {s : List α} {c : α} (hs : c ∉ s) (t : List α) :
    charOff (s ++ c :: t) c = some s.length := by
  rw [charOff, List.findIdx?_append]
  have hnone : s.findIdx? (· = c) = none := by
    rw [List.findIdx?_eq_none_iff]
    intro a ha
    exact decide_eq_false fun hac => hs (hac ▸ ha)
  rw [hnone, List.findIdx?_cons]
  simp

/-- What is found is not in front of a text without it. -/
theorem charOff_append_le {s : List α} {c : α} (hs : c ∉ s) {t : List α} {i : ℕ}
    (h : charOff (s ++ t) c = some i) : s.length ≤ i := by
  have hnone : s.findIdx? (· = c) = none := by
    rw [List.findIdx?_eq_none_iff]
    intro a ha
    exact decide_eq_false fun hac => hs (hac ▸ ha)
  rw [charOff, List.findIdx?_append, hnone, Option.none_or] at h
  obtain ⟨j, -, rfl⟩ := Option.map_eq_some_iff.mp h
  exact Nat.le_add_left _ _

theorem wordOff_of_prefix {x s : List α} (h : x <+: s) : wordOff x s = some 0 := by
  cases s with
  | nil => rw [wordOff, if_pos (List.prefix_nil.mp h)]
  | cons c s => rw [wordOff, if_pos h]

theorem wordOff_cons {x s : List α} {c : α} (h : ¬x <+: c :: s) :
    wordOff x (c :: s) = (wordOff x s).map (· + 1) := by
  rw [wordOff, if_neg h]

/-- **A text without the first character** of what is looked for is passed over. -/
theorem wordOff_append {a : α} {x s : List α} (hs : a ∉ s) (t : List α) :
    wordOff (a :: x) (s ++ t) = (wordOff (a :: x) t).map (· + s.length) := by
  induction s with
  | nil => simp
  | cons c s ih =>
    have hc : ¬a :: x <+: c :: (s ++ t) := by
      rintro ⟨u, hu⟩
      exact hs ((List.cons.inj hu).1 ▸ List.mem_cons_self)
    rw [List.cons_append, wordOff_cons hc, ih fun ha => hs (List.mem_cons_of_mem c ha),
      Option.map_map]
    congr 1

omit [DecidableEq α] in
/-- **The first one of a kind**, with what is in front of it and behind it, if there is one. -/
theorem first_or_none (P : α → Prop) (l : List α) :
    (∀ a ∈ l, ¬P a) ∨ ∃ l₁ a l₂, l = l₁ ++ a :: l₂ ∧ P a ∧ ∀ b ∈ l₁, ¬P b := by
  induction l with
  | nil => exact Or.inl fun a ha => absurd ha List.not_mem_nil
  | cons a l ih =>
    by_cases ha : P a
    · exact Or.inr ⟨[], a, l, rfl, ha, fun b hb => absurd hb List.not_mem_nil⟩
    · rcases ih with hnone | ⟨l₁, b, l₂, rfl, hb, hfirst⟩
      · exact Or.inl (List.forall_mem_cons.mpr ⟨ha, hnone⟩)
      · exact Or.inr ⟨a :: l₁, b, l₂, rfl, hb, List.forall_mem_cons.mpr ⟨ha, hfirst⟩⟩

omit [DecidableEq α] in
/-- **Two members of a list** are the same one, or one of them is behind the other. -/
theorem same_or_behind {l₁ l₂ m₁ m₂ : List α} {a b : α} (h : l₁ ++ a :: l₂ = m₁ ++ b :: m₂) :
    (l₁ = m₁ ∧ a = b ∧ l₂ = m₂) ∨ (∃ s, m₁ = l₁ ++ a :: s) ∨ ∃ s, l₁ = m₁ ++ b :: s := by
  rcases List.append_eq_append_iff.mp h with ⟨s, rfl, hs⟩ | ⟨s, rfl, hs⟩
  · rcases List.cons_eq_append_iff.mp hs with ⟨rfl, htail⟩ | ⟨s', rfl, htail⟩
    · exact Or.inl ⟨(List.append_nil l₁).symm, (List.cons.inj htail).1.symm,
        (List.cons.inj htail).2.symm⟩
    · exact Or.inr (Or.inl ⟨s', rfl⟩)
  · rcases List.cons_eq_append_iff.mp hs with ⟨rfl, htail⟩ | ⟨s', rfl, htail⟩
    · exact Or.inl ⟨List.append_nil m₁, (List.cons.inj htail).1, (List.cons.inj htail).2⟩
    · exact Or.inr (Or.inr ⟨s', rfl⟩)

end Search
