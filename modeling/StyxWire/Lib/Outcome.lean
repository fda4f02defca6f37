import Mathlib.Data.List.Perm.Basic
import Mathlib.Tactic.Common

/-!
# Outcomes of code that can fail

What is promised of a computation that can fail: a property of the values it returns, and one
of the errors it reports (`Outcome.Ends`). The rules follow the code: a sequence
(`Outcome.Ends.bind`), a loop over a list with an invariant (`Outcome.Ends.foldlM`).

A loop whose turns commute, up to the error that is reported, comes to the same for every order of
its list (`Outcome.toOption_foldlM_perm`).
-/

namespace Outcome

universe u

variable {ε : Type*} {α β : Type u} {P P' : α → Prop} {Q : β → Prop} {E : ε → Prop}

/-- **What a computation ends in**: a value of which `P` is true, or an error of which `E` is. -/
def Ends (P : α → Prop) (E : ε → Prop) : Except ε α → Prop
  | .ok a => P a
  | .error e => E e

@[simp] theorem ends_ok {a : α} : Ends P E (.ok a) ↔ P a := Iff.rfl

@[simp] theorem ends_error {e : ε} : Ends P E (.error e) ↔ E e := Iff.rfl

theorem Ends.value {x : Except ε α} (h : Ends P E x) {a : α} (hx : x = .ok a) : P a := by
  rw [hx] at h
  exact h

theorem Ends.error {x : Except ε α} (h : Ends P E x) {e : ε} (hx : x = .error e) : E e := by
  rw [hx] at h
  exact h

theorem Ends.mono {x : Except ε α} (h : Ends P E x) (hP : ∀ a, P a → P' a) : Ends P' E x := by
  cases x with
  | error e => exact h
  | ok a => exact hP a h

theorem Ends.imp {E' : ε → Prop} {x : Except ε α} (h : Ends P E x) (hP : ∀ a, P a → P' a)
    (hE : ∀ e, E e → E' e) : Ends P' E' x := by
  cases x with
  | error e => exact hE e h
  | ok a => exact hP a h

theorem Ends.map {x : Except ε α} (h : Ends P E x) {f : α → β} (hf : ∀ a, P a → Q (f a)) :
    Ends Q E (x.map f) := by
  cases x with
  | error e => exact h
  | ok a => exact hf a h

theorem Ends.bind {x : Except ε α} (h : Ends P E x) {f : α → Except ε β}
    (hf : ∀ a, P a → Ends Q E (f a)) : Ends Q E (x >>= f) := by
  cases x with
  | error e => exact h
  | ok a => exact hf a h

/-- **The rule of a loop**: what every turn keeps holds at the end. -/
theorem Ends.foldlM {f : α → β → Except ε α} {bs : List β}
    (hf : ∀ a, ∀ b ∈ bs, P a → Ends P E (f a b)) {a : α} (ha : P a) :
    Ends P E (bs.foldlM f a) := by
  induction bs generalizing a with
  | nil => exact ha
  | cons b bs ih =>
    rw [List.foldlM_cons]
    refine Ends.bind (hf a b List.mem_cons_self ha) fun a' ha' => ?_
    exact ih (fun a c hc => hf a c (List.mem_cons_of_mem b hc)) ha'

/-- A loop that does not fail. -/
theorem foldlM_eq_ok {f : α → β → Except ε α} {g : α → β → α} {bs : List β}
    (h : ∀ a, ∀ b ∈ bs, f a b = .ok (g a b)) (a : α) : bs.foldlM f a = .ok (bs.foldl g a) := by
  induction bs generalizing a with
  | nil => rfl
  | cons b bs ih =>
    rw [List.foldlM_cons, h a b List.mem_cons_self]
    exact ih (fun a c hc => h a c (List.mem_cons_of_mem b hc)) (g a b)

/-- A loop that fails in one way does so if one of its turns does. -/
theorem mapM_eq_ite {γ : Type u} {f : β → Except ε γ} {g : β → γ} {bad : β → Prop} {e : ε}
    [DecidablePred bad] {bs : List β} (h : ∀ b ∈ bs, f b = if bad b then .error e else .ok (g b)) :
    bs.mapM f = if ∃ b ∈ bs, bad b then .error e else .ok (bs.map g) := by
  induction bs with
  | nil => rw [if_neg (by simp)]; rfl
  | cons b bs ih =>
    rw [List.mapM_cons, h b List.mem_cons_self, ih fun c hc => h c (List.mem_cons_of_mem b hc)]
    by_cases hb : bad b
    · have hsome : ∃ c ∈ b :: bs, bad c := ⟨b, List.mem_cons_self, hb⟩
      rw [if_pos hb, if_pos hsome]
      rfl
    by_cases hbs : ∃ c ∈ bs, bad c
    · have hsome : ∃ c ∈ b :: bs, bad c := by
        obtain ⟨c, hc, hbad⟩ := hbs
        exact ⟨c, List.mem_cons_of_mem b hc, hbad⟩
      rw [if_neg hb, if_pos hbs, if_pos hsome]
      rfl
    · have hnone : ¬ ∃ c ∈ b :: bs, bad c := by
        rintro ⟨c, hc, hbad⟩
        rcases List.mem_cons.mp hc with rfl | hc
        · exact hb hbad
        · exact hbs ⟨c, hc, hbad⟩
      rw [if_neg hb, if_neg hbs, if_neg hnone]
      rfl

/-! ### Turns that commute -/

theorem toOption_bind (x : Except ε α) (f : α → Except ε β) :
    (x >>= f).toOption = x.toOption.bind fun a => (f a).toOption := by
  cases x with
  | error e => rfl
  | ok a => rfl

/-- **The order of turns that commute does not matter.** The induction is on the permutation; the
invariant `P` is what the turns need in order to commute. -/
theorem toOption_foldlM_perm {f : α → β → Except ε α} {bs bs' : List β} (h : bs.Perm bs')
    (hkeep : ∀ a, ∀ b ∈ bs, P a → ∀ a', f a b = .ok a' → P a')
    (hcomm : ∀ a, ∀ b ∈ bs, ∀ b' ∈ bs, P a →
      (f a b >>= fun a' => f a' b').toOption = (f a b' >>= fun a' => f a' b).toOption)
    {a : α} (ha : P a) : (bs.foldlM f a).toOption = (bs'.foldlM f a).toOption := by
  induction h generalizing a with
  | nil => rfl
  | @cons b bs bs' _ ih =>
    rw [List.foldlM_cons, List.foldlM_cons]
    cases hb : f a b with
    | error e => rfl
    | ok a' =>
      exact ih (fun a b hb => hkeep a b (List.mem_cons_of_mem _ hb))
        (fun a b hb b' hb' => hcomm a b (List.mem_cons_of_mem _ hb) b' (List.mem_cons_of_mem _ hb'))
        (hkeep a b List.mem_cons_self ha a' hb)
  | swap b b' bs =>
    have hswap := hcomm a b' List.mem_cons_self b (List.mem_cons_of_mem _ List.mem_cons_self) ha
    simp only [List.foldlM_cons, ← bind_assoc]
    rw [toOption_bind, hswap, ← toOption_bind]
  | trans h₁ _ ih₁ ih₂ =>
    refine (ih₁ hkeep hcomm ha).trans (ih₂ ?_ ?_ ha)
    · exact fun a b hb => hkeep a b (h₁.mem_iff.mpr hb)
    · exact fun a b hb b' hb' => hcomm a b (h₁.mem_iff.mpr hb) b' (h₁.mem_iff.mpr hb')

end Outcome
