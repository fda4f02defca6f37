import Mathlib.Data.List.TakeWhile
import Mathlib.Tactic.Common

/-!
# Decoders

A decoder takes a value off the front of a text, or fails. Decoders are put together in a monad,
and so are the two things there are to say of one of them:

* `Decoder.Sound p R`: what it takes off the text is related by `R` to the value it gives, which
  is how a decoder is compared with a grammar;
* `Decoder.Gives p t a r`: it takes `t` off the text `t ++ r`, and gives `a`, which is how it is
  shown to read back what a printer has written. The rest `r` is there for the decoders that look
  ahead.
-/

/-- A decoder: a value, and the rest of the text. -/
def Decoder (σ α : Type) : Type := List σ → Option (α × List σ)

namespace Decoder

variable {σ α β : Type}

instance : Monad (Decoder σ) where
  pure a := fun s => some (a, s)
  bind p q := fun s => (p s).bind fun x => q x.1 x.2

/-- No value. -/
def fail : Decoder σ α := fun _ => none

/-- A look at the first item. -/
def peek : Decoder σ (Option σ) := fun s => some (s.head?, s)

/-- The longest run of items of a kind. -/
def run (kind : σ → Bool) : Decoder σ (List σ) := fun s =>
  some (s.takeWhile kind, s.dropWhile kind)

/-- A given word. -/
def word [DecidableEq σ] (w : List σ) : Decoder σ Unit := fun s =>
  if s.take w.length = w then some ((), s.drop w.length) else none

/-- The value of a text, all of which is to be taken. -/
def whole (p : Decoder σ α) (s : List σ) : Option α :=
  (p s).bind fun x => if x.2 = [] then some x.1 else none

/-! ### What is taken off the text -/

/-- What is taken off the text is related to the value. -/
def Sound (p : Decoder σ α) (R : α → List σ → Prop) : Prop :=
  ∀ s a r, p s = some (a, r) → ∃ t, s = t ++ r ∧ R a t

theorem Sound.mono {p : Decoder σ α} {R R' : α → List σ → Prop} (h : Sound p R)
    (hR : ∀ a t, R a t → R' a t) : Sound p R' := by
  intro s a r hs
  obtain ⟨t, rfl, ht⟩ := h s a r hs
  exact ⟨t, rfl, hR a t ht⟩

/-- **One decoder after the other**: what they take off the text is put together. -/
theorem Sound.bind {p : Decoder σ α} {q : α → Decoder σ β} {R : α → List σ → Prop}
    {S : β → List σ → Prop} (hp : Sound p R)
    (hq : ∀ a t, R a t → Sound (q a) fun b t' => S b (t ++ t')) : Sound (p >>= q) S := by
  intro s b r h
  obtain ⟨⟨a, s'⟩, ha, hb⟩ := Option.bind_eq_some_iff.mp h
  obtain ⟨t₁, rfl, ht₁⟩ := hp s a s' ha
  obtain ⟨t₂, rfl, ht₂⟩ := hq a t₁ ht₁ s' b r hb
  exact ⟨t₁ ++ t₂, (List.append_assoc _ _ _).symm, ht₂⟩

theorem Sound.pure {a : α} {R : α → List σ → Prop} (h : R a []) : Sound (pure a) R := by
  rintro s b r hs
  obtain ⟨rfl, rfl⟩ := Prod.mk.inj (Option.some.inj hs)
  exact ⟨[], rfl, h⟩

theorem Sound.fail (R : α → List σ → Prop) : Sound (fail : Decoder σ α) R := by
  rintro s b r h
  exact absurd h (Option.some_ne_none _).symm

theorem Sound.ite {c : Prop} [Decidable c] {p q : Decoder σ α} {R : α → List σ → Prop}
    (hp : c → Sound p R) (hq : ¬c → Sound q R) : Sound (if c then p else q) R := by
  by_cases h : c
  · rw [if_pos h]
    exact hp h
  · rw [if_neg h]
    exact hq h

theorem Sound.peek : Sound (peek : Decoder σ (Option σ)) fun _ t => t = [] := by
  rintro s b r h
  obtain ⟨-, rfl⟩ := Prod.mk.inj (Option.some.inj h)
  exact ⟨[], rfl, rfl⟩

theorem Sound.run (kind : σ → Bool) :
    Sound (run kind) fun w t => w = t ∧ ∀ c ∈ t, kind c = true := by
  rintro s w r h
  obtain ⟨rfl, rfl⟩ := Prod.mk.inj (Option.some.inj h)
  exact ⟨_, List.takeWhile_append_dropWhile.symm, rfl, fun c hc => List.mem_takeWhile_imp hc⟩

theorem Sound.word [DecidableEq σ] (w : List σ) : Sound (word w) fun _ t => t = w := by
  rintro s a r h
  by_cases hw : s.take w.length = w
  · rw [Decoder.word, if_pos hw] at h
    obtain ⟨-, rfl⟩ := Prod.mk.inj (Option.some.inj h)
    exact ⟨w, by rw [← hw, List.length_take, ← hw]; simp, rfl⟩
  · rw [Decoder.word, if_neg hw] at h
    exact absurd h (Option.some_ne_none _).symm

/-- The value of a whole text is related to it. -/
theorem Sound.whole {p : Decoder σ α} {R : α → List σ → Prop} (hp : Sound p R) {s : List σ} {a : α}
    (h : p.whole s = some a) : R a s := by
  obtain ⟨⟨b, r⟩, hb, hrest⟩ := Option.bind_eq_some_iff.mp h
  dsimp only at hrest
  by_cases hr : r = []
  · rw [if_pos hr, Option.some.injEq] at hrest
    obtain ⟨t, rfl, ht⟩ := hp s b r hb
    rw [hr, List.append_nil, ← hrest]
    exact ht
  · rw [if_neg hr] at hrest
    exact absurd hrest (Option.some_ne_none _).symm

/-! ### Reading back -/

/-- A text is taken off, and the value is given. -/
def Gives (p : Decoder σ α) (t : List σ) (a : α) (r : List σ) : Prop := p (t ++ r) = some (a, r)

/-- **One decoder after the other** reads back one text after the other. -/
theorem Gives.bind {p : Decoder σ α} {q : α → Decoder σ β} {t₁ t₂ r : List σ} {a : α} {b : β}
    (hp : Gives p t₁ a (t₂ ++ r)) (hq : Gives (q a) t₂ b r) : Gives (p >>= q) (t₁ ++ t₂) b r := by
  have h : ((p >>= q) (t₁ ++ (t₂ ++ r))) = (p (t₁ ++ (t₂ ++ r))).bind fun x => q x.1 x.2 := rfl
  rw [Gives, List.append_assoc, h, hp, Option.bind_some]
  exact hq

/-- The first one takes nothing. -/
theorem Gives.bind_left {p : Decoder σ α} {q : α → Decoder σ β} {t r : List σ} {a : α} {b : β}
    (hp : Gives p [] a (t ++ r)) (hq : Gives (q a) t b r) : Gives (p >>= q) t b r :=
  Gives.bind hp hq

/-- The second one takes nothing. -/
theorem Gives.bind_right {p : Decoder σ α} {q : α → Decoder σ β} {t r : List σ} {a : α} {b : β}
    (hp : Gives p t a r) (hq : Gives (q a) [] b r) : Gives (p >>= q) t b r := by
  rw [← List.append_nil t]
  exact Gives.bind hp hq

theorem Gives.pure (a : α) (r : List σ) : Gives (pure a) [] a r := rfl

theorem Gives.peek (r : List σ) : Gives peek [] r.head? r := rfl

theorem Gives.ite_pos {c : Prop} [Decidable c] {p q : Decoder σ α} {t r : List σ} {a : α} (h : c)
    (hp : Gives p t a r) : Gives (if c then p else q) t a r := by
  rw [if_pos h]
  exact hp

theorem Gives.ite_neg {c : Prop} [Decidable c] {p q : Decoder σ α} {t r : List σ} {a : α} (h : ¬c)
    (hq : Gives q t a r) : Gives (if c then p else q) t a r := by
  rw [if_neg h]
  exact hq

/-- A run stops where an item of another kind follows. -/
theorem Gives.run {kind : σ → Bool} {t r : List σ} (ht : ∀ c ∈ t, kind c = true)
    (hr : ∀ c, r.head? = some c → kind c = false) : Gives (run kind) t t r := by
  have hnil : r.takeWhile kind = [] ∧ r.dropWhile kind = r := by
    cases r with
    | nil => exact ⟨rfl, rfl⟩
    | cons c r =>
      have hc := hr c rfl
      exact ⟨List.takeWhile_cons_of_neg (by simp [hc]), List.dropWhile_cons_of_neg (by simp [hc])⟩
  rw [Gives, Decoder.run, List.takeWhile_append_of_pos ht, List.dropWhile_append_of_pos ht, hnil.1,
    hnil.2, List.append_nil]

theorem Gives.word [DecidableEq σ] (w r : List σ) : Gives (word w) w () r := by
  rw [Gives, Decoder.word, List.take_left, if_pos rfl, List.drop_left]

/-- A text that is read back with nothing behind it is a whole. -/
theorem Gives.whole {p : Decoder σ α} {t : List σ} {a : α} (h : Gives p t a []) :
    p.whole t = some a := by
  rw [Gives, List.append_nil] at h
  rw [Decoder.whole, h, Option.bind_some, if_pos rfl]

end Decoder
