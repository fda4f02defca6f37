import Mathlib.Data.Finset.Preimage
import Mathlib.Data.Multiset.UnionInter

/-!
# Inventories

An inventory (`Inventory`) says which resources are open, and counts how often something was closed
that was not open. Between two moments there are the resources that were opened and not closed
(`Inventory.Holds`); a program that holds nothing any more leaves the inventory as it was
(`Inventory.Holds.eq`).

Programs acquire resources in steps that may fail, and stop at the first one that does
(`Attempt.run`). What holds before the steps, behind the last one and where they stop is put
together from what each step does (`Attempt.Meets`).
-/

variable {ι σ : Type*}

/-- What is open, and how often something else was closed. -/
structure Inventory (ι : Type*) where
  opened : Finset ι
  faults : ℕ

namespace Inventory

variable [DecidableEq ι] {l₀ l : Inventory ι} {held : Multiset ι} {x : ι}

/-- A resource is opened. -/
def take (l : Inventory ι) (x : ι) : Inventory ι := { l with opened := insert x l.opened }

/-- A resource is closed. -/
def drop (l : Inventory ι) (x : ι) : Inventory ι :=
  if x ∈ l.opened then { l with opened := l.opened.erase x } else { l with faults := l.faults + 1 }

section Least

variable (f : ℕ → ι) (hf : Function.Injective f)

omit [DecidableEq ι] in
include hf in
theorem exists_notMem (l : Inventory ι) : ∃ n, f n ∉ l.opened := by
  obtain ⟨n, hn⟩ := Infinite.exists_notMem_finset (l.opened.preimage f hf.injOn)
  exact ⟨n, fun hmem => hn (Finset.mem_preimage.mpr hmem)⟩

/-- The first of the resources of some kind that is not open. -/
def least (l : Inventory ι) : ℕ := Nat.find (exists_notMem f hf l)

theorem least_notMem (l : Inventory ι) : f (l.least f hf) ∉ l.opened :=
  Nat.find_spec (exists_notMem f hf l)

end Least

/-- From one inventory to the other these were opened and not closed, and nothing was closed that
was not open. -/
structure Holds (l₀ l : Inventory ι) (held : Multiset ι) : Prop where
  nodup : held.Nodup
  notMem : ∀ x ∈ held, x ∉ l₀.opened
  opened : l.opened = l₀.opened ∪ held.toFinset
  faults : l.faults = l₀.faults

theorem Holds.refl (l : Inventory ι) : Holds l l 0 where
  nodup := Multiset.nodup_zero
  notMem := fun x hx => absurd hx (Multiset.notMem_zero x)
  opened := by rw [Multiset.toFinset_zero, Finset.union_empty]
  faults := rfl

/-- **Who holds nothing has left the inventory as it was.** -/
theorem Holds.eq (h : Holds l₀ l 0) : l = l₀ := by
  obtain ⟨opened, faults⟩ := l
  obtain ⟨-, -, hopened, rfl⟩ := h
  rw [Multiset.toFinset_zero, Finset.union_empty] at hopened
  subst hopened
  rfl

/-- What is not open can be opened. -/
theorem Holds.take (h : Holds l₀ l held) (hx : x ∉ l.opened) :
    Holds l₀ (l.take x) (x ::ₘ held) := by
  rw [h.opened, Finset.mem_union, not_or, Multiset.mem_toFinset] at hx
  obtain ⟨hold, hheld⟩ := hx
  refine ⟨Multiset.nodup_cons.mpr ⟨hheld, h.nodup⟩, ?_, ?_, h.faults⟩
  · intro y hy
    rcases Multiset.mem_cons.mp hy with rfl | hy
    · exact hold
    · exact h.notMem y hy
  · change insert x l.opened = _
    rw [h.opened, Multiset.toFinset_cons, Finset.union_insert]

/-- What is held can be closed. -/
theorem Holds.drop (h : Holds l₀ l (x ::ₘ held)) : Holds l₀ (l.drop x) held := by
  obtain ⟨hx, hnodup⟩ := Multiset.nodup_cons.mp h.nodup
  have hold : x ∉ l₀.opened := h.notMem x (Multiset.mem_cons_self x held)
  have hmem : x ∈ l.opened := by
    rw [h.opened, Multiset.toFinset_cons]
    exact Finset.mem_union_right _ (Finset.mem_insert_self _ _)
  rw [Inventory.drop, if_pos hmem]
  refine ⟨hnodup, fun y hy => h.notMem y (Multiset.mem_cons_of_mem hy), ?_, h.faults⟩
  change l.opened.erase x = _
  rw [h.opened, Multiset.toFinset_cons, Finset.union_insert, Finset.erase_insert]
  rw [Finset.mem_union, Multiset.mem_toFinset]
  exact not_or.mpr ⟨hold, hx⟩

/-- What is opened and closed again is as if it had not been. -/
theorem drop_take (hx : x ∉ l.opened) : (l.take x).drop x = l :=
  ((Holds.refl l).take hx).drop.eq

/-- How many there are that were not there before. -/
theorem Holds.card_sdiff (h : Holds l₀ l held) :
    (l.opened \ l₀.opened).card = Multiset.card held := by
  have hsdiff : l.opened \ l₀.opened = held.toFinset := by
    rw [h.opened, Finset.union_sdiff_left, Finset.sdiff_eq_self_iff_disjoint]
    exact Finset.disjoint_left.mpr fun x hx => h.notMem x (Multiset.mem_toFinset.mp hx)
  rw [hsdiff, Multiset.toFinset_card_of_nodup h.nodup]

end Inventory

namespace Attempt

variable {P P' Q R : σ → Prop} {f : σ → Bool × σ} {fs : List (σ → Bool × σ)}

/-- Steps one after the other, up to the first one that fails. -/
def run : List (σ → Bool × σ) → σ → Bool × σ
  | [], s => (true, s)
  | f :: fs, s => if (f s).1 then run fs (f s).2 else f s

/-- Steps that begin where `P` holds and end where `Q` does, or, if one of them fails, where `R`
does. -/
def Meets (P : σ → Prop) (fs : List (σ → Bool × σ)) (Q R : σ → Prop) : Prop :=
  ∀ s, P s → if (run fs s).1 then Q (run fs s).2 else R (run fs s).2

theorem Meets.nil : Meets P [] P R := fun _ h => h

/-- **The first step, and the others.** -/
theorem Meets.cons (hf : ∀ s, P s → if (f s).1 then P' (f s).2 else R (f s).2)
    (hfs : Meets P' fs Q R) : Meets P (f :: fs) Q R := by
  intro s hs
  have hfirst := hf s hs
  rw [run]
  by_cases hok : (f s).1 = true
  · rw [if_pos hok] at hfirst ⊢
    exact hfs _ hfirst
  · rw [if_neg hok] at hfirst ⊢
    rwa [if_neg hok]

/-- A step of which the same is said whether it fails or not. -/
theorem Meets.step (hf : ∀ s, P s → P' (f s).2) (hR : ∀ s, P' s → R s) (hfs : Meets P' fs Q R) :
    Meets P (f :: fs) Q R := by
  refine Meets.cons (fun s hs => ?_) hfs
  split_ifs
  · exact hf s hs
  · exact hR _ (hf s hs)

end Attempt
