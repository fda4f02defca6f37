import Mathlib.Data.List.Infix
import Mathlib.Data.Nat.Basic
import Mathlib.Logic.Function.Basic
import Mathlib.Tactic.Common

/-!
# Memory in blocks

A memory is made of blocks. Each allocation gives a new one, with unknown contents, or fails; a
block that is freed, or that `realloc` has replaced, is never there again. To read or to write
outside of a block that is there is an error, so that a program which does not fail stays inside
of its blocks.
-/

namespace Blocks

variable {α : Type*}

/-- What an allocation gives: it may fail, and the contents are unknown. Both may depend on how many
blocks there have been, and on the size. -/
structure Allocator (α : Type*) where
  fails : ℕ → ℕ → Bool
  junk : ℕ → ℕ → α

/-- The blocks that are there, and how many there have been. -/
structure Memory (α : Type*) where
  block : ℕ → Option (List α)
  count : ℕ

namespace Memory

/-- No block yet. -/
def empty : Memory α := ⟨fun _ => none, 0⟩

variable (A : Allocator α) (m : Memory α)

/-- A new block. -/
def alloc (bytes : List α) : Memory α :=
  ⟨Function.update m.block m.count (some bytes), m.count + 1⟩

/-- `malloc`: the block and the memory, or the null pointer. -/
def malloc (n : ℕ) : Option (ℕ × Memory α) :=
  if A.fails m.count n then none
  else some (m.count, m.alloc ((List.range n).map (A.junk m.count)))

/-- `free`. -/
def free (p : ℕ) : Option (Memory α) :=
  (m.block p).map fun _ => { m with block := Function.update m.block p none }

/-- `realloc`: what fits of the old block is in the new one, and the old one is not there any
more; if there is no new one, nothing changes. -/
def realloc (p n : ℕ) : Option (Option (ℕ × Memory α)) :=
  (m.block p).map fun bytes =>
    if A.fails m.count n then none
    else
      let kept := bytes.take n
      let added := (List.range (n - kept.length)).map (A.junk m.count)
      some (m.count, { m with block := Function.update m.block p none }.alloc (kept ++ added))

/-- The contents from an offset on, up to the end of the block. -/
def rest (p off : ℕ) : Option (List α) :=
  (m.block p).bind fun bytes => if off ≤ bytes.length then some (bytes.drop off) else none

/-- To write some bytes. -/
def write (p off : ℕ) (bytes : List α) : Option (Memory α) :=
  (m.block p).bind fun old =>
    if off + bytes.length ≤ old.length then
      some { m with
        block := Function.update m.block p
          (some (old.take off ++ bytes ++ old.drop (off + bytes.length))) }
    else none

variable {A m}

/-! ### What becomes of a block, and of the others -/

/-- There are no blocks but those that have been allocated. -/
def Bounded (m : Memory α) : Prop := ∀ p, m.count ≤ p → m.block p = none

theorem bounded_empty : (empty : Memory α).Bounded := fun _ _ => rfl

theorem Bounded.lt (h : m.Bounded) {p : ℕ} {bytes : List α} (hp : m.block p = some bytes) :
    p < m.count := by
  by_contra hle
  rw [h p (not_lt.mp hle)] at hp
  cases hp

/-- What a program with one block has done: it has that block, or a new one; the blocks of others
are unchanged. -/
structure Frame (m : Memory α) (p : ℕ) (m' : Memory α) (p' : ℕ) : Prop where
  bounded : m'.Bounded
  count_le : m.count ≤ m'.count
  here : p' = p ∨ m.count ≤ p'
  others : ∀ q < m.count, q ≠ p → m'.block q = m.block q

theorem Frame.refl (h : m.Bounded) (p : ℕ) : Frame m p m p :=
  ⟨h, le_rfl, Or.inl rfl, fun _ _ _ => rfl⟩

theorem Frame.trans {m' m'' : Memory α} {p p' p'' : ℕ} (h : Frame m p m' p')
    (h' : Frame m' p' m'' p'') : Frame m p m'' p'' := by
  refine ⟨h'.bounded, h.count_le.trans h'.count_le, ?_, fun q hq hne => ?_⟩
  · rcases h'.here with rfl | hnew
    · exact h.here
    · exact Or.inr (h.count_le.trans hnew)
  · have hne' : q ≠ p' := by
      rintro rfl
      rcases h.here with heq | hnew
      · exact hne heq
      · omega
    rw [h'.others q (hq.trans_le h.count_le) hne', h.others q hq hne]

/-- What is done to the old block, when there is a new one. -/
theorem Frame.trans_old {m' m'' : Memory α} {p p' : ℕ} (h : Frame m p m' p')
    (h' : Frame m' p m'' p) : Frame m p m'' p' :=
  ⟨h'.bounded, h.count_le.trans h'.count_le, h.here, fun q hq hne =>
    (h'.others q (hq.trans_le h.count_le) hne).trans (h.others q hq hne)⟩

/-- The memory where one block has other contents, or none. -/
theorem frame_set (h : m.Bounded) {p : ℕ} (hp : p < m.count) (bytes : Option (List α)) :
    Frame m p { m with block := Function.update m.block p bytes } p := by
  refine ⟨fun q hq => ?_, le_rfl, Or.inl rfl, fun q _ hne => Function.update_of_ne hne _ _⟩
  have hne : q ≠ p := (hp.trans_le hq).ne'
  exact (Function.update_of_ne hne _ _).trans (h q hq)

/-- The memory with a new block. -/
theorem frame_alloc (h : m.Bounded) (p : ℕ) (bytes : List α) :
    Frame m p (m.alloc bytes) m.count := by
  refine ⟨fun q hq => ?_, Nat.le_succ _, Or.inr le_rfl, fun q hq _ => ?_⟩
  · have hne : q ≠ m.count := (Nat.lt_of_succ_le hq).ne'
    exact (Function.update_of_ne hne _ _).trans (h q ((Nat.le_succ _).trans hq))
  · exact Function.update_of_ne hq.ne _ _

/-- A block is written. -/
theorem exists_write (h : m.Bounded) {p off : ℕ} {before old behind : List α}
    (hp : m.block p = some (before ++ old ++ behind)) (hoff : before.length = off)
    (bytes : List α) (hlen : bytes.length = old.length) :
    ∃ m', m.write p off bytes = some m' ∧ m'.block p = some (before ++ bytes ++ behind) ∧
      Frame m p m' p := by
  subst hoff
  have hle : before.length + bytes.length ≤ (before ++ old ++ behind).length := by
    simp only [List.length_append]
    omega
  refine ⟨_, ?_, Function.update_self _ _ _, frame_set h (h.lt hp) _⟩
  rw [write, hp, Option.bind_some, if_pos hle]
  congr 5
  · rw [List.append_assoc, List.take_left]
  · rw [hlen, ← List.length_append, List.drop_left]

/-- A block is freed. -/
theorem exists_free (h : m.Bounded) {p : ℕ} {bytes : List α} (hp : m.block p = some bytes) :
    ∃ m', m.free p = some m' ∧ Frame m p m' p :=
  ⟨_, by rw [free, hp, Option.map_some], frame_set h (h.lt hp) none⟩

/-- `malloc`, if it does not fail. -/
theorem exists_malloc (h : m.Bounded) (hmem : ∀ k n, A.fails k n = false) (n : ℕ) :
    ∃ m' bytes, m.malloc A n = some (m.count, m') ∧ m'.block m.count = some bytes ∧
      bytes.length = n ∧ ∀ p, Frame m p m' m.count := by
  refine ⟨_, (List.range n).map (A.junk m.count), ?_, Function.update_self _ _ _, by simp,
    fun p => frame_alloc h p _⟩
  rw [malloc, hmem, if_neg Bool.false_ne_true]

/-- `realloc`, if it does not fail. -/
theorem exists_realloc (h : m.Bounded) (hmem : ∀ k n, A.fails k n = false) {p : ℕ}
    {bytes : List α} (hp : m.block p = some bytes) (n : ℕ) :
    ∃ m' added, m.realloc A p n = some (some (m.count, m')) ∧
      m'.block m.count = some (bytes.take n ++ added) ∧ (bytes.take n ++ added).length = n ∧
      Frame m p m' m.count := by
  have hfreed := frame_set h (h.lt hp) none
  refine ⟨_, (List.range (n - (bytes.take n).length)).map (A.junk m.count), ?_,
    Function.update_self _ _ _, ?_, hfreed.trans (frame_alloc hfreed.bounded p _)⟩
  · rw [realloc, hp, Option.map_some, hmem, if_neg Bool.false_ne_true]
  · simp only [List.length_append, List.length_map, List.length_range, List.length_take]
    omega

end Memory

end Blocks
