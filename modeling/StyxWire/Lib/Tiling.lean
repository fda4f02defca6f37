import Mathlib.Algebra.Order.Ring.Int
import Mathlib.Data.List.Basic
import Mathlib.Tactic.Common

/-!
# Tilings of an interval

A list of segments, each an offset and a length, *tiles* `[a, b)` when the first
starts at `a`, each of the others starts where the one before it ends, and the last
ends at `b`. This is what “a gap-free, non-overlapping, in-order partition” means of a
scan that hands a buffer over piece by piece.
-/

namespace Tiling

/-- `Tiles a b segs`: the segments of `segs`, in order, partition `[a, b)`. -/
def Tiles : ℕ → ℕ → List (ℕ × ℕ) → Prop
  | a, b, [] => a = b
  | a, b, (off, len) :: segs => off = a ∧ Tiles (a + len) b segs

@[simp] theorem tiles_nil {a b : ℕ} : Tiles a b [] ↔ a = b := Iff.rfl

@[simp] theorem tiles_cons {a b off len : ℕ} {segs : List (ℕ × ℕ)} :
    Tiles a b ((off, len) :: segs) ↔ off = a ∧ Tiles (a + len) b segs := Iff.rfl

/-- **A tiling is extended at its right end.** -/
theorem Tiles.snoc {a b : ℕ} {segs : List (ℕ × ℕ)} (h : Tiles a b segs) (len : ℕ) :
    Tiles a (b + len) (segs ++ [(b, len)]) := by
  induction segs generalizing a with
  | nil =>
    obtain rfl : a = b := h
    simp
  | cons s segs ih =>
    obtain ⟨off, l⟩ := s
    obtain ⟨rfl, h⟩ := h
    exact ⟨rfl, ih h⟩

/-- The lengths of a tiling add up to the length of the interval. -/
theorem Tiles.sum_eq {a b : ℕ} {segs : List (ℕ × ℕ)} (h : Tiles a b segs) :
    a + (segs.map Prod.snd).sum = b := by
  induction segs generalizing a with
  | nil => simpa using h
  | cons s segs ih =>
    obtain ⟨off, l⟩ := s
    obtain ⟨rfl, h⟩ := h
    have := ih h
    simp only [List.map_cons, List.sum_cons]
    omega

/-- The segments are inside the interval. -/
theorem Tiles.mem_le {a b : ℕ} {segs : List (ℕ × ℕ)} (h : Tiles a b segs) {s : ℕ × ℕ}
    (hs : s ∈ segs) : a ≤ s.1 ∧ s.1 + s.2 ≤ b := by
  induction segs generalizing a with
  | nil => exact absurd hs List.not_mem_nil
  | cons s' segs ih =>
    obtain ⟨off, l⟩ := s'
    obtain ⟨rfl, h⟩ := h
    rcases List.mem_cons.mp hs with rfl | hs
    · exact ⟨le_rfl, h.sum_eq ▸ Nat.le_add_right _ _⟩
    · obtain ⟨hle, hend⟩ := ih h hs
      exact ⟨by omega, hend⟩

/-- The last segment ends where the interval does. -/
theorem Tiles.end_eq {a b : ℕ} {segs : List (ℕ × ℕ)} {last : ℕ × ℕ}
    (h : Tiles a b (segs ++ [last])) : last.1 + last.2 = b := by
  induction segs generalizing a with
  | nil =>
    obtain ⟨rfl, hend⟩ := h
    exact hend
  | cons s segs ih =>
    obtain ⟨off, l⟩ := s
    exact ih h.2

/-- **Segments of one length** start at its multiples; the last one may be of another length. -/
theorem Tiles.offset_eq {a b m : ℕ} {segs : List (ℕ × ℕ)} {last : ℕ × ℕ}
    (h : Tiles a b (segs ++ [last])) (hm : ∀ s ∈ segs, s.2 = m) {s : ℕ × ℕ}
    (hs : s ∈ segs ++ [last]) : ∃ k, s.1 = a + m * k := by
  induction segs generalizing a with
  | nil =>
    obtain ⟨off, l⟩ := last
    obtain rfl := List.mem_singleton.mp hs
    exact ⟨0, h.1⟩
  | cons s' segs ih =>
    obtain ⟨off, l⟩ := s'
    obtain ⟨rfl, h⟩ := h
    obtain rfl : l = m := hm _ List.mem_cons_self
    rcases List.mem_cons.mp hs with rfl | hs
    · exact ⟨0, rfl⟩
    · obtain ⟨k, hk⟩ := ih h (fun t ht => hm t (List.mem_cons_of_mem _ ht)) hs
      exact ⟨k + 1, by rw [hk, Nat.mul_succ]; omega⟩

/-- **Every point of the interval is in one segment**, and none outside it is in any:
the number of segments containing a point is one inside the interval and zero
outside. -/
theorem Tiles.countP_eq {a b : ℕ} {segs : List (ℕ × ℕ)} (h : Tiles a b segs) (x : ℕ) :
    segs.countP (fun s => decide (s.1 ≤ x ∧ x < s.1 + s.2)) = if a ≤ x ∧ x < b then 1 else 0 := by
  induction segs generalizing a with
  | nil =>
    obtain rfl : a = b := h
    simp
  | cons s segs ih =>
    obtain ⟨off, l⟩ := s
    obtain ⟨rfl, h⟩ := h
    have hsum := h.sum_eq
    rw [List.countP_cons, ih h]
    simp only [decide_eq_true_eq]
    split_ifs <;> omega

variable {α : Type*}

/-- The piece of a list that a segment names. -/
def slice (l : List α) (s : ℕ × ℕ) : List α := (l.drop s.1).take s.2

/-- **The pieces of a tiling, put together, are the interval.** -/
theorem Tiles.flatten_slice {a b : ℕ} {segs : List (ℕ × ℕ)} (h : Tiles a b segs) (l : List α) :
    (segs.map (slice l)).flatten = (l.drop a).take (b - a) := by
  induction segs generalizing a with
  | nil =>
    obtain rfl : a = b := h
    simp
  | cons s segs ih =>
    obtain ⟨off, n⟩ := s
    obtain ⟨rfl, h⟩ := h
    have hsum := h.sum_eq
    have hb : b - off = n + (b - (off + n)) := by omega
    rw [List.map_cons, List.flatten_cons, ih h, hb, List.take_add, slice, List.drop_drop]

end Tiling
