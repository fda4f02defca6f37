import Mathlib.Data.Finset.Interval
import Mathlib.Order.Interval.Finset.Nat
import StyxWire.Lib.Tiling

/-!
# Reassembly of fragments

A receiver puts the data of each fragment where the fragment says it goes, and takes the length
of the whole from the fragment that has no more behind it; the reassembly succeeds when no place
is left without data.

Fragments whose places tile the whole, each with the data that belongs there, reassemble to it
(`Reassembly.reassemble_eq`). Fragments that share a place cover less than what they carry, so
what they reassemble to, if anything, is shorter (`Reassembly.length_lt_of_overlap`).
-/

namespace Reassembly

open Tiling

variable {α : Type*}

/-- A fragment: where its data goes, whether there are more behind it, and the data. -/
structure Fragment (α : Type*) where
  offset : ℕ
  more : Bool
  data : List α
  deriving DecidableEq

/-- The place of a fragment, as a segment. -/
def Fragment.seg (f : Fragment α) : ℕ × ℕ := (f.offset, f.data.length)

/-- The places a fragment has data for. -/
def Fragment.Covers (f : Fragment α) (i : ℕ) : Prop :=
  f.offset ≤ i ∧ i < f.offset + f.data.length

/-- The data of a fragment is put into the buffer. -/
def Fragment.place (buffer : ℕ → Option α) (f : Fragment α) : ℕ → Option α := fun i =>
  if f.offset ≤ i ∧ i < f.offset + f.data.length then f.data[i - f.offset]? else buffer i

/-- The buffer, after all the fragments. -/
def fill (fs : List (Fragment α)) (buffer : ℕ → Option α) : ℕ → Option α :=
  fs.foldl Fragment.place buffer

/-- The length of the whole: the end of the fragment that has no more behind it. -/
def totalLength (fs : List (Fragment α)) : Option ℕ :=
  (fs.find? fun f => !f.more).map fun f => f.offset + f.data.length

/-- **Reassembly**: the buffer is read as far as the whole goes, and every place of it is to
have got its data. -/
def reassemble (fs : List (Fragment α)) : Option (List α) :=
  (totalLength fs).bind fun n => (List.range n).mapM (fill fs fun _ => none)

/-- A place that no fragment covers is left as it was. -/
theorem fill_of_not_covers {fs : List (Fragment α)} {i : ℕ} (h : ∀ f ∈ fs, ¬f.Covers i)
    (buffer : ℕ → Option α) : fill fs buffer i = buffer i := by
  induction fs generalizing buffer with
  | nil => rfl
  | cons f fs ih =>
    have hplace : f.place buffer i = buffer i := if_neg (h f List.mem_cons_self)
    rw [fill, List.foldl_cons, ← fill, ih (fun g hg => h g (List.mem_cons_of_mem f hg)), hplace]

/-- **A place that is covered holds what belongs there**, if all the fragments carry what belongs
to their places. -/
theorem fill_of_covers {fs : List (Fragment α)} {l : List α}
    (hdata : ∀ f ∈ fs, f.data = slice l f.seg) {i : ℕ} (h : ∃ f ∈ fs, f.Covers i)
    (buffer : ℕ → Option α) : fill fs buffer i = l[i]? := by
  induction fs generalizing buffer with
  | nil =>
    obtain ⟨f, hf, -⟩ := h
    exact absurd hf List.not_mem_nil
  | cons f fs ih =>
    rw [fill, List.foldl_cons, ← fill]
    have hdata' : ∀ g ∈ fs, g.data = slice l g.seg := fun g hg =>
      hdata g (List.mem_cons_of_mem f hg)
    by_cases hrest : ∃ g ∈ fs, g.Covers i
    · exact ih hdata' hrest _
    · -- The first fragment is the one that covers the place, and none writes there after it.
      have hf : f.Covers i := by
        obtain ⟨g, hg, hcov⟩ := h
        rcases List.mem_cons.mp hg with rfl | hg
        · exact hcov
        · exact absurd ⟨g, hg, hcov⟩ hrest
      have hplace : f.place buffer i = f.data[i - f.offset]? := if_pos hf
      obtain ⟨hle, hlt⟩ := hf
      rw [fill_of_not_covers (fun g hg hcov => hrest ⟨g, hg, hcov⟩), hplace,
        hdata f List.mem_cons_self, slice, Fragment.seg, List.getElem?_take_of_lt (by omega),
        List.getElem?_drop, Nat.add_sub_cancel' hle]

/-- The last fragment of a run tells the length. -/
theorem totalLength_append {fs : List (Fragment α)} {last : Fragment α}
    (hfs : ∀ f ∈ fs, f.more = true) (hlast : last.more = false) :
    totalLength (fs ++ [last]) = some (last.offset + last.data.length) := by
  have hnone : fs.find? (fun f => !f.more) = none := by
    rw [List.find?_eq_none]
    intro f hf
    simp [hfs f hf]
  rw [totalLength, List.find?_append, hnone, Option.none_or, List.find?_singleton, hlast]
  rfl

/-- Running along a list, with a result at each of its elements. -/
theorem mapM_eq_some_iff {β : Type*} {f : β → Option α} {xs : List β} {ys : List α} :
    xs.mapM f = some ys ↔ xs.map f = ys.map some := by
  induction xs generalizing ys with
  | nil =>
    rw [List.mapM_nil, List.map_nil, Option.pure_def, Option.some.injEq, eq_comm]
    exact (List.map_eq_nil_iff.symm.trans eq_comm)
  | cons x xs ih =>
    rw [List.mapM_cons, List.map_cons]
    constructor
    · intro h
      obtain ⟨y, hy, h⟩ := Option.bind_eq_some_iff.mp h
      obtain ⟨zs, hzs, h⟩ := Option.bind_eq_some_iff.mp h
      obtain rfl : y :: zs = ys := Option.some.inj h
      rw [hy, ih.mp hzs, List.map_cons]
    · intro h
      cases ys with
      | nil => exact absurd h (List.cons_ne_nil _ _)
      | cons y ys =>
        obtain ⟨hy, hys⟩ := List.cons.inj h
        rw [hy, ih.mpr hys]
        rfl

/-- What a list is reassembled from: the length is told, and the buffer holds the list. -/
theorem reassemble_eq_some_iff {fs : List (Fragment α)} {l : List α} :
    reassemble fs = some l ↔
      totalLength fs = some l.length ∧ ∀ i < l.length, fill fs (fun _ => none) i = l[i]? := by
  have hmap : ∀ n (buffer : ℕ → Option α), (List.range n).map buffer = l.map some ↔
      n = l.length ∧ ∀ i < l.length, buffer i = l[i]? := by
    intro n buffer
    constructor
    · intro h
      have hn : n = l.length := by simpa using congrArg List.length h
      refine ⟨hn, fun i hi => ?_⟩
      have hget := congrArg (fun xs => xs[i]?) h
      simpa [hn, hi] using hget
    · rintro ⟨rfl, h⟩
      refine List.ext_getElem (by simp) fun i hi hi' => ?_
      have hlt : i < l.length := by simpa using hi'
      simpa [hlt] using h i hlt
  rw [reassemble, Option.bind_eq_some_iff]
  constructor
  · rintro ⟨n, hn, h⟩
    obtain ⟨rfl, hfill⟩ := (hmap _ _).mp (mapM_eq_some_iff.mp h)
    exact ⟨hn, hfill⟩
  · rintro ⟨hn, hfill⟩
    exact ⟨_, hn, mapM_eq_some_iff.mpr ((hmap _ _).mpr ⟨rfl, hfill⟩)⟩

/-- **Fragments that tile a list reassemble to it.** -/
theorem reassemble_eq {fs : List (Fragment α)} {last : Fragment α} {l : List α}
    (hfs : ∀ f ∈ fs, f.more = true) (hlast : last.more = false)
    (htiles : Tiles 0 l.length ((fs ++ [last]).map Fragment.seg))
    (hdata : ∀ f ∈ fs ++ [last], f.data = slice l f.seg) : reassemble (fs ++ [last]) = some l := by
  refine reassemble_eq_some_iff.mpr ⟨?_, fun i hi => ?_⟩
  · -- The last segment of a tiling ends where the whole does.
    rw [totalLength_append hfs hlast]
    rw [List.map_append, List.map_singleton] at htiles
    exact congrArg some htiles.end_eq
  · refine fill_of_covers hdata ?_ _
    have hcount := htiles.countP_eq i
    rw [if_pos ⟨Nat.zero_le i, hi⟩] at hcount
    obtain ⟨s, hs, hcov⟩ := List.countP_pos_iff.mp (hcount ▸ Nat.one_pos)
    obtain ⟨f, hf, rfl⟩ := List.mem_map.mp hs
    rw [decide_eq_true_eq] at hcov
    exact ⟨f, hf, hcov⟩

/-! ### Fragments that overlap -/

/-- The places that some fragment covers. -/
def covered (fs : List (Fragment α)) : Finset ℕ :=
  fs.foldr (fun f places => Finset.Ico f.offset (f.offset + f.data.length) ∪ places) ∅

theorem mem_covered {fs : List (Fragment α)} {i : ℕ} : i ∈ covered fs ↔ ∃ f ∈ fs, f.Covers i := by
  induction fs with
  | nil => simp [covered]
  | cons f fs ih =>
    rw [covered, List.foldr_cons, ← covered, Finset.mem_union, ih, Finset.mem_Ico]
    simp only [List.mem_cons, exists_eq_or_imp]
    rfl

/-- Fragments cover no more places than they have data. -/
theorem card_covered_le (fs : List (Fragment α)) :
    (covered fs).card ≤ (fs.map fun f => f.data.length).sum := by
  induction fs with
  | nil => simp [covered]
  | cons f fs ih =>
    have hunion := Finset.card_union_le (Finset.Ico f.offset (f.offset + f.data.length)) (covered fs)
    rw [Nat.card_Ico] at hunion
    rw [covered, List.foldr_cons, ← covered, List.map_cons, List.sum_cons]
    omega

/-- **Fragments that share a place** are too few for as much as they carry. -/
theorem length_lt_of_overlap {f g : Fragment α} {fs : List (Fragment α)} {l : List α} {i : ℕ}
    (h : reassemble (f :: g :: fs) = some l) (hf : f.Covers i) (hg : g.Covers i) :
    l.length < ((f :: g :: fs).map fun f => f.data.length).sum := by
  obtain ⟨-, hfill⟩ := reassemble_eq_some_iff.mp h
  have hsub : Finset.range l.length ⊆ covered (f :: g :: fs) := by
    intro j hj
    rw [Finset.mem_range] at hj
    by_contra hnot
    have hempty := fill_of_not_covers
      (fun k hk hcov => hnot (mem_covered.mpr ⟨k, hk, hcov⟩)) (fun _ => none)
    rw [hfill j hj, List.getElem?_eq_getElem hj] at hempty
    exact Option.some_ne_none _ hempty
  have hcard := Finset.card_le_card hsub
  have hrest := card_covered_le (g :: fs)
  have hinter : 0 < (Finset.Ico f.offset (f.offset + f.data.length) ∩ covered (g :: fs)).card :=
    Finset.card_pos.mpr ⟨i, Finset.mem_inter.mpr
      ⟨Finset.mem_Ico.mpr hf, mem_covered.mpr ⟨g, List.mem_cons_self, hg⟩⟩⟩
  have hunion := Finset.card_union_add_card_inter
    (Finset.Ico f.offset (f.offset + f.data.length)) (covered (g :: fs))
  rw [Nat.card_Ico] at hunion
  rw [Finset.card_range, covered, List.foldr_cons, ← covered] at hcard
  rw [List.map_cons, List.sum_cons]
  omega

end Reassembly
