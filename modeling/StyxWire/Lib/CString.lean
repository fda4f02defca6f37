import Mathlib.Data.List.Basic

/-!
# Strings in a block of memory

A block of memory is the list of its bytes, and a string in it ends with the first NUL. What a
program does with one is to go along it and to write behind what it has written: `Mem.put` is a
write at a place that moves on, which is an error behind the end of the block, and a run of such
writes succeeds exactly if there is room for all of them (`Mem.foldlM_put`).
-/

namespace Mem

variable {ε : Type*} {α : Type}

/-- `*d++ = c`: a block and a place in it. -/
def put (fault : ε) (out : List α × ℕ) (c : α) : Except ε (List α × ℕ) :=
  if out.2 < out.1.length then .ok (out.1.set out.2 c, out.2 + 1) else .error fault

theorem put_append (fault : ε) (done : List α) (x : α) (rest : List α) (c : α) :
    put fault (done ++ x :: rest, done.length) c =
      .ok ((done ++ [c]) ++ rest, (done ++ [c]).length) := by
  rw [put, if_pos (by simp), List.set_append_right _ _ (Nat.le_refl _), Nat.sub_self,
    List.set_cons_zero, List.append_assoc, List.length_append]
  rfl

/-- **What is written fits or does not**: it goes behind what is written already. -/
theorem foldlM_put (fault : ε) (cs done rest : List α) :
    cs.foldlM (put fault) (done ++ rest, done.length) =
      if cs.length ≤ rest.length then
        .ok (done ++ cs ++ rest.drop cs.length, (done ++ cs).length)
      else .error fault := by
  induction cs generalizing done rest with
  | nil => simp [pure, Except.pure]
  | cons c cs ih =>
    rw [List.foldlM_cons]
    cases rest with
    | nil =>
      rw [put, if_neg (by simp), if_neg (by simp)]
      rfl
    | cons x rest =>
      have hrest := ih (done ++ [c]) rest
      rw [put_append]
      refine hrest.trans ?_
      simp only [List.length_cons, Nat.succ_le_succ_iff, List.drop_succ_cons, List.append_assoc,
        List.singleton_append]

/-- A stretch of a block. -/
def readAt (fault : ε) (mem : List α) (i n : ℕ) : Except ε (List α) :=
  if i + n ≤ mem.length then .ok ((mem.drop i).take n) else .error fault

/-- `strlen`. Without a NUL, bytes behind the block are read. -/
def strlen [OfNat α 0] [DecidableEq α] (fault : ε) (s : List α) : Except ε ℕ :=
  match s.findIdx? (· = 0) with
  | some n => .ok n
  | none => .error fault

theorem strlen_append [OfNat α 0] [DecidableEq α] (fault : ε) {s : List α} (hs : (0 : α) ∉ s)
    (rest : List α) : strlen fault (s ++ 0 :: rest) = .ok s.length := by
  have hfind : (s ++ 0 :: rest).findIdx? (· = 0) = some s.length := by
    rw [List.findIdx?_append, List.findIdx?_eq_none_iff.mpr fun c hc => by
      simpa using fun hzero : c = 0 => hs (hzero ▸ hc)]
    simp [List.findIdx?_cons]
  rw [strlen, hfind]

/-- The string at a place, which ends with the first NUL behind it. -/
def StringAt [OfNat α 0] (mem : List α) (i : ℕ) (s : List α) : Prop :=
  (0 : α) ∉ s ∧ ∃ rest, mem.drop i = s ++ 0 :: rest

theorem stringAt_append [OfNat α 0] {s : List α} (hs : (0 : α) ∉ s) (done rest : List α) :
    StringAt (done ++ (s ++ 0 :: rest)) done.length s :=
  ⟨hs, rest, List.drop_left⟩

/-- There is one string at most at a place. -/
theorem StringAt.eq [OfNat α 0] [DecidableEq α] {mem : List α} {i : ℕ} {s t : List α}
    (hs : StringAt mem i s) (ht : StringAt mem i t) : s = t := by
  obtain ⟨hs, rest, hmem⟩ := hs
  obtain ⟨ht, rest', hmem'⟩ := ht
  have hlen : (Except.ok s.length : Except Unit ℕ) = .ok t.length := by
    rw [← strlen_append () hs rest, ← hmem, hmem', strlen_append () ht rest']
  rw [hmem] at hmem'
  exact (List.append_inj hmem' (Except.ok.inj hlen)).1

end Mem
