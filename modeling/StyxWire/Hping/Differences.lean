import Mathlib.Data.Int.ModEq
import Mathlib.Data.List.Chain
import StyxWire.Hping.OutputFormat

/-!
# Differences of numbers that wrap

Two counters of a remote host are told by their differences: the id of its datagrams
(`relativize_id`, of 16 bits) and the sequence numbers of its segments (`--seqnum`, of 32 bits).
Both functions have a branch of their own for a number that is below the last one, and there the
difference that they make is one too small.

For the ids this is lost in a division, unless the difference is a multiple of what it is divided
by (`StyxWire.Hping.relativizeId_consistent_iff`); for the sequence numbers it always shows
(`StyxWire.Hping.seqnum_telescopes_iff`).
-/

namespace StyxWire.Hping

/-! ### Relative ids -/

/-- What `relativize_id` remembers, and the counter that it keeps. -/
structure RelState where
  lastSeq : Int32
  /-- -1 before the first reply. -/
  lastId : ℤ
  outOfSequence : ℕ

/-- Before the first reply. -/
def RelState.init : RelState := ⟨0, -1, 0⟩

/-- What a reply tells: the sequence number of the probe, and the id of the datagram. -/
structure IdReply where
  seq : Int32
  ipId : UInt16

/-- `relativize_id`: the number that is reported, if the function returns `TRUE`. -/
def RelState.relativizeId (st : RelState) (r : IdReply) : Option ℤ × RelState :=
  if st.lastId = -1 then (none, { st with lastSeq := r.seq, lastId := r.ipId.toNat })
  else
    let seqDiff := (r.seq - st.lastSeq).toInt
    if 0 < seqDiff then
      (some (if st.lastId > r.ipId.toNat then (65535 - st.lastId + r.ipId.toNat).tdiv seqDiff
          else (r.ipId.toNat - st.lastId).tdiv seqDiff),
        { st with lastSeq := r.seq, lastId := r.ipId.toNat })
    else (none, { st with outOfSequence := st.outOfSequence + 1 })

/-- What is remembered after some replies. -/
def relAfter (replies : List IdReply) : RelState :=
  replies.foldl (fun st r => (st.relativizeId r).2) .init

/-- **A reply is told consistently**, after another one: what is reported is the difference of the
ids modulo `2 ^ 16`, divided by that of the sequence numbers, and a reply that is not newer is
counted and is not remembered. -/
structure RelState.Consistent (st : RelState) (r : IdReply) : Prop where
  reported : ∀ v, (st.relativizeId r).1 = some v →
    v = Int.fdiv ((r.ipId.toNat - st.lastId) % 65536) (r.seq.toInt - st.lastSeq.toInt) ∧
    (st.relativizeId r).2 = { st with lastSeq := r.seq, lastId := r.ipId.toNat }
  old : st.lastId ≠ -1 → r.seq.toInt ≤ st.lastSeq.toInt →
    (st.relativizeId r).1 = none ∧
    (st.relativizeId r).2 = { st with outOfSequence := st.outOfSequence + 1 }

/-- The sequence number has not gone back by more than `2 ^ 31`, and if the id has wrapped, the way
that it went is no multiple of the way of the sequence numbers. -/
structure RelState.Unwrapped (st : RelState) (r : IdReply) : Prop where
  back : st.lastSeq.toInt - r.seq.toInt ≤ 2 ^ 31
  id : 0 < r.seq.toInt - st.lastSeq.toInt → r.seq.toInt - st.lastSeq.toInt < 2 ^ 31 →
    r.ipId.toNat < st.lastId →
    ¬ r.seq.toInt - st.lastSeq.toInt ∣ 65536 - st.lastId + r.ipId.toNat

theorem relAfter_append (replies : List IdReply) (r : IdReply) :
    relAfter (replies ++ [r]) = ((relAfter replies).relativizeId r).2 := by
  rw [relAfter, List.foldl_append]
  rfl

/-- Where a quotient is lost with one that is taken from the dividend. -/
theorem sub_one_ediv_eq {a d : ℤ} (hd : 0 < d) : (a - 1) / d = a / d ↔ ¬ d ∣ a := by
  have hsplit := Int.emod_add_mul_ediv a d
  have hnonneg := Int.emod_nonneg a hd.ne'
  have hlt := Int.emod_lt_of_pos a hd
  rw [Int.dvd_iff_emod_eq_zero]
  rcases eq_or_ne (a % d) 0 with hzero | hpos
  · have hless : (a - 1) / d = a / d - 1 ∧ (a - 1) % d = d - 1 := by
      rw [Int.ediv_emod_unique hd, mul_sub]
      omega
    exact iff_of_false (by omega) (not_not.mpr hzero)
  · have hsame : (a - 1) / d = a / d ∧ (a - 1) % d = a % d - 1 := by
      rw [Int.ediv_emod_unique hd]
      omega
    exact iff_of_true hsame.1 hpos

section Step

variable {st : RelState} {r : IdReply}

theorem relativizeId_of_first (hid : st.lastId = -1) :
    st.relativizeId r = (none, { st with lastSeq := r.seq, lastId := r.ipId.toNat }) := by
  rw [RelState.relativizeId, if_pos hid]

theorem relativizeId_of_newer (hid : st.lastId ≠ -1) (h : 0 < (r.seq - st.lastSeq).toInt) :
    st.relativizeId r =
      (some (if st.lastId > r.ipId.toNat then
          (65535 - st.lastId + r.ipId.toNat).tdiv (r.seq - st.lastSeq).toInt
        else (r.ipId.toNat - st.lastId).tdiv (r.seq - st.lastSeq).toInt),
      { st with lastSeq := r.seq, lastId := r.ipId.toNat }) := by
  rw [RelState.relativizeId, if_neg hid]
  exact if_pos h

theorem relativizeId_of_not_newer (hid : st.lastId ≠ -1)
    (h : ¬ 0 < (r.seq - st.lastSeq).toInt) :
    st.relativizeId r = (none, { st with outOfSequence := st.outOfSequence + 1 }) := by
  rw [RelState.relativizeId, if_neg hid]
  exact if_neg h

/-- The difference of two numbers of 32 bits as it is subtracted. -/
theorem toInt_seq_sub :
    (r.seq.toInt - st.lastSeq.toInt < -2 ^ 31 ∧ 0 < (r.seq - st.lastSeq).toInt) ∨
    (-2 ^ 31 ≤ r.seq.toInt - st.lastSeq.toInt ∧ r.seq.toInt - st.lastSeq.toInt < 2 ^ 31 ∧
      (r.seq - st.lastSeq).toInt = r.seq.toInt - st.lastSeq.toInt) ∨
    (2 ^ 31 ≤ r.seq.toInt - st.lastSeq.toInt ∧ (r.seq - st.lastSeq).toInt < 0) := by
  have hseq := r.seq.toInt_lt
  have hseq' := r.seq.le_toInt
  have hlseq := st.lastSeq.toInt_lt
  have hlseq' := st.lastSeq.le_toInt
  rw [Int32.toInt_sub, Int.bmod_def]
  omega

/-- What is reported for a reply that is newer. -/
theorem reported_iff (hlast : 0 ≤ st.lastId ∧ st.lastId < 65536) {d : ℤ} (hd : 0 < d) :
    (if st.lastId > r.ipId.toNat then (65535 - st.lastId + r.ipId.toNat).tdiv d
      else (r.ipId.toNat - st.lastId).tdiv d) = Int.fdiv ((r.ipId.toNat - st.lastId) % 65536) d ↔
    (r.ipId.toNat < st.lastId → ¬ d ∣ 65536 - st.lastId + r.ipId.toNat) := by
  have h16 := r.ipId.toNat_lt
  rw [Int.fdiv_eq_ediv_of_nonneg _ hd.le]
  split_ifs with hrew
  · have hmod : (r.ipId.toNat - st.lastId) % 65536 = 65536 - st.lastId + r.ipId.toNat := by omega
    have hless : 65535 - st.lastId + r.ipId.toNat = 65536 - st.lastId + r.ipId.toNat - 1 := by
      omega
    rw [Int.tdiv_eq_ediv_of_nonneg (by omega), hmod, hless, sub_one_ediv_eq hd]
    exact ⟨fun h _ => h, fun h => h hrew⟩
  · have hmod : (r.ipId.toNat - st.lastId) % 65536 = r.ipId.toNat - st.lastId := by omega
    rw [Int.tdiv_eq_ediv_of_nonneg (by omega), hmod]
    exact iff_of_true rfl fun h => absurd h hrew

theorem RelState.consistent_iff (hlast : 0 ≤ st.lastId ∧ st.lastId < 65536) :
    st.Consistent r ↔ st.Unwrapped r := by
  have hid : st.lastId ≠ -1 := by omega
  have hsub := @toInt_seq_sub st r
  by_cases hnewer : 0 < (r.seq - st.lastSeq).toInt
  · have hdone := relativizeId_of_newer hid hnewer
    constructor
    · intro h
      have hback : 0 < r.seq.toInt - st.lastSeq.toInt := by
        by_contra hle
        have hold := (h.old hid (by omega)).1
        rw [hdone] at hold
        cases hold
      have hdiff : (r.seq - st.lastSeq).toInt = r.seq.toInt - st.lastSeq.toInt := by omega
      refine ⟨by omega, fun _ _ => ?_⟩
      have hreported := (h.reported _ (by rw [hdone])).1
      rw [hdiff] at hreported
      exact (reported_iff hlast hback).mp hreported
    · intro h
      have hback := h.back
      have hdiff : (r.seq - st.lastSeq).toInt = r.seq.toInt - st.lastSeq.toInt := by omega
      refine ⟨fun v hv => ?_, fun _ hle => by omega⟩
      rw [hdone, Option.some.injEq] at hv
      refine ⟨?_, by rw [hdone]⟩
      rw [← hv, hdiff]
      exact (reported_iff hlast (by omega)).mpr (h.id (by omega) (by omega))
  · have hdone := relativizeId_of_not_newer hid hnewer
    refine iff_of_true ⟨fun v hv => ?_, fun _ _ => ?_⟩ ⟨by omega, fun hpos hlt => by omega⟩
    · rw [hdone] at hv
      cases hv
    · rw [hdone]
      exact ⟨rfl, rfl⟩

end Step

/-- An id that is remembered has 16 bits. -/
theorem lastId_relAfter (replies : List IdReply) :
    (relAfter replies).lastId = -1 ∨
      0 ≤ (relAfter replies).lastId ∧ (relAfter replies).lastId < 65536 := by
  induction replies using List.reverseRecOn with
  | nil => exact Or.inl rfl
  | append_singleton replies r ih =>
    have hkept : 0 ≤ (r.ipId.toNat : ℤ) ∧ (r.ipId.toNat : ℤ) < 65536 := by
      have h16 := r.ipId.toNat_lt
      omega
    rw [relAfter_append]
    by_cases hid : (relAfter replies).lastId = -1
    · rw [relativizeId_of_first hid]
      exact Or.inr hkept
    by_cases hnewer : 0 < (r.seq - (relAfter replies).lastSeq).toInt
    · rw [relativizeId_of_newer hid hnewer]
      exact Or.inr hkept
    · rw [relativizeId_of_not_newer hid hnewer]
      exact ih

/-- **When ids are told consistently**, in every sequence of replies: none of them goes back by
more than `2 ^ 31`, and where the id wraps the division is one with a remainder. -/
theorem relativizeId_consistent_iff (replies : List IdReply) :
    (∀ before r after, replies = before ++ r :: after → (relAfter before).Consistent r) ↔
      ∀ before r after, replies = before ++ r :: after → (relAfter before).lastId ≠ -1 →
        (relAfter before).Unwrapped r := by
  have hstep : ∀ before r, (relAfter before).Consistent r ↔
      ((relAfter before).lastId ≠ -1 → (relAfter before).Unwrapped r) := by
    intro before r
    rcases lastId_relAfter before with hfirst | hlast
    · refine iff_of_true ⟨fun v hv => ?_, fun hid => absurd hfirst hid⟩ fun hid => absurd hfirst hid
      rw [relativizeId_of_first hfirst] at hv
      cases hv
    · rw [RelState.consistent_iff hlast]
      exact ⟨fun h _ => h, fun h => h (by omega)⟩
  exact forall₃_congr fun before r after => imp_congr_right fun _ => hstep before r

/-- From 65535 to 0 is 0. -/
theorem relativizeId_inconsistent :
    ¬ ∀ before r after, [⟨1, 65535⟩, ⟨2, 0⟩] = before ++ r :: after →
      (relAfter before).Consistent r := by
  intro h
  have hreported := ((h [⟨1, 65535⟩] ⟨2, 0⟩ [] rfl).reported 0 (by decide)).1
  exact absurd hreported (by decide)

/-- Without an overflow, what is remembered and counted is what `Probing` has of it. -/
theorem Probing.relativizeId_eq {u : Probing} {st : RelState} {r : IdReply}
    (hseq : u.lastSeq = st.lastSeq.toInt) (hid : u.lastId = st.lastId)
    (hcount : u.outOfSequence = st.outOfSequence)
    (hlow : -2 ^ 31 ≤ r.seq.toInt - st.lastSeq.toInt)
    (hhigh : r.seq.toInt - st.lastSeq.toInt < 2 ^ 31) :
    (u.relativizeId r.seq.toInt r.ipId.toNat).lastSeq = (st.relativizeId r).2.lastSeq.toInt ∧
      (u.relativizeId r.seq.toInt r.ipId.toNat).lastId = (st.relativizeId r).2.lastId ∧
      (u.relativizeId r.seq.toInt r.ipId.toNat).outOfSequence =
        (st.relativizeId r).2.outOfSequence := by
  have hsub := @toInt_seq_sub st r
  rw [Probing.relativizeId, hseq, hid]
  by_cases hfirst : st.lastId = -1
  · rw [relativizeId_of_first hfirst, if_pos (Or.inl hfirst)]
    exact ⟨rfl, rfl, hcount⟩
  by_cases hnewer : 0 < (r.seq - st.lastSeq).toInt
  · rw [relativizeId_of_newer hfirst hnewer, if_pos (Or.inr (by omega))]
    exact ⟨rfl, rfl, hcount⟩
  · rw [relativizeId_of_not_newer hfirst hnewer, if_neg (not_or.mpr ⟨hfirst, by omega⟩)]
    exact ⟨rfl, rfl, congrArg (· + 1) hcount⟩

/-! ### Sequence numbers -/

/-- `seq_diff` of `--seqnum`. -/
def seqDiff (oldThSeq tmp : UInt32) : UInt32 :=
  if oldThSeq ≤ tmp then tmp - oldThSeq else 4294967295 - oldThSeq + tmp

/-- The differences that are printed, with the sequence number that was seen last. -/
def printedDiffs (oldThSeq : UInt32) : List UInt32 → List UInt32
  | [] => []
  | tmp :: rest => seqDiff oldThSeq tmp :: printedDiffs tmp rest

/-- **The differences telescope**: those that are printed after the first reply, with the sequence
number `first`, are the differences modulo `2 ^ 32`, and their sum is that of the last and the
first number. -/
structure Telescopes (first : UInt32) (rest : List UInt32) : Prop where
  each : (printedDiffs 0 (first :: rest)).tail = List.zipWith (· - ·) rest (first :: rest)
  sum : (((printedDiffs 0 (first :: rest)).tail.map UInt32.toNat).sum : ℤ) ≡
    (rest.getLastD first).toNat - first.toNat [ZMOD 2 ^ 32]

theorem seqDiff_eq_iff (oldThSeq tmp : UInt32) :
    seqDiff oldThSeq tmp = tmp - oldThSeq ↔ oldThSeq ≤ tmp := by
  rw [seqDiff]
  split_ifs with hle
  · exact iff_of_true rfl hle
  · refine iff_of_false (fun h => ?_) hle
    have hmax : (4294967295 : UInt32).toNat = 4294967295 := rfl
    have hnat := congrArg UInt32.toNat h
    rw [UInt32.toNat_add, UInt32.toNat_sub, UInt32.toNat_sub, hmax] at hnat
    rw [UInt32.le_iff_toNat_le] at hle
    have hold := oldThSeq.toNat_lt
    omega

theorem printedDiffs_eq_iff (first : UInt32) (rest : List UInt32) :
    printedDiffs first rest = List.zipWith (· - ·) rest (first :: rest) ↔
      (first :: rest).IsChain (· ≤ ·) := by
  induction rest generalizing first with
  | nil => exact iff_of_true rfl (List.isChain_singleton first)
  | cons s rest ih =>
    rw [printedDiffs, List.zipWith_cons_cons, List.cons.injEq, ih, seqDiff_eq_iff,
      List.isChain_cons_cons]

/-- Differences modulo `2 ^ 32` telescope. -/
theorem sum_differences (first : UInt32) (rest : List UInt32) :
    (((List.zipWith (· - ·) rest (first :: rest)).map UInt32.toNat).sum : ℤ) ≡
      (rest.getLastD first).toNat - first.toNat [ZMOD 2 ^ 32] := by
  induction rest generalizing first with
  | nil =>
    rw [List.getLastD_nil, sub_self]
    exact Int.ModEq.refl 0
  | cons s rest ih =>
    have hs : ((s - first).toNat : ℤ) ≡ s.toNat - first.toNat [ZMOD 2 ^ 32] := by
      have hlt := first.toNat_lt
      rw [UInt32.toNat_sub, Int.ModEq]
      omega
    rw [List.zipWith_cons_cons, List.map_cons, List.sum_cons, List.getLastD_cons, Nat.cast_add]
    have hsum := hs.add (ih s)
    rwa [sub_add_sub_comm, add_comm (s.toNat : ℤ), add_sub_add_right_eq_sub] at hsum

/-- **The differences telescope exactly if no sequence number is below the one before it.** -/
theorem seqnum_telescopes_iff (first : UInt32) (rest : List UInt32) :
    Telescopes first rest ↔ (first :: rest).IsChain (· ≤ ·) := by
  rw [← printedDiffs_eq_iff]
  constructor
  · exact fun h => h.each
  · intro h
    have htail : (printedDiffs 0 (first :: rest)).tail =
        List.zipWith (· - ·) rest (first :: rest) := h
    exact ⟨htail, htail ▸ sum_differences first rest⟩

/-- From `2 ^ 32 - 1` to 0 is 0. -/
theorem seqnum_not_telescopes : ¬ Telescopes 4294967295 [0] := by
  intro h
  exact absurd h.each (by decide)

end StyxWire.Hping
