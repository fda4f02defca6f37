import Mathlib.Algebra.Order.Ring.Int
import Mathlib.Data.Fin.Tuple.Basic
import Mathlib.Data.Fintype.Card
import Mathlib.Data.Int.ModEq
import Mathlib.Tactic.Common
import Mathlib.Tactic.SplitIfs
import StyxWire.Lib.Events

/-!
# The delay table

The table of the probes that were sent last (`rtt.c`), and the counters that are kept of
the replies to them (`statistics.c`).

A probe is recorded in the slot that the index of the table names, modulo the size of the
table; the index is a C `int` and wraps. A reply is looked up by the sequence number it
carries, or – when that is zero, which is what is passed for a reply that carries none –
by the source port of the probe.

The slot is in the table for the first `2 ^ 31` probes, and not for the next one
(`StyxWire.Hping.delaytable_in_range`).

The counters have 64 bits in the source; here they are natural numbers.
-/

namespace StyxWire.Hping

/-! ### The table -/

/-- `TABLESIZE`. -/
def tablesize : ℕ := 400

/-- `S_SENT`, `S_RECV` and `S_UNKNOWN`. -/
inductive Status
  | sent
  | recv
  | unknown
  deriving DecidableEq, Repr

/-- `struct delaytable_element`. -/
structure DelaytableElement where
  /-- The sequence number of the probe. -/
  seq : ℤ
  /-- Its source port. -/
  src : ℤ
  /-- When it was sent. -/
  sentUs : ℤ
  /-- Whether it was answered. -/
  status : Status
  deriving DecidableEq, Repr

/-- `ctx.delaytable` and `ctx.delaytable_index`. -/
structure Delaytable where
  /-- The slots. -/
  slot : Fin tablesize → DelaytableElement
  /-- The index. -/
  index : ℤ

/-- What `hping_context_init` leaves in a slot: the block is zeroed, and `S_SENT` is zero. -/
def filler : DelaytableElement := ⟨-1, 0, 0, .sent⟩

/-- The table after `hping_context_init`. -/
def Delaytable.init : Delaytable := ⟨fun _ => filler, 0⟩

/-- The value of a signed 32-bit integer after it wrapped. -/
def int32 (x : ℤ) : ℤ := Int.bmod x (2 ^ 32)

theorem int32_eq {x : ℤ} (h0 : -2 ^ 31 ≤ x) (h1 : x < 2 ^ 31) : int32 x = x := by
  rw [int32]
  exact Int.bmod_eq_of_le (by omega) (by omega)

/-- `delaytable_add`, unless it writes outside the table. The remainder has the sign of the
index. -/
def Delaytable.add (t : Delaytable) (seq src : ℤ) (status : Status) (now : ℤ) :
    Option Delaytable :=
  if h : 0 ≤ t.index.tmod tablesize ∧ t.index.tmod tablesize < tablesize then
    some
      { slot := Function.update t.slot ⟨(t.index.tmod tablesize).toNat, by omega⟩
          ⟨seq, src, now, status⟩
        index := int32 (t.index + 1) }
  else none

/-- The slot that is found for a sequence number and a port. -/
def Delaytable.search (t : Delaytable) (seq recvport : ℤ) : Option (Fin tablesize) :=
  if seq ≠ 0 then Fin.find? fun i => (t.slot i).seq = seq
  else Fin.find? fun i => (t.slot i).src = recvport

/-- What `rtt` tells: the status, the sequence number, and the time that went by. -/
structure Rtt where
  /-- The return value. -/
  status : Status
  /-- `*seqp`. -/
  seq : ℤ
  /-- `*ms_delay`, in microseconds. -/
  elapsedUs : ℤ
  deriving DecidableEq, Repr

/-- `rtt`, and the table after it. -/
def Delaytable.rtt (t : Delaytable) (seq recvport now : ℤ) : Rtt × Delaytable :=
  match t.search seq recvport with
  | some i =>
    (⟨(t.slot i).status, if seq ≠ 0 then seq else (t.slot i).seq, max 0 (now - (t.slot i).sentUs)⟩,
      { t with slot := Function.update t.slot i { t.slot i with status := .recv } })
  | none => (⟨.unknown, seq, 0⟩, t)

/-! ### The rules -/

/-- **A probe is recorded** in the slot of its number, as long as the index has not wrapped. -/
theorem Delaytable.add_eq {t : Delaytable} {n : ℕ} (hindex : t.index = n) (hn : n < 2 ^ 31 - 1)
    (seq src : ℤ) (status : Status) (now : ℤ) :
    t.add seq src status now = some
      { slot := Function.update t.slot ⟨n % tablesize, Nat.mod_lt n (by decide)⟩
          ⟨seq, src, now, status⟩
        index := (n + 1 : ℕ) } := by
  have hmod : t.index.tmod tablesize = (n % tablesize : ℕ) := by
    rw [hindex]
    exact (Int.ofNat_tmod n tablesize).symm
  have hlt : n % tablesize < tablesize := Nat.mod_lt n (by decide)
  have hnext : int32 (t.index + 1) = (n + 1 : ℕ) := by
    rw [hindex, int32_eq (by omega) (by omega)]
    rfl
  have hslot : (⟨(t.index.tmod tablesize).toNat, by omega⟩ : Fin tablesize) =
      ⟨n % tablesize, hlt⟩ :=
    Fin.ext (show (t.index.tmod tablesize).toNat = n % tablesize by rw [hmod]; rfl)
  rw [add, dif_pos (by omega), hslot, hnext]

/-- The slot that is found is the first with the key. -/
theorem Delaytable.search_seq {t : Delaytable} {seq : ℤ} (h0 : seq ≠ 0) (recvport : ℤ)
    {i : Fin tablesize} :
    t.search seq recvport = some i ↔
      (t.slot i).seq = seq ∧ ∀ j < i, (t.slot j).seq ≠ seq := by
  rw [search, if_pos h0, Fin.find?_eq_some_iff]
  simp

theorem Delaytable.search_src {t : Delaytable} (recvport : ℤ) {i : Fin tablesize} :
    t.search 0 recvport = some i ↔
      (t.slot i).src = recvport ∧ ∀ j < i, (t.slot j).src ≠ recvport := by
  rw [search, if_neg (by decide), Fin.find?_eq_some_iff]
  simp

/-- A reply that is found. -/
theorem Delaytable.rtt_of_some {t : Delaytable} {seq recvport : ℤ} {i : Fin tablesize}
    (h : t.search seq recvport = some i) (now : ℤ) :
    t.rtt seq recvport now =
      (⟨(t.slot i).status, if seq ≠ 0 then seq else (t.slot i).seq,
          max 0 (now - (t.slot i).sentUs)⟩,
        { t with slot := Function.update t.slot i { t.slot i with status := .recv } }) := by
  rw [rtt, h]

/-- A reply that is not. -/
theorem Delaytable.rtt_of_none {t : Delaytable} {seq recvport : ℤ}
    (h : t.search seq recvport = none) (now : ℤ) :
    t.rtt seq recvport now = (⟨.unknown, seq, 0⟩, t) := by
  rw [rtt, h]

/-! ### Runs -/

/-- A call that uses the table. -/
inductive TableCall
  /-- `delaytable_add`. -/
  | add (seq src : ℤ) (status : Status) (now : ℤ)
  /-- `rtt`. -/
  | rtt (seq recvport now : ℤ)

/-- Whether it records a probe. -/
def TableCall.isAdd : TableCall → Bool
  | .add .. => true
  | .rtt .. => false

/-- The table after a call, unless it writes outside. -/
def Delaytable.call (t : Delaytable) : TableCall → Option Delaytable
  | .add seq src status now => t.add seq src status now
  | .rtt seq recvport now => some (t.rtt seq recvport now).2

theorem Delaytable.rtt_index (t : Delaytable) (seq recvport now : ℤ) :
    (t.rtt seq recvport now).2.index = t.index := by
  rw [rtt]
  cases t.search seq recvport with
  | none => rfl
  | some i => rfl

/-- A probe is recorded as long as the index has not wrapped. -/
theorem Delaytable.add_of_lt {t : Delaytable} {n : ℕ} (hindex : t.index = int32 n)
    (hn : n < 2 ^ 31) (seq src : ℤ) (status : Status) (now : ℤ) :
    ∃ t', t.add seq src status now = some t' ∧ t'.index = int32 (n + 1 : ℕ) := by
  rw [int32_eq (by omega) (by omega)] at hindex
  have hmod : t.index.tmod tablesize = (n % tablesize : ℕ) := by
    rw [hindex]
    exact (Int.ofNat_tmod n tablesize).symm
  have hlt : n % tablesize < tablesize := Nat.mod_lt n (by decide)
  refine ⟨_, dif_pos ⟨by omega, by omega⟩, ?_⟩
  dsimp only
  rw [hindex]
  rfl

/-- The one after that is not: the index is negative then, and so is its remainder. -/
theorem Delaytable.add_of_wrapped {t : Delaytable} (hindex : t.index = int32 (2 ^ 31 : ℕ))
    (seq src : ℤ) (status : Status) (now : ℤ) : t.add seq src status now = none := by
  have hneg : ¬ 0 ≤ t.index.tmod tablesize := by
    rw [hindex]
    decide
  exact dif_neg fun h => hneg h.1

/-- With `n` probes before the run, all the others of it are recorded if there is room. -/
theorem Delaytable.run_isSome {t : Delaytable} {n : ℕ} (hindex : t.index = int32 n)
    (hn : n ≤ 2 ^ 31) (calls : List TableCall) :
    (Events.run Delaytable.call t calls).isSome = true ↔
      n + calls.countP TableCall.isAdd ≤ 2 ^ 31 := by
  induction calls generalizing t n with
  | nil => exact iff_of_true rfl hn
  | cons c calls ih =>
    rw [Events.run_cons]
    cases c with
    | rtt seq recvport now =>
      rw [List.countP_cons_of_neg Bool.false_ne_true, call, Option.bind_some]
      exact ih ((rtt_index t seq recvport now).trans hindex) hn
    | add seq src status now =>
      rw [List.countP_cons_of_pos rfl, call]
      rcases Nat.lt_or_ge n (2 ^ 31) with hlt | hge
      · obtain ⟨t', hadd, hindex'⟩ := add_of_lt hindex hlt seq src status now
        rw [hadd, Option.bind_some, ih hindex' hlt]
        omega
      · obtain rfl : n = 2 ^ 31 := by omega
        rw [add_of_wrapped hindex]
        refine iff_of_false Bool.false_ne_true ?_
        omega

/-- **When no call writes outside of the table**: at most `2 ^ 31` probes are recorded. -/
theorem delaytable_in_range (calls : List TableCall) :
    (Events.run Delaytable.call Delaytable.init calls).isSome = true ↔
      calls.countP TableCall.isAdd ≤ 2 ^ 31 := by
  have hrun := Delaytable.run_isSome (n := 0) (show Delaytable.init.index = int32 (0 : ℕ) from rfl)
    (Nat.zero_le _) calls
  rwa [Nat.zero_add] at hrun

/-- A flood of `2 ^ 31 + 1` probes. -/
theorem delaytable_out_of_range :
    Events.run Delaytable.call Delaytable.init (List.replicate (2 ^ 31 + 1) (.add 0 0 .sent 0)) =
      none := by
  have hrun := Delaytable.run_isSome (n := 0) (show Delaytable.init.index = int32 (0 : ℕ) from rfl)
    (Nat.zero_le _) (List.replicate (2 ^ 31 + 1) (.add 0 0 .sent 0))
  have hadd : (TableCall.add 0 0 .sent 0).isAdd = true := rfl
  rw [List.countP_replicate, if_pos hadd, Nat.zero_add] at hrun
  exact Option.not_isSome_iff_eq_none.mp fun h => absurd (hrun.mp h) (by omega)

/-! ### The counters -/

/-- The counters of `struct hping_stats` that the replies are kept in. -/
structure HpingStats where
  /-- Probes that were sent. -/
  sent : ℕ
  /-- Replies. -/
  received : ℕ
  /-- Replies to a probe that was answered already. -/
  duplicates : ℕ
  /-- Replies of which no probe is known. -/
  unmatched : ℕ
  deriving DecidableEq, Repr

/-- `hping_stats_init`. -/
def HpingStats.init : HpingStats := ⟨0, 0, 0, 0⟩

/-- `hping_stats_on_sent`. -/
def HpingStats.onSent (s : HpingStats) : HpingStats := { s with sent := s.sent + 1 }

/-- `hping_stats_on_reply`. -/
def HpingStats.onReply (s : HpingStats) (status : Status) : HpingStats :=
  let s := { s with received := s.received + 1 }
  match status with
  | .recv => { s with duplicates := s.duplicates + 1 }
  | .unknown => { s with unmatched := s.unmatched + 1 }
  | .sent => s

/-- `hping_stats_unique`. -/
def HpingStats.unique (s : HpingStats) : ℕ :=
  let other := s.duplicates + s.unmatched
  if s.received > other then s.received - other else 0

/-- No reply is counted twice among those that are not unique. -/
structure HpingStats.Consistent (s : HpingStats) : Prop where
  le : s.duplicates + s.unmatched ≤ s.received

theorem HpingStats.consistent_init : HpingStats.init.Consistent := ⟨Nat.le_refl 0⟩

theorem HpingStats.Consistent.unique_eq {s : HpingStats} (h : s.Consistent) :
    s.unique = s.received - (s.duplicates + s.unmatched) := by
  have := h.le
  rw [unique]
  split_ifs
  · rfl
  · omega

theorem HpingStats.Consistent.onReply {s : HpingStats} (h : s.Consistent) (status : Status) :
    (s.onReply status).Consistent := by
  have := h.le
  cases status
  all_goals exact ⟨by simp only [HpingStats.onReply]; omega⟩

/-- **A reply is unique** if it is the first to its probe. -/
theorem HpingStats.Consistent.unique_onReply {s : HpingStats} (h : s.Consistent) (status : Status) :
    (s.onReply status).unique = s.unique + if status = .sent then 1 else 0 := by
  have hle := h.le
  rw [(h.onReply status).unique_eq, h.unique_eq]
  cases status with
  | sent => simp only [HpingStats.onReply, if_pos]; omega
  | recv => simp only [HpingStats.onReply, reduceCtorEq, if_false]; omega
  | unknown => simp only [HpingStats.onReply, reduceCtorEq, if_false]; omega

end StyxWire.Hping
