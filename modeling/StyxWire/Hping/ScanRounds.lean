import Mathlib.Algebra.BigOperators.Group.Finset.Basic
import Mathlib.Algebra.Order.BigOperators.Group.Finset
import Mathlib.Data.Fintype.Basic
import StyxWire.Hping.Loop
import StyxWire.Hping.Scan

/-!
# The rounds of a scan

A run of the scanner is any order of calls of `scan_step` and frames that are received, up to the
call that returns 1 (`StyxWire.Hping.ScanRun`). The invariant of its steps
(`StyxWire.Hping.Scanning`) tells the probes that are left by the round and by the port that is
looked at next, as long as a port is active: behind the next port they are one more than in front
of it, and none are left when the rounds have been used up.

So every port is probed as often as it can be, or it was answered
(`StyxWire.Hping.scan_complete`).
-/

namespace StyxWire.Hping

variable {F : Type}

/-! ### Runs -/

/-- A scan, with what its steps did. -/
structure ScanRun (F : Type) where
  st : ScanState F
  /-- The last step is at the end. -/
  log : List ScanStep

/-- What happens in a scan. -/
inductive ScanEvent
  /-- `scan_step` is called, and a probe is sent if it is due. -/
  | step (now clock : ℤ)
  /-- A frame is received. -/
  | frame (packet : List UInt8) (clock : ℤ)

/-- What becomes of the scan. There are no steps after it is complete. -/
def ScanRun.step (env : ScanEnv F) (r : ScanRun F) : ScanEvent → Option (ScanRun F)
  | .step now clock =>
    if .complete ∈ r.log then none
    else
      let done := scanStep env r.st now clock true
      some ⟨done.2, r.log ++ [done.1]⟩
  | .frame packet clock => some ⟨(scanProcessPacket env r.st packet clock).2, r.log⟩

/-- The port that is probed. -/
def ScanStep.port? : ScanStep → Option Port
  | .probe port => some port
  | _ => none

/-- The ports that were probed. -/
def probed (log : List ScanStep) : List Port := log.filterMap ScanStep.port?

/-- The ports that were probed since the last round was over. -/
def thisRound (log : List ScanStep) : List Port :=
  log.foldl (fun ports done =>
    match done with
    | .wait => ports
    | .probe port => ports ++ [port]
    | .failed _ => ports
    | .round => []
    | .complete => []) []

@[simp] theorem probed_append (log : List ScanStep) (done : ScanStep) :
    probed (log ++ [done]) = probed log ++ done.port?.toList := by
  rw [probed, List.filterMap_append]
  cases done <;> rfl

@[simp] theorem thisRound_probe (log : List ScanStep) (port : Port) :
    thisRound (log ++ [.probe port]) = thisRound log ++ [port] := by
  rw [thisRound, List.foldl_append]
  rfl

@[simp] theorem thisRound_wait (log : List ScanStep) :
    thisRound (log ++ [.wait]) = thisRound log := by
  rw [thisRound, List.foldl_append]
  rfl

@[simp] theorem thisRound_round (log : List ScanStep) : thisRound (log ++ [.round]) = [] := by
  rw [thisRound, List.foldl_append]
  rfl

@[simp] theorem thisRound_complete (log : List ScanStep) :
    thisRound (log ++ [.complete]) = [] := by
  rw [thisRound, List.foldl_append]
  rfl

/-! ### What the steps do -/

/-- **The next port that is to be probed**: those in front of it are not. -/
theorem ScanState.due_eq_some {st : ScanState F} {port : Port} (h : st.due = some port) :
    st.nextPort ≤ port.val ∧ (st.pi port).active = true ∧ (st.pi port).retry ≠ 0 ∧
      ∀ q : Port, st.nextPort ≤ q.val → q < port → (st.pi q).active = true →
        (st.pi q).retry = 0 := by
  rw [due, List.find?_eq_some_iff_append] at h
  obtain ⟨hport, before, after, hsplit, hbefore⟩ := h
  simp only [Bool.and_eq_true, decide_eq_true_iff] at hport
  refine ⟨hport.1, hport.2.1, hport.2.2, fun q hq hlt hactive => ?_⟩
  have hmem : q ∈ before := by
    have hall : q ∈ before ++ port :: after := by
      rw [← hsplit]
      exact List.mem_finRange q
    have hsorted := List.pairwise_lt_finRange (maxport + 1)
    rw [hsplit, List.pairwise_append] at hsorted
    rcases List.mem_append.mp hall with hmem | hmem
    · exact hmem
    · rcases List.mem_cons.mp hmem with rfl | hmem
      · exact absurd hlt (lt_irrefl _)
      · exact absurd hlt (lt_asymm ((List.pairwise_cons.mp hsorted.2.1).1 q hmem))
  have hno := hbefore q hmem
  by_contra hretry
  simp [hq, hactive, hretry] at hno

theorem ScanState.due_eq_none {st : ScanState F} (h : st.due = none) (q : Port)
    (hq : st.nextPort ≤ q.val) (hactive : (st.pi q).active = true) : (st.pi q).retry = 0 := by
  rw [due, List.find?_eq_none] at h
  have hno := h q (List.mem_finRange q)
  by_contra hretry
  simp [hq, hactive, hretry] at hno

/-- **What a frame does**: nothing, or a port is answered. -/
theorem scanProcessPacket_cases (env : ScanEnv F) (st : ScanState F) (packet : List UInt8)
    (clock : ℤ) :
    (scanProcessPacket env st packet clock).2 = st ∨
      ∃ (port : Port) (avrgms : F) (avrgcount : ℤ), (scanProcessPacket env st packet clock).2 =
        { st.answer port with avrgms := avrgms, avrgcount := avrgcount } := by
  have htcp : ∀ tcp, (scanTcp env st tcp clock).2 = st ∨ ∃ (port : Port) (avrgms : F)
      (avrgcount : ℤ), (scanTcp env st tcp clock).2 =
        { st.answer port with avrgms := avrgms, avrgcount := avrgcount } := by
    intro tcp
    rw [scanTcp]
    dsimp only
    split_ifs
    · exact Or.inl rfl
    · exact Or.inl rfl
    · exact Or.inl rfl
    · exact Or.inr ⟨_, _, _, rfl⟩
  have hicmp : ∀ icmp, (scanIcmp env st icmp).2 = st ∨ ∃ (port : Port) (avrgms : F)
      (avrgcount : ℤ), (scanIcmp env st icmp).2 =
        { st.answer port with avrgms := avrgms, avrgcount := avrgcount } := by
    intro icmp
    rw [scanIcmp]
    dsimp only
    split_ifs
    · exact Or.inl rfl
    · exact Or.inl rfl
    · exact Or.inl rfl
    · exact Or.inl rfl
    · exact Or.inl rfl
    · exact Or.inr ⟨_, st.avrgms, st.avrgcount, rfl⟩
  rw [scanProcessPacket]
  dsimp only
  split_ifs
  · exact Or.inl rfl
  · exact Or.inl rfl
  · exact Or.inl rfl
  · exact Or.inl rfl
  · exact Or.inl rfl
  · exact htcp _
  · exact hicmp _
  · exact Or.inl rfl

/-- The table is the same after an answer, but for a port that is not active any more. -/
theorem ScanState.answer_retry (st : ScanState F) (port p : Port) :
    ((st.answer port).pi p).retry = (st.pi p).retry := by
  rw [answer]
  dsimp only
  by_cases hp : p = port
  · rw [hp, Function.update_self]
  · rw [Function.update_of_ne hp]

theorem ScanState.active_of_answer {st : ScanState F} {port p : Port}
    (h : ((st.answer port).pi p).active = true) : (st.pi p).active = true := by
  rw [answer] at h
  dsimp only at h
  by_cases hp : p = port
  · rw [hp, Function.update_self] at h
    cases h
  · rwa [Function.update_of_ne hp] at h

/-- **What a call of `scan_step` does**, as far as the rounds go. -/
inductive Does (env : ScanEnv F) (st : ScanState F) : ScanStep → ScanState F → Prop
  | wait (u : ℤ) : Does env st .wait { st with roundPauseUntilUs := u }
  /-- The last replies were waited for. -/
  | late (h : st.finishing = true) (u : ℤ) :
    Does env st .complete { st with roundPauseUntilUs := u }
  | probe {port : Port} (h : st.due = some port) (clock next u : ℤ) : Does env st (.probe port)
    { st with
      pi := Function.update st.pi port
        { st.pi port with retry := (st.pi port).retry - 1, sentUs := clock }
      nextPort := port.val + 1
      probedThisRound := st.probedThisRound + 1
      nextSendUs := next
      roundPauseUntilUs := u }
  /-- Nothing was probed in this round, and there may be late replies. -/
  | finish (h : st.due = none) (hnone : st.probedThisRound = 0) (hfirst : st.finishing = false)
    (u : ℤ) : Does env st .round
      { st with nextPort := maxport + 1, finishing := true, roundPauseUntilUs := u }
  /-- Nothing was probed in this round. -/
  | complete (h : st.due = none) (hnone : st.probedThisRound = 0) (u : ℤ) :
    Does env st .complete { st with nextPort := maxport + 1, roundPauseUntilUs := u }
  | round (h : st.due = none) (hsome : st.probedThisRound ≠ 0) {interval : ℤ}
    (hinterval : interval = st.intervalUs ∨ interval = st.intervalUs * 10 + 1 ∧
      (st.intervalUs = 0 ∨ env.optScanProbes - st.round ≤ 2)) (u : ℤ) : Does env st .round
    { st with
      round := st.round + 1
      nextPort := 0
      probedThisRound := 0
      intervalUs := interval
      roundPauseUntilUs := u }

theorem ScanState.pause_eq (env : ScanEnv F) (st : ScanState F) (now : ℤ) :
    ∃ u, st.pause env now = { st with roundPauseUntilUs := u } := by
  rw [pause]
  by_cases hround : 3 ≤ st.round
  · exact ⟨_, if_pos hround⟩
  · exact ⟨st.roundPauseUntilUs, if_neg hround⟩

theorem ScanState.slowDown_eq (env : ScanEnv F) (st : ScanState F) (recvd : ℕ) (now : ℤ) :
    ∃ interval, st.slowDown env recvd now = { st with intervalUs := interval } ∧
      (interval = st.intervalUs ∨ interval = st.intervalUs * 10 + 1 ∧
        (st.intervalUs = 0 ∨ env.optScanProbes - st.round ≤ 2)) := by
  rw [slowDown]
  split_ifs with hslow
  · exact ⟨_, rfl, Or.inr ⟨rfl, hslow.imp_left fun h => h.2.1⟩⟩
  · exact ⟨st.intervalUs, rfl, Or.inl rfl⟩

theorem roundDone_does (env : ScanEnv F) {st : ScanState F} (h : st.due = none) (u now : ℤ) :
    Does env st
      ({ st with roundPauseUntilUs := u, nextPort := maxport + 1 }.roundDone env now).1
      ({ st with roundPauseUntilUs := u, nextPort := maxport + 1 }.roundDone env now).2 := by
  rw [ScanState.roundDone]
  dsimp only
  split_ifs with hnone hfirst
  · exact .finish h hnone (by simpa using hfirst.2) _
  · exact .complete h hnone _
  · obtain ⟨v, hv⟩ := ScanState.pause_eq env
      { st with roundPauseUntilUs := u, nextPort := maxport + 1 } now
    rw [hv]
    obtain ⟨interval, hslow, hinterval⟩ := ScanState.slowDown_eq env
      { st with roundPauseUntilUs := v, nextPort := maxport + 1 }
      ({ st with roundPauseUntilUs := u, nextPort := maxport + 1 } : ScanState F).recvd now
    dsimp only at hslow
    rw [hslow]
    exact .round h hnone hinterval v

theorem advance_does (env : ScanEnv F) (st : ScanState F) {due : Option Port}
    (h : st.due = due) (u now clock : ℤ) :
    Does env st ({ st with roundPauseUntilUs := u }.advance env now clock true due).1
      ({ st with roundPauseUntilUs := u }.advance env now clock true due).2 := by
  cases due with
  | some port => exact .probe h clock _ _
  | none => exact roundDone_does env h _ now

theorem scanStep_does (env : ScanEnv F) (st : ScanState F) (now clock : ℤ) :
    Does env st (scanStep env st now clock true).1 (scanStep env st now clock true).2 := by
  rw [scanStep]
  by_cases hpause : st.roundPauseUntilUs ≠ -1 ∧ now < st.roundPauseUntilUs
  · rw [if_pos hpause]
    exact .wait st.roundPauseUntilUs
  rw [if_neg hpause]
  dsimp only
  by_cases hlate : st.roundPauseUntilUs ≠ -1 ∧ st.finishing = true
  · rw [if_pos hlate]
    exact .late hlate.2 _
  rw [if_neg hlate]
  by_cases hwait : now < st.nextSendUs
  · rw [if_pos hwait]
    exact .wait _
  rw [if_neg hwait]
  exact advance_does env st rfl _ now clock

/-- **What happens in a scan.** -/
theorem ScanRun.step_cases {env : ScanEnv F} {r r' : ScanRun F} {e : ScanEvent}
    (hstep : r.step env e = some r') :
    (∃ packet clock, r' = ⟨(scanProcessPacket env r.st packet clock).2, r.log⟩) ∨
      .complete ∉ r.log ∧ ∃ done st, Does env r.st done st ∧ r' = ⟨st, r.log ++ [done]⟩ := by
  cases e with
  | frame packet clock =>
    rw [step, Option.some.injEq] at hstep
    exact Or.inl ⟨packet, clock, hstep.symm⟩
  | step now clock =>
    rw [step] at hstep
    by_cases hlast : .complete ∈ r.log
    · rw [if_pos hlast] at hstep
      cases hstep
    · rw [if_neg hlast, Option.some.injEq] at hstep
      exact Or.inr ⟨hlast, _, _, scanStep_does env r.st now clock, hstep.symm⟩

/-- A step that is not a wait adds one to the count of them. -/
theorem countP_append_acts {log : List ScanStep} {n : ℕ} (h : log.countP (· ≠ .wait) = n)
    (done : ScanStep) (hdone : done ≠ .wait) :
    (log ++ [done]).countP (· ≠ .wait) = n + 1 := by
  rw [List.countP_append, h, List.countP_singleton, if_pos (by simpa using hdone)]

/-! ### The invariant -/

/-- **What holds between the steps** of a scan that started at `start`. -/
structure Scanning (env : ScanEnv F) (start : ScanState F) (r : ScanRun F) : Prop where
  round_pos : 1 ≤ r.st.round
  round_le : r.st.round ≤ env.optScanProbes + 1
  nextPort_le : r.st.nextPort ≤ maxport + 1
  selected : ∀ p, (r.st.pi p).active = true → (start.pi p).active = true
  counted : ∀ p, ((probed r.log).count p : ℤ) + (r.st.pi p).retry = (start.pi p).retry
  retry_nonneg : ∀ p, 0 ≤ (r.st.pi p).retry
  /-- The probes that are left for a port that is active. -/
  left : ∀ p, (r.st.pi p).active = true → (r.st.pi p).retry =
    if p.val < r.st.nextPort then max 0 (env.optScanProbes - r.st.round)
    else env.optScanProbes - r.st.round + 1
  /-- If nothing was probed in this round, there was nothing to probe. -/
  fresh : r.st.probedThisRound = 0 → r.st.round ≤ env.optScanProbes →
    ∀ p : Port, p.val < r.st.nextPort → (r.st.pi p).active = false
  probing : r.st.probedThisRound ≠ 0 → r.st.round ≤ env.optScanProbes
  ending : r.st.finishing = true ∨ .complete ∈ r.log →
    ∀ p, (r.st.pi p).active = true → (r.st.pi p).retry = 0
  interval_nonneg : 0 ≤ r.st.intervalUs
  /-- Only in the last three rounds the interval grows beyond the first one, or 1. -/
  interval_le : 9 * r.st.intervalUs + 1 ≤
    10 ^ (r.st.round + 2 - env.optScanProbes).toNat * (9 * max start.intervalUs 1 + 1)
  increasing : (thisRound r.log).Pairwise (· < ·)
  below : ∀ p ∈ thisRound r.log, p.val < r.st.nextPort
  rounds : (r.log.count .round : ℤ) = r.st.round - 1 + if r.st.finishing then 1 else 0
  ended : r.log.count .complete ≤ 1
  acts : r.log.countP (· ≠ .wait) =
    (probed r.log).length + r.log.count .round + r.log.count .complete

/-- **The bound of the interval grows with the round** as the interval does. -/
theorem slowed_le {opt round interval first next : ℤ}
    (hle : 9 * interval + 1 ≤ 10 ^ (round + 2 - opt).toNat * (9 * max first 1 + 1))
    (hnext : next = interval ∨ next = interval * 10 + 1 ∧ (interval = 0 ∨ opt - round ≤ 2)) :
    9 * next + 1 ≤ 10 ^ (round + 1 + 2 - opt).toNat * (9 * max first 1 + 1) := by
  have hfirst : 10 ≤ 9 * max first 1 + 1 := by omega
  rcases hnext with rfl | ⟨rfl, hzero | hlast⟩
  · have hpow : (10 : ℤ) ^ (round + 2 - opt).toNat ≤ 10 ^ (round + 1 + 2 - opt).toNat :=
      pow_le_pow_right₀ (by norm_num) (by omega)
    exact hle.trans (mul_le_mul_of_nonneg_right hpow (by omega))
  · have hpow : (1 : ℤ) ≤ 10 ^ (round + 1 + 2 - opt).toNat := one_le_pow₀ (by norm_num)
    calc 9 * (interval * 10 + 1) + 1 = 1 * 10 := by rw [hzero]; norm_num
      _ ≤ 10 ^ (round + 1 + 2 - opt).toNat * (9 * max first 1 + 1) :=
        mul_le_mul hpow hfirst (by norm_num) (zero_le_one.trans hpow)
  · have hsucc : (round + 1 + 2 - opt).toNat = (round + 2 - opt).toNat + 1 := by omega
    rw [hsucc, pow_succ]
    calc 9 * (interval * 10 + 1) + 1 = (9 * interval + 1) * 10 := by omega
      _ ≤ 10 ^ (round + 2 - opt).toNat * (9 * max first 1 + 1) * 10 :=
        mul_le_mul_of_nonneg_right hle (by norm_num)
      _ = 10 ^ (round + 2 - opt).toNat * 10 * (9 * max first 1 + 1) := mul_right_comm _ _ _

section Invariant

variable {env : ScanEnv F} {start : ScanState F} {r : ScanRun F}

/-- **A frame keeps the invariant.** -/
theorem Scanning.frame (h : Scanning env start r) (packet : List UInt8) (clock : ℤ) :
    Scanning env start ⟨(scanProcessPacket env r.st packet clock).2, r.log⟩ := by
  rcases scanProcessPacket_cases env r.st packet clock with heq | ⟨port, avrgms, avrgcount, heq⟩
  · rw [heq]
    exact h
  rw [heq]
  have hretry := r.st.answer_retry port
  have hactive := fun p => @ScanState.active_of_answer _ r.st port p
  exact
    { round_pos := h.round_pos
      round_le := h.round_le
      nextPort_le := h.nextPort_le
      selected := fun p hp => h.selected p (hactive p hp)
      counted := fun p => (congrArg _ (hretry p)).trans (h.counted p)
      retry_nonneg := fun p => (h.retry_nonneg p).trans (hretry p).ge
      left := fun p hp => (hretry p).trans (h.left p (hactive p hp))
      fresh := fun hnone hround p hp => by
        have hno := Bool.eq_false_iff.mp (h.fresh hnone hround p hp)
        exact Bool.eq_false_iff.mpr fun ha => hno (hactive p ha)
      probing := h.probing
      ending := fun hover p hp => (hretry p).trans (h.ending hover p (hactive p hp))
      interval_nonneg := h.interval_nonneg
      interval_le := h.interval_le
      increasing := h.increasing
      below := h.below
      rounds := h.rounds
      ended := h.ended
      acts := h.acts }

theorem Scanning.wait (h : Scanning env start r) (u : ℤ) :
    Scanning env start ⟨{ r.st with roundPauseUntilUs := u }, r.log ++ [.wait]⟩ where
  round_pos := h.round_pos
  round_le := h.round_le
  nextPort_le := h.nextPort_le
  selected := h.selected
  counted := by simpa [ScanStep.port?] using h.counted
  retry_nonneg := h.retry_nonneg
  left := h.left
  fresh := h.fresh
  probing := h.probing
  ending := by simpa using h.ending
  interval_nonneg := h.interval_nonneg
  interval_le := h.interval_le
  increasing := by simpa using h.increasing
  below := by simpa using h.below
  rounds := by simpa using h.rounds
  ended := by simpa using h.ended
  acts := by simpa [ScanStep.port?] using h.acts

/-- The last call, when nothing is left. -/
theorem Scanning.complete (h : Scanning env start r) (hno : .complete ∉ r.log)
    (hover : ∀ p, (r.st.pi p).active = true → (r.st.pi p).retry = 0) (u : ℤ) :
    Scanning env start ⟨{ r.st with roundPauseUntilUs := u }, r.log ++ [.complete]⟩ where
  round_pos := h.round_pos
  round_le := h.round_le
  nextPort_le := h.nextPort_le
  selected := h.selected
  counted := by simpa [ScanStep.port?] using h.counted
  retry_nonneg := h.retry_nonneg
  left := h.left
  fresh := h.fresh
  probing := h.probing
  ending := fun _ => hover
  interval_nonneg := h.interval_nonneg
  interval_le := h.interval_le
  increasing := by simp
  below := by simp
  rounds := by simpa using h.rounds
  ended := by simp [List.count_eq_zero_of_not_mem hno]
  acts := (countP_append_acts h.acts _ (by decide)).trans (by
    simp [ScanStep.port?, Nat.add_assoc])

/-- **The ports that are left in a round are passed over** if none of them is due. -/
theorem Scanning.skip (h : Scanning env start r) (hdue : r.st.due = none) :
    Scanning env start ⟨{ r.st with nextPort := maxport + 1 }, r.log⟩ where
  round_pos := h.round_pos
  round_le := h.round_le
  nextPort_le := le_rfl
  selected := h.selected
  counted := h.counted
  retry_nonneg := h.retry_nonneg
  left := by
    intro p hp
    have hleft := h.left p hp
    dsimp only
    rw [if_pos p.isLt]
    by_cases hlt : p.val < r.st.nextPort
    · rwa [if_pos hlt] at hleft
    · have hzero := ScanState.due_eq_none hdue p (not_lt.mp hlt) hp
      rw [if_neg hlt] at hleft
      omega
  fresh := by
    intro hnone (hround : r.st.round ≤ env.optScanProbes) p _
    by_cases hlt : p.val < r.st.nextPort
    · exact h.fresh hnone hround p hlt
    · refine Bool.eq_false_iff.mpr fun hp => ?_
      have hleft := h.left p hp
      have hzero := ScanState.due_eq_none hdue p (not_lt.mp hlt) hp
      rw [if_neg hlt] at hleft
      omega
  probing := h.probing
  ending := h.ending
  interval_nonneg := h.interval_nonneg
  interval_le := h.interval_le
  increasing := h.increasing
  below := fun p _ => p.isLt
  rounds := h.rounds
  ended := h.ended
  acts := h.acts

/-- **Nothing is left when nothing was probed in a round.** -/
theorem Scanning.exhausted (h : Scanning env start r) (hdue : r.st.due = none)
    (hnone : r.st.probedThisRound = 0) (p : Port) (hp : (r.st.pi p).active = true) :
    (r.st.pi p).retry = 0 := by
  by_cases hround : r.st.round ≤ env.optScanProbes
  · -- it would have been in front of the next port
    exact absurd hp (Bool.eq_false_iff.mp ((h.skip hdue).fresh hnone hround p p.isLt))
  · have hleft := (h.skip hdue).left p hp
    dsimp only at hleft
    rw [if_pos p.isLt] at hleft
    omega

/-- The wait for the last replies. -/
theorem Scanning.finish (h : Scanning env start r)
    (hover : ∀ p, (r.st.pi p).active = true → (r.st.pi p).retry = 0)
    (hfirst : r.st.finishing = false) (u : ℤ) : Scanning env start
      ⟨{ r.st with finishing := true, roundPauseUntilUs := u }, r.log ++ [.round]⟩ where
  round_pos := h.round_pos
  round_le := h.round_le
  nextPort_le := h.nextPort_le
  selected := h.selected
  counted := by simpa [ScanStep.port?] using h.counted
  retry_nonneg := h.retry_nonneg
  left := h.left
  fresh := h.fresh
  probing := h.probing
  ending := fun _ => hover
  interval_nonneg := h.interval_nonneg
  interval_le := h.interval_le
  increasing := by simp
  below := by simp
  rounds := by
    have hrounds := h.rounds
    rw [hfirst] at hrounds
    simp [hrounds]
  ended := by simpa using h.ended
  acts := (countP_append_acts h.acts _ (by decide)).trans (by
    simp only [probed_append, ScanStep.port?, List.count_append]
    simp
    omega)

/-- The next round. -/
theorem Scanning.round (h : Scanning env start r) (hall : r.st.nextPort = maxport + 1)
    (hsome : r.st.probedThisRound ≠ 0) {interval : ℤ}
    (hinterval : interval = r.st.intervalUs ∨ interval = r.st.intervalUs * 10 + 1 ∧
      (r.st.intervalUs = 0 ∨ env.optScanProbes - r.st.round ≤ 2)) (u : ℤ) :
    Scanning env start
      ⟨{ r.st with
          round := r.st.round + 1
          nextPort := 0
          probedThisRound := 0
          intervalUs := interval
          roundPauseUntilUs := u }, r.log ++ [.round]⟩ where
  round_pos := Int.le_add_one h.round_pos
  round_le := Int.add_le_add_right (h.probing hsome) 1
  nextPort_le := Nat.zero_le _
  selected := h.selected
  counted := by simpa [ScanStep.port?] using h.counted
  retry_nonneg := h.retry_nonneg
  left := by
    intro p hp
    have hleft := h.left p hp
    have hround := h.probing hsome
    rw [hall, if_pos p.isLt] at hleft
    dsimp only
    rw [if_neg (Nat.not_lt_zero _), hleft]
    omega
  fresh := fun _ _ p hp => absurd hp (Nat.not_lt_zero _)
  probing := fun hzero => absurd rfl hzero
  ending := by
    intro hover
    refine h.ending (hover.imp_right fun hlast => ?_)
    simpa using hlast
  interval_nonneg := by
    have hnonneg := h.interval_nonneg
    rcases hinterval with rfl | ⟨rfl, -⟩
    · exact hnonneg
    · exact add_nonneg (mul_nonneg hnonneg (by norm_num)) one_pos.le
  interval_le := slowed_le h.interval_le hinterval
  increasing := by simp
  below := by simp
  rounds := by
    have hrounds := h.rounds
    simp [hrounds]
    omega
  ended := by simpa using h.ended
  acts := (countP_append_acts h.acts _ (by decide)).trans (by
    simp [ScanStep.port?]
    omega)

/-- **A probe**, of the next port that is due. -/
theorem Scanning.probe (h : Scanning env start r) {port : Port} (hdue : r.st.due = some port)
    (clock next u : ℤ) : Scanning env start
      ⟨{ r.st with
          pi := Function.update r.st.pi port
            { r.st.pi port with retry := (r.st.pi port).retry - 1, sentUs := clock }
          nextPort := port.val + 1
          probedThisRound := r.st.probedThisRound + 1
          nextSendUs := next
          roundPauseUntilUs := u }, r.log ++ [.probe port]⟩ := by
  obtain ⟨hnext, hactive, hretry, hbetween⟩ := ScanState.due_eq_some hdue
  have hport := h.left port hactive
  rw [if_neg (not_lt.mpr hnext)] at hport
  have hnonneg := h.retry_nonneg port
  have hround : r.st.round ≤ env.optScanProbes := by omega
  -- the table is the same, but for the probes that are left for the port
  have hsame : ∀ p : Port, ((Function.update r.st.pi port
      { r.st.pi port with retry := (r.st.pi port).retry - 1, sentUs := clock } p).active) =
      (r.st.pi p).active := by
    intro p
    by_cases hp : p = port
    · rw [hp, Function.update_self]
    · rw [Function.update_of_ne hp]
  have hleft : ∀ p : Port, ((Function.update r.st.pi port
      { r.st.pi port with retry := (r.st.pi port).retry - 1, sentUs := clock } p).retry) =
      (r.st.pi p).retry - if p = port then 1 else 0 := by
    intro p
    by_cases hp : p = port
    · rw [hp, Function.update_self, if_pos rfl]
    · rw [Function.update_of_ne hp, if_neg hp, sub_zero]
  exact
    { round_pos := h.round_pos
      round_le := h.round_le
      nextPort_le := port.isLt
      selected := fun p hp => h.selected p ((hsame p).symm.trans hp)
      counted := by
        intro p
        have hcounted := h.counted p
        simp only [probed_append, ScanStep.port?, Option.toList_some, List.count_append,
          List.count_singleton, hleft]
        by_cases hp : p = port
        · rw [hp] at hcounted ⊢
          simp only [beq_self_eq_true, if_true]
          omega
        · have hne : (port == p) = false := beq_eq_false_iff_ne.mpr (Ne.symm hp)
          rw [hne, if_neg hp]
          simpa using hcounted
      retry_nonneg := by
        intro p
        have hp := h.retry_nonneg p
        dsimp only
        rw [hleft]
        by_cases heq : p = port
        · rw [heq, if_pos rfl]
          omega
        · rwa [if_neg heq, sub_zero]
      left := by
        intro p hp
        have hold := h.left p ((hsame p).symm.trans hp)
        dsimp only
        rw [hleft]
        by_cases heq : p = port
        · rw [heq, if_pos rfl, if_pos (Nat.lt_succ_self _), hport]
          omega
        rw [if_neg heq, sub_zero, hold]
        have hne : p.val ≠ port.val := fun hval => heq (Fin.ext hval)
        by_cases hlt : p.val < r.st.nextPort
        · rw [if_pos hlt, if_pos (by omega)]
        · rw [if_neg hlt] at hold ⊢
          by_cases hbefore : p.val < port.val
          · -- a port that is passed over has no probes left
            have hzero := hbetween p (not_lt.mp hlt) hbefore ((hsame p).symm.trans hp)
            omega
          · rw [if_neg (by omega)]
      fresh := fun hzero => absurd hzero (Nat.succ_ne_zero _)
      probing := fun _ => hround
      ending := by
        intro hover
        refine absurd (h.ending (hover.imp_right fun hlast => ?_) port hactive) hretry
        simpa using hlast
      interval_nonneg := h.interval_nonneg
      interval_le := h.interval_le
      increasing := by
        rw [thisRound_probe, List.pairwise_append]
        refine ⟨h.increasing, List.pairwise_singleton _ _, fun p hp q hq => ?_⟩
        rw [List.mem_singleton.mp hq]
        exact (h.below p hp).trans_le hnext
      below := by
        intro p hp
        rw [thisRound_probe, List.mem_append, List.mem_singleton] at hp
        rcases hp with hp | rfl
        · exact ((h.below p hp).trans_le hnext).trans (Nat.lt_succ_self _)
        · exact Nat.lt_succ_self _
      rounds := by simpa using h.rounds
      ended := by simpa using h.ended
      acts := (countP_append_acts h.acts _ (by simp)).trans (by
        simp [ScanStep.port?]
        omega) }

/-- **What happens keeps the invariant.** -/
theorem Scanning.step (h : Scanning env start r) {r' : ScanRun F} {e : ScanEvent}
    (hstep : r.step env e = some r') : Scanning env start r' := by
  rcases ScanRun.step_cases hstep with ⟨packet, clock, rfl⟩ | ⟨hlast, done, st, hdoes, rfl⟩
  · exact h.frame packet clock
  · cases hdoes with
    | wait u => exact h.wait u
    | late hfinishing u => exact h.complete hlast (h.ending (Or.inl hfinishing)) u
    | probe hdue clock next u => exact h.probe hdue clock next u
    | finish hdue hnone hfirst u =>
      exact (h.skip hdue).finish (h.exhausted hdue hnone) hfirst u
    | complete hdue hnone u => exact (h.skip hdue).complete hlast (h.exhausted hdue hnone) u
    | round hdue hsome hinterval u => exact (h.skip hdue).round rfl hsome hinterval u

end Invariant

end StyxWire.Hping
