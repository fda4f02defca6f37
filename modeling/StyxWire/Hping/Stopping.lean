import StyxWire.Hping.Loop
import StyxWire.Lib.Pacing

/-!
# Pacing and stopping

What holds of the main loop however the signals, the frames and the readings of the clock
come (`StyxWire.Hping.pacing_and_stopping`): the probes keep the interval, there are no more
of them than `--count`, and the loop ends when it should, for the reason that came first.

The schedule is that of `Pacing.Paced`. A turn keeps it because a probe is sent only when
it is due. The rest is counting, which the books that are kept by the other functions do not
touch: a probe that is sent is one more (`StyxWire.Hping.sendPacket_cases`), and a frame is
one more unique reply at most, after which `wait_packet` compares the counts
(`StyxWire.Hping.Counting.waitPacket`).
-/

namespace StyxWire.Hping

/-! ### Counting the replies -/

/-- The unique replies have not reached the count, unless the loop is about to end. -/
structure Counting (count : ℤ) (ctx : Context) : Prop where
  consistent : ctx.stats.Consistent
  lt : count ≠ -1 → ctx.stopReason = .none → (ctx.stats.unique : ℤ) < count

theorem HpingStats.unique_onSent (s : HpingStats) : s.onSent.unique = s.unique := rfl

theorem HpingStats.sent_onReply (s : HpingStats) (status : Status) :
    (s.onReply status).sent = s.sent := by
  cases status with
  | sent => rfl
  | recv => rfl
  | unknown => rfl

/-- A lookup counts a reply, or nothing. -/
theorem Lookup.tally_stats (k : Lookup) (now : ℤ) (l : Ledger) :
    (k.tally now l).2.2 = l.2 ∨ ∃ status, (k.tally now l).2.2 = l.2.onReply status := by
  cases k with
  | ignored => exact Or.inl rfl
  | unmatched => exact Or.inr ⟨.unknown, rfl⟩
  | key seq port => exact Or.inr ⟨_, rfl⟩

/-- So does a frame. -/
theorem Frame.receive_stats (f : Frame) (cfg : Config) (ctx : Context) (now : ℤ) :
    (f.receive cfg ctx now).2.stats = ctx.stats ∨
      ∃ status, (f.receive cfg ctx now).2.stats = ctx.stats.onReply status := by
  have hledger := congrArg Prod.snd (f.ledger_receive cfg ctx now)
  change (f.receive cfg ctx now).2.stats = _ at hledger
  rw [hledger]
  exact (f.lookup cfg ctx).tally_stats now ctx.ledger

theorem Frame.receive_stopReason (f : Frame) (cfg : Config) (ctx : Context) (now : ℤ) :
    (f.receive cfg ctx now).2.stopReason = ctx.stopReason := by
  obtain ⟨table, stats, dstPort, tcpExitcode, hrest⟩ := f.receive_rest cfg ctx now
  rw [hrest]

theorem Frame.receive_index (f : Frame) (cfg : Config) (ctx : Context) (now : ℤ) :
    (f.receive cfg ctx now).2.table.index = ctx.table.index := by
  have hledger := congrArg Prod.fst (f.ledger_receive cfg ctx now)
  change (f.receive cfg ctx now).2.table = _ at hledger
  rw [hledger]
  cases f.lookup cfg ctx with
  | ignored => rfl
  | unmatched => rfl
  | key seq port => exact ctx.table.rtt_index seq port now

/-- A control message moves the sender of a file, and that is all. -/
theorem Context.withHcmp_rest (cfg : Config) (ctx : Context) (datagram : List UInt8) :
    ∃ srcId filePos,
      ctx.withHcmp cfg datagram = { ctx with srcId := srcId, filePos := filePos } := by
  rw [Context.withHcmp]
  split_ifs
  · rw [handleHcmp]
    cases memstr datagram cfg.rsign datagram.length with
    | none => exact ⟨_, _, rfl⟩
    | some p =>
      dsimp only
      split_ifs
      · exact ⟨_, _, rfl⟩
      · exact ⟨_, _, rfl⟩
      · exact ⟨_, _, rfl⟩
  · exact ⟨_, _, rfl⟩

/-- No probe is recorded or counted, and the reason to stop is kept. -/
structure Keeps (ctx ctx' : Context) : Prop where
  index : ctx'.table.index = ctx.table.index
  sent : ctx'.stats.sent = ctx.stats.sent
  stopReason : ctx.stopReason ≠ .none → ctx'.stopReason = ctx.stopReason

theorem Keeps.refl (ctx : Context) : Keeps ctx ctx := ⟨rfl, rfl, fun _ => rfl⟩

theorem Keeps.trans {ctx ctx' ctx'' : Context} (h : Keeps ctx ctx') (h' : Keeps ctx' ctx'') :
    Keeps ctx ctx'' := by
  refine ⟨h'.index.trans h.index, h'.sent.trans h.sent, fun hne => ?_⟩
  have heq := h.stopReason hne
  exact (h'.stopReason (heq ▸ hne)).trans heq

theorem Stops.keeps' {ctx ctx' : Context} (h : Stops ctx ctx') : Keeps ctx ctx' := by
  obtain ⟨⟨reason, rfl⟩, hkeeps⟩ := h
  exact ⟨rfl, rfl, hkeeps⟩

theorem Counting.stops {count : ℤ} {ctx ctx' : Context} (h : Counting count ctx)
    (hstops : Stops ctx ctx') : Counting count ctx' := by
  obtain ⟨⟨reason, rfl⟩, hkeeps⟩ := hstops
  refine ⟨h.consistent, fun hcount hnone => h.lt hcount ?_⟩
  by_contra hne
  exact hne ((hkeeps hne).symm.trans hnone)

/-- A frame that is read keeps the reason to stop. -/
theorem keeps_waitDatagram (cfg : Config) (ctx : Context) (datagram : List UInt8) (now : ℤ) :
    Keeps ctx (waitDatagram cfg ctx datagram now).2 := by
  obtain ⟨srcId, filePos, hhcmp⟩ := ctx.withHcmp_rest cfg datagram
  have hcontrol : Keeps ctx (ctx.withHcmp cfg datagram) := by
    rw [hhcmp]
    exact ⟨rfl, rfl, fun _ => rfl⟩
  have hwaits := waitDatagram_cases cfg ctx datagram now
  generalize (waitDatagram cfg ctx datagram now).2 = ctx' at hwaits
  cases hwaits with
  | ignored => exact Keeps.refl ctx
  | control => exact hcontrol
  | reply f hstops =>
    rename_i ctx'
    refine hcontrol.trans (Keeps.trans ?_ (hstops.trans (ctx'.stops_countReached cfg)).keeps')
    refine ⟨f.receive_index cfg _ now, ?_, fun _ => f.receive_stopReason cfg _ now⟩
    rcases f.receive_stats cfg (ctx.withHcmp cfg datagram) now with hstats | ⟨status, hstats⟩
    · rw [hstats]
    · rw [hstats, HpingStats.sent_onReply]

/-- The end of `wait_packet`: the count was not reached, or it is noticed. -/
theorem Counting.countReached {cfg : Config} {ctx : Context} (h : ctx.stats.Consistent)
    (hle : cfg.count ≠ -1 → ctx.stopReason = .none → (ctx.stats.unique : ℤ) ≤ cfg.count) :
    Counting cfg.count (ctx.countReached cfg) := by
  rw [Context.countReached]
  split_ifs with hreached
  · refine ⟨?_, fun _ hnone => ?_⟩
    · rw [Context.stop]
      split_ifs
      · exact h
      · exact h
    · rw [Context.stop] at hnone
      split_ifs at hnone with hreason
      exact absurd hnone hreason
  · refine ⟨h, fun hcount hnone => lt_of_le_of_ne (hle hcount hnone) fun heq => ?_⟩
    exact hreached ⟨hcount, heq.symm⟩

/-- **The count is noticed when it is reached**: a frame is one unique reply at most, and the
counts are compared then. -/
theorem Counting.waitDatagram {cfg : Config} {ctx : Context} (h : Counting cfg.count ctx)
    (datagram : List UInt8) (now : ℤ) :
    Counting cfg.count (waitDatagram cfg ctx datagram now).2 := by
  obtain ⟨srcId, filePos, hhcmp⟩ := ctx.withHcmp_rest cfg datagram
  have hcontrol : Counting cfg.count (ctx.withHcmp cfg datagram) := by
    rw [hhcmp]
    exact ⟨h.consistent, h.lt⟩
  have hwaits := waitDatagram_cases cfg ctx datagram now
  generalize (Hping.waitDatagram cfg ctx datagram now).2 = ctx' at hwaits
  cases hwaits with
  | ignored => exact h
  | control => exact hcontrol
  | reply f hstops =>
    rename_i ctx'
    have hreason := f.receive_stopReason cfg (ctx.withHcmp cfg datagram) now
    have hone : (f.receive cfg (ctx.withHcmp cfg datagram) now).2.stats.Consistent ∧
        (f.receive cfg (ctx.withHcmp cfg datagram) now).2.stats.unique ≤
          (ctx.withHcmp cfg datagram).stats.unique + 1 := by
      rcases f.receive_stats cfg (ctx.withHcmp cfg datagram) now with hstats | ⟨status, hstats⟩
      · rw [hstats]
        exact ⟨hcontrol.consistent, Nat.le_succ _⟩
      · rw [hstats, hcontrol.consistent.unique_onReply]
        refine ⟨hcontrol.consistent.onReply status, ?_⟩
        split_ifs
        · exact Nat.le_refl _
        · exact Nat.le_succ _
    obtain ⟨⟨reason, rfl⟩, hkeeps⟩ := hstops
    refine Counting.countReached hone.1 fun hcount hnone => ?_
    have hbefore : (ctx.withHcmp cfg datagram).stopReason = .none := by
      by_contra hne
      rw [← hreason] at hne
      exact hne ((hkeeps hne).symm.trans hnone)
    have hlt := hcontrol.lt hcount hbefore
    have hle := hone.2
    dsimp only at hnone ⊢
    omega

theorem keeps_waitPacket (cfg : Config) (ctx : Context) (read : ReadPacket) (now : ℤ) :
    Keeps ctx (waitPacket cfg ctx read now).2 := by
  cases read with
  | error => exact (ctx.stops_stop .eof).keeps'
  | frame packet =>
    rw [waitPacket]
    split_ifs
    · exact Keeps.refl ctx
    · exact Keeps.refl ctx
    · exact keeps_waitDatagram cfg ctx _ now

theorem Counting.waitPacket {cfg : Config} {ctx : Context} (h : Counting cfg.count ctx)
    (read : ReadPacket) (now : ℤ) : Counting cfg.count (waitPacket cfg ctx read now).2 := by
  cases read with
  | error => exact h.stops (ctx.stops_stop .eof)
  | frame packet =>
    rw [Hping.waitPacket]
    split_ifs
    · exact h
    · exact h
    · exact h.waitDatagram _ now

/-! ### What a turn keeps -/

/-- What holds between two turns. -/
structure Loop.Good (cfg : LoopConfig) (start : ℤ) (s : Loop) : Prop where
  counting : Counting cfg.count s.ctx
  sent : s.ctx.stats.sent = s.sentAt.length
  le_count : cfg.count ≠ -1 → (s.ctx.stats.sent : ℤ) ≤ cfg.count
  paced : ∃ due, Pacing.Paced cfg.sendIntervalUs start s.sentAt due ∧
    (¬allProbesSent cfg s.ctx → due = s.nextSendUs)
  deadline : allProbesSent cfg s.ctx →
    ∃ last, s.sentAt.head? = some last ∧ 0 ≤ last ∧ s.endDeadlineUs = last + 1000000

variable {cfg : LoopConfig} {start : ℤ} {s s' : Loop}

/-- A part of a turn that sends nothing. -/
structure Loop.Idle (cfg : LoopConfig) (s s' : Loop) : Prop where
  counting : Counting cfg.count s.ctx → Counting cfg.count s'.ctx
  keeps : Keeps s.ctx s'.ctx
  nextSendUs : s'.nextSendUs = s.nextSendUs
  endDeadlineUs : s'.endDeadlineUs = s.endDeadlineUs
  sentAt : s'.sentAt = s.sentAt

theorem allProbesSent_congr {ctx ctx' : Context} (h : ctx'.stats.sent = ctx.stats.sent) :
    allProbesSent cfg ctx' ↔ allProbesSent cfg ctx := by
  rw [allProbesSent, allProbesSent, h]

theorem Loop.Good.idle (h : s.Good cfg start) (hidle : s.Idle cfg s') : s'.Good cfg start := by
  have hall : allProbesSent cfg s'.ctx ↔ allProbesSent cfg s.ctx :=
    allProbesSent_congr hidle.keeps.sent
  refine ⟨hidle.counting h.counting, ?_, ?_, ?_, ?_⟩
  · rw [hidle.keeps.sent, hidle.sentAt]
    exact h.sent
  · rw [hidle.keeps.sent]
    exact h.le_count
  · rw [hall, hidle.nextSendUs, hidle.sentAt]
    exact h.paced
  · rw [hall, hidle.endDeadlineUs, hidle.sentAt]
    exact h.deadline

theorem Loop.Idle.trans {s'' : Loop} (h : s.Idle cfg s') (h' : s'.Idle cfg s'') :
    s.Idle cfg s'' where
  counting hcounting := h'.counting (h.counting hcounting)
  keeps := h.keeps.trans h'.keeps
  nextSendUs := h'.nextSendUs.trans h.nextSendUs
  endDeadlineUs := h'.endDeadlineUs.trans h.endDeadlineUs
  sentAt := h'.sentAt.trans h.sentAt

theorem Loop.idle_leave (s : Loop) (reason : StopReason) : s.Idle cfg (s.leave reason) where
  counting h := h.stops (s.ctx.stops_stop reason)
  keeps := (s.ctx.stops_stop reason).keeps'
  nextSendUs := rfl
  endDeadlineUs := rfl
  sentAt := rfl

theorem Loop.idle_incDestparm (s : Loop) (now : ℤ) : s.Idle cfg (s.incDestparm cfg now) := by
  rw [Loop.incDestparm]
  cases cfg.ctrlzbind with
  | dport => exact ⟨fun h => ⟨h.consistent, h.lt⟩, ⟨rfl, rfl, fun _ => rfl⟩, rfl, rfl, rfl⟩
  | ttl => exact ⟨id, Keeps.refl s.ctx, rfl, rfl, rfl⟩
  | none => exact ⟨id, Keeps.refl s.ctx, rfl, rfl, rfl⟩

theorem Loop.idle_handlePendingSignals (s : Loop) (signals : Signals) :
    s.Idle cfg (s.handlePendingSignals cfg signals) := by
  -- the signal to end the program is taken after the other one
  have hstop : ∀ s : Loop, s.Idle cfg
      (if signals.stop ∧ s.ctx.stopReason = .none then
        { s with ctx := { s.ctx with stopReason := .signal } }
      else s) := by
    intro s
    split_ifs with hsignal
    · have hstops : Stops s.ctx { s.ctx with stopReason := .signal } :=
        ⟨⟨.signal, rfl⟩, fun hne => absurd hsignal.2 hne⟩
      exact ⟨fun h => h.stops hstops, hstops.keeps', rfl, rfl, rfl⟩
    · exact ⟨id, Keeps.refl s.ctx, rfl, rfl, rfl⟩
  rw [Loop.handlePendingSignals]
  cases signals.tstp with
  | none => exact hstop s
  | some now => exact (s.idle_incDestparm now).trans (hstop _)

theorem Loop.idle_await (s : Loop) (t : Turn) (now : ℤ) : s.Idle cfg (s.await cfg t now) := by
  have htimeout : s.Idle cfg { s with timeout := s.waitTimeout cfg now } :=
    ⟨id, Keeps.refl s.ctx, rfl, rfl, rfl⟩
  rw [Loop.await]
  dsimp only
  split_ifs
  · exact htimeout.trans (Loop.idle_handlePendingSignals _ t.pending)
  · cases t.wait with
    | error => exact htimeout.trans (Loop.idle_leave _ .error)
    | nothing => exact htimeout
    | ready read now =>
      exact htimeout.trans ⟨fun h => h.waitPacket read now,
        keeps_waitPacket cfg.toConfig s.ctx read now, rfl, rfl, rfl⟩

/-- **A probe is sent only when it is due**, and as long as there is one to send. -/
theorem Loop.Good.sendDueProbe (h : s.Good cfg start) {now : ℤ} {sending : Sending} {ok : Bool}
    (hmore : ¬allProbesSent cfg s.ctx) (hdue : s.nextSendUs ≤ now) (hnow : 0 ≤ now)
    (hsend : s.sendDueProbe cfg now sending = some (ok, s')) : s'.Good cfg start := by
  obtain ⟨⟨sent, ctx⟩, hpacket, hr⟩ := Option.map_eq_some_iff.mp hsend
  obtain ⟨hreason, hstats⟩ := sendPacket_cases hpacket
  obtain ⟨due, hpaced, hnext⟩ := h.paced
  have hcounting : Counting cfg.count ctx := by
    have hunique : ctx.stats.Consistent ∧ ctx.stats.unique = s.ctx.stats.unique := by
      rw [hstats]
      split_ifs
      · exact ⟨⟨h.counting.consistent.le⟩, HpingStats.unique_onSent _⟩
      · exact ⟨h.counting.consistent, rfl⟩
    refine ⟨hunique.1, fun hcount hnone => ?_⟩
    rw [hunique.2]
    exact h.counting.lt hcount (hreason ▸ hnone)
  dsimp only at hr
  rw [hnext hmore] at hpaced
  cases sent with
  | false =>
    obtain ⟨-, rfl⟩ := Prod.mk.inj hr
    refine ⟨hcounting, ?_, ?_, ?_, ?_⟩
    · exact (congrArg HpingStats.sent hstats).trans h.sent
    · rw [hstats]
      exact h.le_count
    · exact ⟨s.nextSendUs, hpaced, fun _ => rfl⟩
    · exact fun hall => absurd ((allProbesSent_congr (congrArg HpingStats.sent hstats)).mp hall) hmore
  | true =>
    have hsent : ctx.stats.sent = s.sentAt.length + 1 := by
      rw [hstats, ← h.sent]
      rfl
    have hle : cfg.count ≠ -1 → (ctx.stats.sent : ℤ) ≤ cfg.count := by
      intro hcount
      have hlt : (s.ctx.stats.sent : ℤ) < cfg.count := not_le.mp fun hge => hmore ⟨hcount, hge⟩
      rw [hsent, ← h.sent]
      push_cast
      omega
    rw [if_neg (not_not.mpr rfl)] at hr
    by_cases hall : allProbesSent cfg ctx
    · -- the last one
      rw [if_pos hall] at hr
      obtain ⟨-, rfl⟩ := Prod.mk.inj hr
      exact ⟨hcounting, hsent, hle, ⟨_, hpaced.step hdue, fun hcon => absurd hall hcon⟩,
        fun _ => ⟨now, rfl, hnow, rfl⟩⟩
    · rw [if_neg hall] at hr
      obtain ⟨-, rfl⟩ := Prod.mk.inj hr
      refine ⟨hcounting, hsent, hle, ⟨_, hpaced.step hdue, fun _ => ?_⟩,
        fun hcon => absurd hcon hall⟩
      rw [Pacing.next]
      dsimp only
      split_ifs
      · omega
      · omega

/-- **What a turn keeps.** -/
theorem Loop.Good.turn (h : s.Good cfg start) {t : Turn} (hnow : 0 ≤ t.now)
    (hturn : s.turn cfg t = some s') : s'.Good cfg start := by
  rw [Loop.turn] at hturn
  have hsignals : (s.handlePendingSignals cfg t.signals).Good cfg start :=
    h.idle (s.idle_handlePendingSignals t.signals)
  dsimp only at hturn
  generalize s.handlePendingSignals cfg t.signals = u at hturn hsignals
  split_ifs at hturn with hended hreason hdeadline hdue
  · exact Option.some.inj hturn ▸ h
  · exact Option.some.inj hturn ▸
      hsignals.idle ⟨id, Keeps.refl u.ctx, rfl, rfl, rfl⟩
  · exact Option.some.inj hturn ▸ hsignals.idle (u.idle_leave .sent)
  · obtain ⟨⟨ok, v⟩, hsend, rfl⟩ := Option.map_eq_some_iff.mp hturn
    have hv : v.Good cfg start := hsignals.sendDueProbe hdue.2.1 hdue.2.2 hnow hsend
    dsimp only
    split_ifs
    · exact hv.idle (v.idle_await t t.later)
    · exact hv.idle (v.idle_leave .error)
  · exact Option.some.inj hturn ▸ hsignals.idle (u.idle_await t t.now)

/-- So does a run. -/
theorem Loop.Good.run (h : s.Good cfg start) {ts : List Turn} (hnow : ∀ t ∈ ts, 0 ≤ t.now)
    (hrun : Events.run (Loop.turn cfg) s ts = some s') : s'.Good cfg start := by
  have hinv := @Events.run_induction _ _ _ (fun before s => (∀ t ∈ before, 0 ≤ t.now) →
      s.Good cfg start) (fun before s t s' hgood hturn hall => ?_) s s' [] (fun _ => h) ts hrun
  · exact hinv hnow
  · exact (hgood fun u hu => hall u (List.mem_append_left _ hu)).turn
      (hall t (List.mem_append_right _ (List.mem_singleton_self t))) hturn

theorem Loop.good_start {ctx : Context} (hstats : ctx.stats = HpingStats.init)
    (hcount : cfg.count = -1 ∨ 1 ≤ cfg.count) : (Loop.start ctx start).Good cfg start where
  counting := by
    refine ⟨?_, fun hne _ => ?_⟩
    · show ctx.stats.Consistent
      rw [hstats]
      exact HpingStats.consistent_init
    · have hunique : (Loop.start ctx start).ctx.stats.unique = 0 := congrArg HpingStats.unique hstats
      rw [hunique]
      have := hcount.resolve_left hne
      omega
  sent := congrArg HpingStats.sent hstats
  le_count hne := by
    have hsent : (Loop.start ctx start).ctx.stats.sent = 0 := congrArg HpingStats.sent hstats
    rw [hsent]
    have := hcount.resolve_left hne
    omega
  paced := ⟨start, .start, fun _ => rfl⟩
  deadline hall := by
    have hsent : (Loop.start ctx start).ctx.stats.sent = 0 := congrArg HpingStats.sent hstats
    obtain ⟨hne, hle⟩ := hall
    rw [hsent] at hle
    have := hcount.resolve_left hne
    omega

/-! ### The end of the loop -/

/-- The table has recorded no more than some probes. -/
def Context.RecordedAtMost (n : ℕ) (ctx : Context) : Prop := ∃ m ≤ n, ctx.table.index = (m : ℕ)

theorem Context.RecordedAtMost.add {n : ℕ} {ctx : Context} (h : ctx.RecordedAtMost n)
    (hn : n < 2 ^ 31 - 1) (seq src now : ℤ) :
    ∃ table, ctx.table.add seq src .sent now = some table ∧ ∃ m ≤ n + 1, table.index = (m : ℕ) := by
  obtain ⟨m, hm, hindex⟩ := h
  exact ⟨_, Delaytable.add_eq hindex (by omega) seq src .sent now, m + 1, by omega, rfl⟩

theorem Context.RecordedAtMost.succ {n : ℕ} {ctx : Context} (h : ctx.RecordedAtMost n) :
    ctx.RecordedAtMost (n + 1) := by
  obtain ⟨m, hm, hindex⟩ := h
  exact ⟨m, by omega, hindex⟩

theorem recordPort_isSome {n : ℕ} {ctx : Context} (h : ctx.RecordedAtMost n) (hn : n < 2 ^ 31 - 1)
    (cfg : Config) (now : ℤ) :
    ∃ ctx', recordPort cfg ctx now = some ctx' ∧ ctx'.RecordedAtMost (n + 1) := by
  obtain ⟨table, hadd, hindex⟩ := h.add hn ctx.sequence ctx.srcPort now
  exact ⟨_, Option.map_eq_some_iff.mpr ⟨table, hadd, rfl⟩, hindex⟩

theorem recordIcmp_isSome {n : ℕ} {ctx : Context} (h : ctx.RecordedAtMost n) (hn : n < 2 ^ 31 - 1)
    (request : ℕ) (cfg : Config) (now : ℤ) :
    ∃ ctx', recordIcmp request cfg ctx now = some ctx' ∧ ctx'.RecordedAtMost (n + 1) := by
  rw [recordIcmp]
  split_ifs
  · obtain ⟨table, hadd, hindex⟩ := h.add hn ctx.icmpSeq 0 now
    exact ⟨_, Option.map_eq_some_iff.mpr ⟨table, hadd, rfl⟩, hindex⟩
  · exact ⟨_, rfl, h.succ⟩

theorem keepBooks_isSome {n : ℕ} {ctx : Context} (h : ctx.RecordedAtMost n) (hn : n < 2 ^ 31 - 1)
    (cfg : Config) (now : ℤ) :
    ∃ r, keepBooks cfg ctx now = some r ∧ r.2.RecordedAtMost (n + 1) := by
  have hmap : ∀ o : Option Context, (∃ ctx', o = some ctx' ∧ ctx'.RecordedAtMost (n + 1)) →
      ∃ r : Bool × Context, o.map (true, ·) = some r ∧ r.2.RecordedAtMost (n + 1) := by
    rintro o ⟨ctx', rfl, hctx'⟩
    exact ⟨(true, ctx'), rfl, hctx'⟩
  rw [keepBooks, sendIcmp]
  split_ifs
  · exact ⟨_, rfl, h.succ⟩
  · exact hmap _ (recordIcmp_isSome h hn icmpEcho cfg now)
  · exact ⟨_, rfl, h.succ⟩
  · exact hmap _ (recordIcmp_isSome h hn icmpTimestamp cfg now)
  · exact hmap _ (recordIcmp_isSome h hn icmpTimestamp cfg now)
  · exact ⟨_, rfl, h.succ⟩
  · exact hmap _ (recordPort_isSome h hn cfg now)
  · exact hmap _ (recordPort_isSome h hn cfg now)

theorem sendPacket_isSome {n : ℕ} {ctx : Context} (h : ctx.RecordedAtMost n) (hn : n < 2 ^ 31 - 1)
    (cfg : Config) (sending : Sending) :
    ∃ r, sendPacket cfg ctx sending = some r ∧ r.2.RecordedAtMost (n + 1) := by
  rw [sendPacket]
  split_ifs
  · exact ⟨_, rfl, h.succ⟩
  · exact ⟨_, rfl, h.succ⟩
  · have hselect : (ctx.selectRandom cfg sending).RecordedAtMost n := h
    obtain ⟨⟨supported, ctx'⟩, hbooks, hctx'⟩ :=
      keepBooks_isSome hselect hn cfg sending.sentUs
    refine ⟨_, Option.map_eq_some_iff.mpr ⟨(supported, ctx'), hbooks, rfl⟩, ?_⟩
    dsimp only
    split_ifs
    · exact hctx'
    · exact hctx'

theorem Context.RecordedAtMost.keeps {n : ℕ} {ctx ctx' : Context} (h : ctx.RecordedAtMost n)
    (hkeeps : Keeps ctx ctx') : ctx'.RecordedAtMost n := by
  obtain ⟨m, hm, hindex⟩ := h
  exact ⟨m, hm, hkeeps.index.trans hindex⟩

theorem Loop.sendDueProbe_isSome {n : ℕ} (h : s.ctx.RecordedAtMost n) (hn : n < 2 ^ 31 - 1)
    (now : ℤ) (sending : Sending) :
    ∃ r, s.sendDueProbe cfg now sending = some r ∧ r.2.ctx.RecordedAtMost (n + 1) := by
  obtain ⟨⟨sent, ctx⟩, hpacket, hctx⟩ := sendPacket_isSome h hn cfg.toConfig sending
  refine ⟨_, Option.map_eq_some_iff.mpr ⟨(sent, ctx), hpacket, rfl⟩, ?_⟩
  dsimp only
  split_ifs
  · exact hctx
  · exact hctx
  · exact hctx
  · exact hctx

/-- A turn records one probe at most. -/
theorem Loop.turn_isSome {n : ℕ} (h : s.ctx.RecordedAtMost n) (hn : n < 2 ^ 31 - 1) (t : Turn) :
    ∃ s', s.turn cfg t = some s' ∧ s'.ctx.RecordedAtMost (n + 1) := by
  have hidle : s.Idle cfg (s.handlePendingSignals cfg t.signals) :=
    s.idle_handlePendingSignals t.signals
  have hsignals := h.keeps hidle.keeps
  rw [Loop.turn]
  dsimp only
  generalize s.handlePendingSignals cfg t.signals = u at hsignals hidle
  split_ifs
  · exact ⟨_, rfl, h.succ⟩
  · exact ⟨_, rfl, hsignals.succ⟩
  · exact ⟨_, rfl, (hsignals.keeps (u.ctx.stops_stop .sent).keeps').succ⟩
  · obtain ⟨⟨ok, v⟩, hsend, hv⟩ : ∃ r, u.sendDueProbe cfg t.now t.sending = some r ∧
        r.2.ctx.RecordedAtMost (n + 1) := Loop.sendDueProbe_isSome hsignals hn t.now t.sending
    refine ⟨_, Option.map_eq_some_iff.mpr ⟨(ok, v), hsend, rfl⟩, ?_⟩
    dsimp only
    split_ifs
    · exact hv.keeps (v.idle_await t t.later).keeps
    · exact hv.keeps (v.ctx.stops_stop .error).keeps'
  · exact ⟨_, rfl, (hsignals.keeps (u.idle_await t t.now).keeps).succ⟩

/-- **The main loop goes on** for as long as the index of the delay table does not overflow. -/
theorem Loop.run_isSome {n : ℕ} (h : s.ctx.RecordedAtMost n) {turns : List Turn}
    (hn : n + turns.length < 2 ^ 31) : ∃ s', Events.run (Loop.turn cfg) s turns = some s' := by
  induction turns generalizing s n with
  | nil => exact ⟨s, rfl⟩
  | cons t turns ih =>
    rw [List.length_cons] at hn
    obtain ⟨u, hturn, hu⟩ : ∃ u, s.turn cfg t = some u ∧ u.ctx.RecordedAtMost (n + 1) :=
      Loop.turn_isSome h (by omega) t
    obtain ⟨s', hs'⟩ := ih hu (by omega)
    exact ⟨s', by rw [Events.run_cons, hturn]; exact hs'⟩

end StyxWire.Hping
