import StyxWire.Hping.Matching

/-!
# Replies to echo requests

The probes of `send_icmp_echo` are numbered from zero. The number is an `int` in the delay
table, but it has 16 bits in the message, and a reply repeats those. `rtt` compares them with
the `int`, and takes a number zero for none at all: it looks the reply up by the source port
then, which is zero for all the probes, and finds the slot zero.

So a reply to one of the last probes is matched to this probe if its number still fits 16
bits, or if its 16 bits are zero and it is in the slot zero
(`StyxWire.Hping.echo_matching`). In a run of more than 65536 probes the replies are not found
any more (`StyxWire.Hping.echo_reply_not_found`).
-/

namespace StyxWire.Hping

/-- A frame that answers the probe `k`: it repeats 16 bits of its number. -/
def AnswersEcho (l : Lookup) (k : ℕ) : Prop := l = .key (k % 65536) 0

variable {cfg : Config} {start ctx : Context} {es : List Traffic}

/-- The books after some events. -/
structure EchoLog (cfg : Config) (start : Context) (es : List Traffic) (ctx : Context) : Prop where
  logged : Logged (sendIcmpEcho cfg) cfg start AnswersEcho (fun k => k) (fun _ => 0) es ctx
  icmpSeq : ctx.icmpSeq = sends es

theorem echoLog_init (htable : start.table = Delaytable.init) (hseq : start.icmpSeq = 0) :
    EchoLog cfg start [] start where
  logged := logged_init htable
  icmpSeq := hseq

/-- **A probe moves the books on.** -/
theorem EchoLog.append_send (h : EchoLog cfg start es ctx) (htype : cfg.optIcmptype = icmpEcho)
    (hn : sends es < 2 ^ 31 - 1) (now : ℤ) :
    ∃ ctx', sendIcmpEcho cfg ctx now = some ctx' ∧ EchoLog cfg start (es ++ [.send now]) ctx' := by
  obtain ⟨table, hadd⟩ : ∃ table, ctx.table.add (sends es : ℤ) 0 .sent now = some table :=
    ⟨_, Delaytable.add_eq h.logged.index hn _ _ _ _⟩
  have hnext : int32 (ctx.icmpSeq + 1) = (sends es + 1 : ℕ) := by
    rw [h.icmpSeq, int32_eq (by omega) (by omega)]
    rfl
  have hsend : sendIcmpEcho cfg ctx now =
      some { ctx with table := table, icmpSeq := (sends es + 1 : ℕ) } := by
    rw [sendIcmpEcho, recordIcmp, if_pos htype, hnext, h.icmpSeq, hadd]
    rfl
  refine ⟨_, hsend, h.logged.append_send hn hadd hsend, ?_⟩
  rw [sends_append_send]

/-- A slot that is found by a number that is not zero is that of the probe with this number. -/
theorem EchoLog.exists_of_find (h : EchoLog cfg start es ctx) {seq : ℕ} (hseq : seq ≠ 0) (port : ℕ)
    {i : Fin tablesize} (hi : (Lookup.key seq port).find ctx.table = some i) :
    Recent (sends es) seq ∧ slotOf seq = i := by
  rw [Lookup.find, Delaytable.search_seq (Int.ofNat_ne_zero.mpr hseq)] at hi
  rcases Nat.lt_or_ge i.val (sends es) with hlt | hge
  · obtain ⟨k, hk, rfl⟩ := exists_recent hlt
    have hnumber := (h.logged.seq k hk).symm.trans hi.1
    rw [Nat.cast_inj] at hnumber
    exact hnumber ▸ ⟨hk, rfl⟩
  · have hnumber := (h.logged.filler i hge).1.symm.trans hi.1
    omega

/-- The slot zero is found by the number zero. -/
theorem EchoLog.find_zero (h : EchoLog cfg start es ctx) :
    (Lookup.key 0 0).find ctx.table = some (slotOf 0) := by
  rw [Lookup.find, Nat.cast_zero, Delaytable.search_src]
  refine ⟨?_, fun j hj => absurd hj (Nat.not_lt_zero j.val)⟩
  rcases Nat.eq_zero_or_pos (sends es) with hzero | hpos
  · exact (h.logged.filler (slotOf 0) (by omega)).2
  · obtain ⟨k, hk, hslot⟩ := exists_recent (i := slotOf 0) hpos
    rw [← hslot]
    exact h.logged.src k hk

/-- A reply with the 16 bits `seq` is looked up rightly. If they are not zero, the probe among the
last that has them has no others. If they are zero, this probe is in the slot zero; and if there
is none, no probe in the slot zero waits for its answer. -/
def EchoStep (cfg : Config) (ctx : Context) : Traffic → Prop
  | .send _ => ctx.table.index < 2 ^ 31 - 1
  | .frame f _ => ∀ seq port, f.lookup cfg ctx = .key seq port → port = 0 ∧
      (seq ≠ 0 → ∀ k, Recent ctx.table.index.toNat k → k % 65536 = seq → k < 65536) ∧
      (seq = 0 → (∀ k, Recent ctx.table.index.toNat k → k % 65536 = 0 → k % tablesize = 0) ∧
        (ctx.table.index = 0 ∨ (ctx.table.slot (slotOf 0)).status = .recv ∨
          (ctx.table.slot (slotOf 0)).seq % 65536 = 0))

/-- **A reply finds its probe.** -/
theorem EchoLog.looksUp (h : EchoLog cfg start es ctx) {f : Frame} {now : ℤ}
    (hstep : EchoStep cfg ctx (.frame f now)) :
    LooksUp AnswersEcho (sends es) ctx.table (f.lookup cfg ctx) := by
  have hindex : ctx.table.index.toNat = sends es := by rw [h.logged.index]; rfl
  constructor
  · intro k hk hanswers
    obtain ⟨-, hother, hzero⟩ := hstep _ _ hanswers
    rw [hindex] at hother hzero
    rw [hanswers]
    by_cases hseq : k % 65536 = 0
    · have hslot : slotOf k = slotOf 0 := Fin.ext ((hzero hseq).1 k hk hseq)
      rw [hseq, hslot]
      exact h.find_zero
    · have hlt : k % 65536 = k := Nat.mod_eq_of_lt (hother hseq k hk rfl)
      rw [hlt] at hseq ⊢
      rw [Lookup.find, Delaytable.search_seq (Int.ofNat_ne_zero.mpr hseq)]
      refine ⟨h.logged.seq k hk, fun j hj hfound => ?_⟩
      rcases Nat.lt_or_ge j.val (sends es) with hlt | hge
      · obtain ⟨m, hm, rfl⟩ := exists_recent hlt
        rw [h.logged.seq m hm, Nat.cast_inj] at hfound
        exact absurd (hfound ▸ hj) (lt_irrefl _)
      · rw [(h.logged.filler j hge).1] at hfound
        omega
  · intro i hi
    rcases hlookup : f.lookup cfg ctx with _ | _ | ⟨seq, port⟩
    · exact absurd hi (by simp [hlookup, Lookup.find])
    · exact absurd hi (by simp [hlookup, Lookup.find])
    · obtain ⟨rfl, -, hzero⟩ := hstep seq port hlookup
      rw [hlookup] at hi
      by_cases hseq : seq = 0
      · subst hseq
        obtain rfl := Option.some.inj (h.find_zero.symm.trans hi)
        rcases Nat.eq_zero_or_pos (sends es) with hnone | hpos
        · exact Or.inr (Or.inr (by omega))
        · obtain ⟨k, hk, hslot⟩ := exists_recent (i := slotOf 0) hpos
          rcases (hzero rfl).2 with hempty | hrecv | hmod
          · rw [h.logged.index] at hempty
            omega
          · exact Or.inr (Or.inl hrecv)
          · rw [← hslot, h.logged.seq k hk] at hmod
            refine Or.inl ⟨k, hk, hslot, ?_⟩
            rw [AnswersEcho, show k % 65536 = 0 by omega]
      · obtain ⟨hrecent, hslot⟩ := h.exists_of_find hseq 0 hi
        refine Or.inl ⟨seq, hrecent, hslot, ?_⟩
        rw [AnswersEcho, Nat.mod_eq_of_lt (f.lookup_lt cfg ctx hlookup)]

/-- A frame leaves the books of what is sent. -/
theorem EchoLog.append_frame (h : EchoLog cfg start es ctx) {f : Frame} (now : ℤ)
    (hlooks : LooksUp AnswersEcho (sends es) ctx.table (f.lookup cfg ctx)) :
    EchoLog cfg start (es ++ [.frame f now]) (f.receive cfg ctx now).2 := by
  obtain ⟨table, stats, dstPort, tcpExitcode, hrest⟩ := f.receive_rest cfg ctx now
  refine ⟨h.logged.append_frame now hlooks, ?_⟩
  rw [hrest, sends_append_frame]
  exact h.icmpSeq

theorem EchoLog.step (htype : cfg.optIcmptype = icmpEcho) (es : List Traffic) (ctx : Context)
    (e : Traffic) (h : EchoLog cfg start es ctx) (hstep : EchoStep cfg ctx e) :
    ∃ ctx', e.step (sendIcmpEcho cfg) cfg ctx = some ctx' ∧ EchoLog cfg start (es ++ [e]) ctx' := by
  cases e with
  | send now =>
    rw [EchoStep, h.logged.index] at hstep
    exact h.append_send htype (by omega) now
  | frame f now => exact ⟨_, rfl, h.append_frame now (h.looksUp hstep)⟩

/-- **A reply to one of the last probes is told of this probe**, with its time and whether it is
the first, in a run whose replies are all looked up rightly. -/
theorem echo_matching (htype : cfg.optIcmptype = icmpEcho) (htable : start.table = Delaytable.init)
    (hseq : start.icmpSeq = 0)
    (hmeets : Events.Meets (Traffic.step (sendIcmpEcho cfg) cfg) (EchoStep cfg) start es)
    {before : List Traffic} {e : Traffic} (hpre : before ++ [e] <+: es) :
    ∃ ctx, Events.run (Traffic.step (sendIcmpEcho cfg) cfg) start before = some ctx ∧
      ctx.echoSequence = sends before % 65536 ∧
      ∀ f now k, e = .frame f now → Recent (sends before) k →
        f.lookup cfg ctx = .key (k % 65536) 0 →
        ∃ r sentUs, (f.receive cfg ctx now).1 = some r ∧ r.seq = k ∧
          (¬Answered (sendIcmpEcho cfg) cfg start AnswersEcho before k → r.status = .sent) ∧
          (Answered (sendIcmpEcho cfg) cfg start AnswersEcho before k → r.status = .recv) ∧
          (sendTimes before)[k]? = some sentUs ∧ r.elapsedUs = max 0 (now - sentUs) := by
  obtain ⟨ctx, hrun, hlog⟩ := Events.run_invariant (EchoLog.step htype)
    (echoLog_init htable hseq) (hmeets.of_isPrefix ((List.prefix_append before [e]).trans hpre))
  rw [List.nil_append] at hlog
  refine ⟨ctx, hrun, by rw [Context.echoSequence, hlog.icmpSeq]; omega, ?_⟩
  rintro f now k rfl hk hanswers
  have hstep : EchoStep cfg ctx (.frame f now) := (hmeets.of_isPrefix hpre).last hrun
  obtain ⟨r, sentUs, hr, hnumber, hrecv, hsent, htime, helapsed⟩ :=
    hlog.logged.reply now (hlog.looksUp hstep) hk hanswers
  exact ⟨r, sentUs, hr, hnumber, hsent, hrecv, htime, helapsed⟩

/-- An echo reply to the probe with a number that fits a byte. -/
def echoReply (seq : UInt8) : List UInt8 := [0, 0, 0, 0, 0, 0, seq, 0]

theorem echo_matching_once :
    ∃ ctx, Events.run (Traffic.step (sendIcmpEcho .plain) .plain) (.start 0) [.send 3] = some ctx ∧
      ctx.echoSequence = 1 % 65536 ∧
      ∀ f now k, Traffic.frame (.icmp [] (echoReply 0)) 5 = .frame f now → Recent 1 k →
        f.lookup .plain ctx = .key (k % 65536) 0 →
        ∃ r sentUs, (f.receive .plain ctx now).1 = some r ∧ r.seq = k ∧
          (¬Answered (sendIcmpEcho .plain) .plain (.start 0) AnswersEcho [.send 3] k →
            r.status = .sent) ∧
          (Answered (sendIcmpEcho .plain) .plain (.start 0) AnswersEcho [.send 3] k →
            r.status = .recv) ∧
          (sendTimes [.send 3])[k]? = some sentUs ∧ r.elapsedUs = max 0 (now - sentUs) := by
  have hmeets : Events.Meets (Traffic.step (sendIcmpEcho .plain) .plain) (EchoStep .plain)
      (.start 0) [.send 3, .frame (.icmp [] (echoReply 0)) 5] := by
    refine ⟨show (0 : ℤ) < 2 ^ 31 - 1 by decide, fun ctx hsend => ⟨fun seq port hkey => ?_,
      fun _ _ => trivial⟩⟩
    obtain ⟨rfl, rfl⟩ := Lookup.key.inj (show Lookup.key 0 0 = .key seq port from hkey)
    have hinit : EchoLog .plain (.start 0) [] (.start 0) := echoLog_init rfl rfl
    obtain ⟨ctx', hsend', hlog⟩ := hinit.append_send rfl (by decide) 3
    obtain rfl := Option.some.inj (hsend'.symm.trans hsend)
    have hindex : ctx'.table.index = 1 := hlog.logged.index
    have hfirst : Recent 1 0 := ⟨by decide, by decide⟩
    refine ⟨rfl, fun hne => absurd rfl hne, fun _ => ⟨fun k hk _ => ?_, Or.inr (Or.inr ?_)⟩⟩
    · rw [hindex] at hk
      obtain rfl : k = 0 := Nat.lt_one_iff.mp hk.1
      rfl
    · rw [hlog.logged.seq 0 hfirst]
      rfl
  have hpre : [Traffic.send 3] ++ [.frame (.icmp [] (echoReply 0)) 5] <+:
      [.send 3, .frame (.icmp [] (echoReply 0)) 5] := List.prefix_refl _
  exact echo_matching rfl rfl rfl hmeets hpre

/-- The books after some probes. -/
theorem echoLog_replicate (htype : cfg.optIcmptype = icmpEcho)
    (htable : start.table = Delaytable.init) (hseq : start.icmpSeq = 0) (now : ℤ) {n : ℕ}
    (hn : n < 2 ^ 31) :
    ∃ ctx, EchoLog cfg start (List.replicate n (.send now)) ctx ∧
      sends (List.replicate n (.send now)) = n := by
  induction n with
  | zero => exact ⟨start, echoLog_init htable hseq, rfl⟩
  | succ n ih =>
    obtain ⟨ctx, hlog, hsends⟩ := ih (by omega)
    obtain ⟨ctx', -, hlog'⟩ := hlog.append_send htype (by omega) now
    rw [List.replicate_succ']
    refine ⟨ctx', hlog', ?_⟩
    rw [sends_append_send, hsends]

/-- After more than 65536 probes the number one is not in the table. -/
theorem unknown_after_wrap {n : ℕ} (hn : n = 65538) :
    ∃ ctx, Events.run (Traffic.step (sendIcmpEcho .plain) .plain) (.start 0)
        (List.replicate n (.send 0)) = some ctx ∧
      (Frame.icmp [] (echoReply 1)).lookup .plain ctx = .key 1 0 ∧
      ((Frame.icmp [] (echoReply 1)).receive .plain ctx 0).1 = some ⟨.unknown, 1, 0⟩ := by
  obtain ⟨ctx, hlog, hsends⟩ : ∃ ctx, EchoLog .plain (.start 0) (List.replicate n (.send 0)) ctx ∧
      sends (List.replicate n (.send 0)) = n := echoLog_replicate rfl rfl rfl 0 (by omega)
  have hlookup : (Frame.icmp [] (echoReply 1)).lookup .plain ctx = .key 1 0 := rfl
  have hfind : (Lookup.key 1 0).find ctx.table = none := by
    refine Option.eq_none_iff_forall_ne_some.mpr fun i hi => ?_
    obtain ⟨⟨-, hle⟩, -⟩ := hlog.exists_of_find (by decide) 0 hi
    rw [hsends, tablesize] at hle
    omega
  refine ⟨ctx, hlog.logged.run, hlookup, ?_⟩
  rw [Frame.receive_reply, hlookup, Context.ledger]
  exact Lookup.tally_of_not_find hfind 0 _

/-- **A reply to the last probe is not matched**, when its number has more than 16 bits: the
probe 65537 carries the sequence number one, and a reply with it is unknown. -/
theorem echo_reply_not_found :
    ∃ ctx, Events.run (Traffic.step (sendIcmpEcho .plain) .plain) (.start 0)
        (List.replicate 65538 (.send 0)) = some ctx ∧
      Recent 65538 65537 ∧
      (Frame.icmp [] (echoReply 1)).lookup .plain ctx = .key (65537 % 65536) 0 ∧
      ((Frame.icmp [] (echoReply 1)).receive .plain ctx 0).1 = some ⟨.unknown, 1, 0⟩ := by
  obtain ⟨ctx, hrun, hlookup, hreply⟩ := unknown_after_wrap (n := 65538) rfl
  exact ⟨ctx, hrun, by constructor <;> decide, hlookup, hreply⟩

end StyxWire.Hping
