import StyxWire.Hping.Matching
import StyxWire.Hping.UniqueReplies

/-!
# Replies to TCP and UDP probes

The probes of `send_tcp` and `send_udp` are told from each other by their source port, which
moves on by one with every probe. The ports of the last probes are all different, and
a reply to one of them finds the slot of its probe (`StyxWire.Hping.port_matching`).

The port of a probe is computed as `(ctx.sequence + cfg.initsport) % 65536`, in `int`. The
sum overflows when the sequence number is near its limit, and the remainder is negative then:
what is recorded is not the port that the probe carries, and no reply to it is found
(`StyxWire.Hping.reply_not_found_after_overflow`).
-/

namespace StyxWire.Hping

/-! ### Ports -/

/-- The port that the probe `k` carries. -/
def sport (cfg : Config) (k : ℕ) : ℕ := ((cfg.initsport + k) % 65536).toNat

/-- The port that is recorded of it. -/
def srcAt (cfg : Config) (k : ℕ) : ℤ := (int32 (k + cfg.initsport)).tmod 65536

/-- A frame that answers the probe `k`. -/
def AnswersPort (cfg : Config) (l : Lookup) (k : ℕ) : Prop := l = .key 0 (sport cfg k)

variable {cfg : Config}

/-- The ports of the last probes differ. -/
theorem Recent.eq_of_sport {n k l : ℕ} (hk : Recent n k) (hl : Recent n l)
    (h : sport cfg k = sport cfg l) : k = l := by
  obtain ⟨hk, hk'⟩ := hk
  obtain ⟨hl, hl'⟩ := hl
  simp only [sport, tablesize] at h hk' hl'
  omega

/-- The header carries the port modulo its size. -/
theorem srcAt_emod (k : ℕ) : (srcAt cfg k % 65536).toNat = sport cfg k := by
  have hmod : srcAt cfg k % 65536 = (cfg.initsport + k) % 65536 := by
    rw [srcAt, int32, Int.tmod_def, Int.bmod_def]
    split_ifs <;> omega
  rw [hmod, sport]

/-- Without an overflow, what is recorded is the port. -/
theorem srcAt_eq {k : ℕ} (h0 : 0 ≤ cfg.initsport) (h : k + cfg.initsport ≤ 2 ^ 31) :
    srcAt cfg k = sport cfg k := by
  rw [srcAt, sport, int32]
  by_cases hlast : k + cfg.initsport = 2 ^ 31
  · rw [add_comm cfg.initsport, hlast]
    rfl
  · rw [Int.bmod_eq_of_le (by omega) (by omega), Int.tmod_eq_emod_of_nonneg (by omega), add_comm]
    omega

/-! ### Sending -/

variable {send : Context → ℤ → Option Context} {start ctx : Context} {es : List Traffic}

/-- The books after some events. -/
structure PortLog (send : Context → ℤ → Option Context) (cfg : Config) (start : Context)
    (es : List Traffic) (ctx : Context) : Prop where
  logged : Logged send cfg start (AnswersPort cfg) (fun k => k) (srcAt cfg) es ctx
  sequence : ctx.sequence = sends es
  srcPort : ctx.srcPort = srcAt cfg (sends es)

theorem portLog_init (h0 : 0 ≤ cfg.initsport) (h1 : cfg.initsport ≤ 65535)
    (htable : start.table = Delaytable.init) (hsequence : start.sequence = 0)
    (hport : start.srcPort = cfg.initsport) : PortLog send cfg start [] start where
  logged := logged_init htable
  sequence := hsequence
  srcPort := by
    have hle : ((0 : ℕ) : ℤ) + cfg.initsport ≤ 2 ^ 31 := by omega
    rw [hport, show sends [] = 0 from rfl, srcAt_eq h0 hle, sport]
    omega

/-- **A probe moves the books on.** -/
theorem PortLog.append_send (h : PortLog send cfg start es ctx) (hkeep : cfg.optKeepstill = false)
    (hsend : send = recordPort cfg) (hn : sends es < 2 ^ 31 - 1) (now : ℤ) :
    ∃ ctx', send ctx now = some ctx' ∧ PortLog send cfg start (es ++ [.send now]) ctx' ∧
      (cfg.optForceIncdport = false → ctx'.dstPort = ctx.dstPort) := by
  obtain ⟨table, hadd⟩ : ∃ table,
      ctx.table.add (sends es : ℤ) (srcAt cfg (sends es)) .sent now = some table :=
    ⟨_, Delaytable.add_eq h.logged.index hn _ _ _ _⟩
  have hsequence : int32 ((sends es : ℤ) + 1) = (sends es + 1 : ℕ) := by
    rw [int32_eq (by omega) (by omega)]
    rfl
  refine ⟨{ ctx with
    table := table
    sequence := (sends es + 1 : ℕ)
    srcPort := srcAt cfg (sends es + 1)
    dstPort := if cfg.optForceIncdport then ctx.dstPort + 1 else ctx.dstPort }, ?_, ?_, ?_⟩
  · rw [hsend, recordPort, h.sequence, h.srcPort, hadd]
    simp only [Option.map_some, hkeep, hsequence, srcAt]
    rfl
  · refine ⟨h.logged.append_send hn hadd ?_, ?_, ?_⟩
    · rw [hsend, recordPort, h.sequence, h.srcPort, hadd]
      simp only [Option.map_some, hkeep, hsequence, srcAt]
      rfl
    · rw [sends_append_send]
    · rw [sends_append_send]
  · intro hforce
    simp [hforce]

/-! ### Receiving -/

/-- What is found by a port that is not zero is one of the last probes, recorded with that port. -/
theorem PortLog.exists_of_find (h : PortLog send cfg start es ctx) {port : ℕ} (hport : port ≠ 0)
    {i : Fin tablesize} (hi : (Lookup.key 0 port).find ctx.table = some i) :
    ∃ k, Recent (sends es) k ∧ slotOf k = i ∧ srcAt cfg k = port := by
  rw [Lookup.find, Nat.cast_zero, Delaytable.search_src] at hi
  rcases Nat.lt_or_ge i.val (sends es) with hlt | hge
  · obtain ⟨k, hk, rfl⟩ := exists_recent hlt
    exact ⟨k, hk, rfl, (h.logged.src k hk).symm.trans hi.1⟩
  · rw [(h.logged.filler i hge).2] at hi
    exact absurd (Int.ofNat_eq_zero.mp hi.1.symm) hport

/-- **A reply finds its probe**: the ports in the table are those that were sent from. -/
theorem PortLog.looksUp (h : PortLog send cfg start es ctx) (h0 : 0 ≤ cfg.initsport)
    (hfits : ∀ k < sends es, k + cfg.initsport ≤ 2 ^ 31) {l : Lookup}
    (hport : ∀ seq port, l = .key seq port → seq = 0 ∧ port ≠ 0) :
    LooksUp (AnswersPort cfg) (sends es) ctx.table l where
  finds := by
    rintro k hk rfl
    rw [Lookup.find, Nat.cast_zero, Delaytable.search_src]
    refine ⟨by rw [h.logged.src k hk, srcAt_eq h0 (hfits k hk.1)], fun j hj hsrc => ?_⟩
    rcases Nat.lt_or_ge j.val (sends es) with hlt | hge
    · obtain ⟨m, hm, rfl⟩ := exists_recent hlt
      rw [h.logged.src m hm, srcAt_eq h0 (hfits m hm.1), Nat.cast_inj] at hsrc
      rw [hm.eq_of_sport hk hsrc] at hj
      exact lt_irrefl _ hj
    · rw [(h.logged.filler j hge).2] at hsrc
      exact (hport 0 (sport cfg k) rfl).2 (Int.ofNat_eq_zero.mp hsrc.symm)
  answers := by
    intro i hi
    cases l with
    | ignored => exact absurd hi (by simp [Lookup.find])
    | unmatched => exact absurd hi (by simp [Lookup.find])
    | key seq port =>
      obtain ⟨rfl, hne⟩ := hport seq port rfl
      obtain ⟨k, hk, hslot, hsrc⟩ := h.exists_of_find hne hi
      rw [srcAt_eq h0 (hfits k hk.1), Nat.cast_inj] at hsrc
      exact Or.inl ⟨k, hk, hslot, by rw [AnswersPort, hsrc]⟩

/-- A frame leaves the books of what is sent. -/
theorem PortLog.append_frame (h : PortLog send cfg start es ctx) {f : Frame} (now : ℤ)
    (hlooks : LooksUp (AnswersPort cfg) (sends es) ctx.table (f.lookup cfg ctx)) :
    PortLog send cfg start (es ++ [.frame f now]) (f.receive cfg ctx now).2 := by
  obtain ⟨table, stats, dstPort, tcpExitcode, hrest⟩ := f.receive_rest cfg ctx now
  refine ⟨h.logged.append_frame now hlooks, ?_, ?_⟩
  · rw [hrest, sends_append_frame]
    exact h.sequence
  · rw [hrest, sends_append_frame]
    exact h.srcPort

/-! ### Runs -/

/-- The number of a probe, and the sum that its port is computed from, are in range; and a reply
that is looked up is addressed to a port that is not zero. -/
def PortStep (cfg : Config) (ctx : Context) : Traffic → Prop
  | .send _ => ctx.sequence < 2 ^ 31 - 1 ∧ ctx.sequence + cfg.initsport ≤ 2 ^ 31
  | .frame f _ => ∀ seq port, f.lookup cfg ctx = .key seq port → seq = 0 ∧ port ≠ 0

/-- The books, as long as every port is recorded as it is. -/
def PortInvariant (send : Context → ℤ → Option Context) (cfg : Config) (start : Context)
    (es : List Traffic) (ctx : Context) : Prop :=
  PortLog send cfg start es ctx ∧ ∀ k < sends es, k + cfg.initsport ≤ 2 ^ 31

theorem PortInvariant.step (hkeep : cfg.optKeepstill = false) (hsend : send = recordPort cfg)
    (h0 : 0 ≤ cfg.initsport) (es : List Traffic) (ctx : Context) (e : Traffic)
    (hinv : PortInvariant send cfg start es ctx) (hstep : PortStep cfg ctx e) :
    ∃ ctx', e.step send cfg ctx = some ctx' ∧ PortInvariant send cfg start (es ++ [e]) ctx' := by
  obtain ⟨hlog, hfits⟩ := hinv
  cases e with
  | send now =>
    obtain ⟨hn, hsum⟩ := hstep
    rw [hlog.sequence] at hn hsum
    obtain ⟨ctx', hsent, hlog', -⟩ := hlog.append_send hkeep hsend (by omega) now
    refine ⟨ctx', hsent, hlog', fun k hk => ?_⟩
    rw [sends_append_send] at hk
    rcases Nat.lt_succ_iff_lt_or_eq.mp hk with hold | rfl
    · exact hfits k hold
    · exact hsum
  | frame f now =>
    refine ⟨_, rfl, hlog.append_frame now (hlog.looksUp h0 hfits hstep), fun k hk => ?_⟩
    rw [sends_append_frame] at hk
    exact hfits k hk

/-- **Every reply is told which probe it answers**, in a run without `--keep` whose ports do not
overflow. The first reply to one of the last probes is told so, and the later ones that they
are duplicates; a reply to a port that none of the last probes was sent from is not matched; and
the slots of the other probes stay as they are. -/
theorem port_matching (hkeep : cfg.optKeepstill = false)
    (hsend : send = sendTcp cfg ∨ send = sendUdp cfg)
    (h0 : 0 ≤ cfg.initsport) (h1 : cfg.initsport ≤ 65535)
    (htable : start.table = Delaytable.init) (hsequence : start.sequence = 0)
    (hport : start.srcPort = cfg.initsport)
    (hmeets : Events.Meets (Traffic.step send cfg) (PortStep cfg) start es)
    {before : List Traffic} {e : Traffic} (hpre : before ++ [e] <+: es) :
    ∃ ctx, Events.run (Traffic.step send cfg) start before = some ctx ∧
      ctx.sport = sport cfg (sends before) ∧
      ∀ f now port, e = .frame f now → f.lookup cfg ctx = .key 0 port →
        ∃ r, (f.receive cfg ctx now).1 = some r ∧
          (∀ k, Recent (sends before) k → sport cfg k = port → r.seq = k ∧
            (¬Answered send cfg start (AnswersPort cfg) before k → r.status = .sent) ∧
            (Answered send cfg start (AnswersPort cfg) before k → r.status = .recv)) ∧
          ((∀ k, Recent (sends before) k → sport cfg k ≠ port) → r.status = .unknown) ∧
          ∀ k, Recent (sends before) k → sport cfg k ≠ port →
            (f.receive cfg ctx now).2.table.slot (slotOf k) = ctx.table.slot (slotOf k) := by
  have hsend' : send = recordPort cfg := hsend.elim id id
  obtain ⟨ctx, hrun, hlog, hfits⟩ := Events.run_invariant (PortInvariant.step hkeep hsend' h0)
    (show PortInvariant send cfg start [] start from
      ⟨portLog_init h0 h1 htable hsequence hport, fun k hk => absurd hk (Nat.not_lt_zero k)⟩)
    (hmeets.of_isPrefix ((List.prefix_append before [e]).trans hpre))
  refine ⟨ctx, hrun, by rw [Context.sport, hlog.srcPort, srcAt_emod, List.nil_append], ?_⟩
  rintro f now port rfl hlookup
  have hstep : PortStep cfg ctx (.frame f now) := (hmeets.of_isPrefix hpre).last hrun
  have hlooks := hlog.looksUp h0 hfits hstep
  have hslots : ∀ k, Recent (sends before) k → sport cfg k ≠ port →
      (f.receive cfg ctx now).2.table.slot (slotOf k) = ctx.table.slot (slotOf k) := by
    intro k hk hne
    refine hlooks.slot_eq now hk fun hanswers => hne ?_
    rw [AnswersPort, hlookup, Lookup.key.injEq] at hanswers
    exact hanswers.2.symm
  by_cases hmatch : ∃ k, Recent (sends before) k ∧ sport cfg k = port
  · obtain ⟨k, hk, hk'⟩ := hmatch
    have hanswers : AnswersPort cfg (f.lookup cfg ctx) k := by rw [AnswersPort, hk', hlookup]
    obtain ⟨r, -, hr, hseq, hrecv, hsent, -, -⟩ := hlog.logged.reply now hlooks hk hanswers
    refine ⟨r, hr, fun l hl hl' => ?_, fun hnone => absurd hk' (hnone k hk), hslots⟩
    -- the port tells the probe
    obtain rfl := hl.eq_of_sport hk (hl'.trans hk'.symm)
    exact ⟨hseq, hsent, hrecv⟩
  · refine ⟨⟨.unknown, 0, 0⟩, ?_, fun k hk hk' => absurd ⟨k, hk, hk'⟩ hmatch, fun _ => rfl, hslots⟩
    have hfind : (f.lookup cfg ctx).find ctx.table = none := by
      refine Option.eq_none_iff_forall_ne_some.mpr fun i hi => hmatch ?_
      rw [hlookup] at hi
      obtain ⟨k, hk, -, hsrc⟩ := hlog.exists_of_find (hstep 0 port hlookup).2 hi
      rw [srcAt_eq h0 (hfits k hk.1), Nat.cast_inj] at hsrc
      exact ⟨k, hk, hsrc⟩
    rw [f.receive_reply, hlookup, Context.ledger]
    exact Lookup.tally_of_not_find (hlookup ▸ hfind) now _

/-- A configuration with a base port. -/
def Config.fromBaseport (port : ℤ) : Config := { Config.plain with initsport := port }

/-- The context before the first probe from it. -/
def Context.startFrom (port : ℤ) : Context := { Context.start 80 with srcPort := port }

theorem port_matching_once :
    ∃ ctx, Events.run (Traffic.step (sendTcp (.fromBaseport 7)) (.fromBaseport 7)) (.startFrom 7)
        [.send 0] = some ctx ∧
      ctx.sport = sport (.fromBaseport 7) 1 ∧
      ∀ f now port, Traffic.frame (.tcp (tcpSegment 80 7)) 5 = .frame f now →
        f.lookup (.fromBaseport 7) ctx = .key 0 port →
        ∃ r, (f.receive (.fromBaseport 7) ctx now).1 = some r ∧
          (∀ k, Recent 1 k → sport (.fromBaseport 7) k = port → r.seq = k ∧
            (¬Answered (sendTcp (.fromBaseport 7)) (.fromBaseport 7) (.startFrom 7)
              (AnswersPort (.fromBaseport 7)) [.send 0] k → r.status = .sent) ∧
            (Answered (sendTcp (.fromBaseport 7)) (.fromBaseport 7) (.startFrom 7)
              (AnswersPort (.fromBaseport 7)) [.send 0] k → r.status = .recv)) ∧
          ((∀ k, Recent 1 k → sport (.fromBaseport 7) k ≠ port) → r.status = .unknown) ∧
          ∀ k, Recent 1 k → sport (.fromBaseport 7) k ≠ port →
            (f.receive (.fromBaseport 7) ctx now).2.table.slot (slotOf k) =
              ctx.table.slot (slotOf k) := by
  have hmeets : Events.Meets (Traffic.step (sendTcp (.fromBaseport 7)) (.fromBaseport 7))
      (PortStep (.fromBaseport 7)) (.startFrom 7) [.send 0, .frame (.tcp (tcpSegment 80 7)) 5] := by
    refine ⟨⟨by decide, by decide⟩, fun ctx hsend => ⟨fun seq port hkey => ?_, fun _ _ => trivial⟩⟩
    rw [Traffic.step, sendTcp, recordPort, Option.map_eq_some_iff] at hsend
    obtain ⟨table, -, rfl⟩ := hsend
    obtain ⟨rfl, rfl⟩ := Lookup.key.inj (show Lookup.key 0 7 = .key seq port from hkey)
    exact ⟨rfl, by decide⟩
  have hpre : [Traffic.send 0] ++ [.frame (.tcp (tcpSegment 80 7)) 5] <+:
      [.send 0, .frame (.tcp (tcpSegment 80 7)) 5] := List.prefix_refl _
  exact port_matching rfl (Or.inl rfl) (by decide) (by decide) rfl rfl rfl hmeets hpre

/-! ### The overflow -/

/-- The books after some probes. -/
theorem portLog_replicate (hkeep : cfg.optKeepstill = false)
    (hforce : cfg.optForceIncdport = false) (h0 : 0 ≤ cfg.initsport) (h1 : cfg.initsport ≤ 65535)
    (htable : start.table = Delaytable.init) (hsequence : start.sequence = 0)
    (hport : start.srcPort = cfg.initsport) (now : ℤ) {n : ℕ} (hn : n < 2 ^ 31) :
    ∃ ctx, PortLog (sendTcp cfg) cfg start (List.replicate n (.send now)) ctx ∧
      sends (List.replicate n (.send now)) = n ∧ ctx.dstPort = start.dstPort := by
  induction n with
  | zero => exact ⟨start, portLog_init h0 h1 htable hsequence hport, rfl, rfl⟩
  | succ n ih =>
    obtain ⟨ctx, hlog, hsends, hdst⟩ := ih (by omega)
    obtain ⟨ctx', -, hlog', hdst'⟩ := hlog.append_send hkeep rfl (by omega) now
    rw [List.replicate_succ']
    refine ⟨ctx', hlog', ?_, (hdst' hforce).trans hdst⟩
    rw [sends_append_send, hsends]

/-- After the probe whose port comes from the sum `2 ^ 31 + 1`, that is from the port one, a reply
to it is looked up in vain. -/
theorem unknown_after_overflow {n : ℕ} (hn : n + 65535 = 2 ^ 31 + 2) :
    ∃ ctx, Events.run (Traffic.step (sendTcp (.fromBaseport 65535)) (.fromBaseport 65535))
        (.startFrom 65535) (List.replicate n (.send 0)) = some ctx ∧
      (Frame.tcp (tcpSegment 80 1)).lookup (.fromBaseport 65535) ctx = .key 0 1 ∧
      ((Frame.tcp (tcpSegment 80 1)).receive (.fromBaseport 65535) ctx 0).1 =
        some ⟨.unknown, 0, 0⟩ := by
  obtain ⟨ctx, hlog, hsends, hdst⟩ : ∃ ctx,
      PortLog (sendTcp (.fromBaseport 65535)) (.fromBaseport 65535) (.startFrom 65535)
        (List.replicate n (.send 0)) ctx ∧
      sends (List.replicate n (.send 0)) = n ∧ ctx.dstPort = (Context.startFrom 65535).dstPort :=
    portLog_replicate rfl rfl (by decide) (by decide) rfl rfl rfl 0 (by omega)
  have hlookup : (Frame.tcp (tcpSegment 80 1)).lookup (.fromBaseport 65535) ctx = .key 0 1 := by
    rw [Frame.lookup, tcpLookup, if_neg (by decide), if_pos]
    · rfl
    · rw [matchesPort, hdst]
      rfl
  have hfind : (Lookup.key 0 1).find ctx.table = none := by
    refine Option.eq_none_iff_forall_ne_some.mpr fun i hi => ?_
    obtain ⟨k, ⟨hlt, hle⟩, -, hsrc⟩ := hlog.exists_of_find (by decide) hi
    rw [hsends] at hlt hle
    have hbase : (Config.fromBaseport 65535).initsport = 65535 := rfl
    by_cases hlast : k + 65535 = 2 ^ 31 + 1
    · -- the sum wrapped, and the remainder is that of a negative number
      rw [srcAt, hbase, show ((k : ℤ) + 65535) = 2 ^ 31 + 1 by omega] at hsrc
      exact absurd hsrc (by decide)
    · have hmod : (srcAt (.fromBaseport 65535) k % 65536).toNat = sport (.fromBaseport 65535) k :=
        srcAt_emod k
      rw [hsrc, sport, hbase] at hmod
      rw [tablesize] at hle
      omega
  refine ⟨ctx, hlog.logged.run, hlookup, ?_⟩
  rw [Frame.receive_reply, hlookup, Context.ledger]
  exact Lookup.tally_of_not_find hfind 0 _

/-- **A reply to the last probe is not matched**, when its port was computed from a sum that
overflowed: the probe carries the port one, and a reply to this port is unknown. -/
theorem reply_not_found_after_overflow :
    ∃ ctx, Events.run (Traffic.step (sendTcp (.fromBaseport 65535)) (.fromBaseport 65535))
        (.startFrom 65535) (List.replicate 2147418115 (.send 0)) = some ctx ∧
      Recent 2147418115 2147418114 ∧ sport (.fromBaseport 65535) 2147418114 = 1 ∧
      (Frame.tcp (tcpSegment 80 1)).lookup (.fromBaseport 65535) ctx = .key 0 1 ∧
      ((Frame.tcp (tcpSegment 80 1)).receive (.fromBaseport 65535) ctx 0).1 =
        some ⟨.unknown, 0, 0⟩ := by
  obtain ⟨ctx, hrun, hlookup, hreply⟩ := unknown_after_overflow (n := 2147418115) (by norm_num)
  exact ⟨ctx, hrun, by constructor <;> decide, by decide, hlookup, hreply⟩

end StyxWire.Hping
