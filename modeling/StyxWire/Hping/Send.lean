import StyxWire.Hping.Receive

/-!
# Recording probes

The books that the senders keep: what they put into the delay table, and the numbers and
ports of the next probe (`sendtcp.c`, `sendudp.c`, `sendicmp.c`). They keep them whether or
not the datagram is sent in the end. The datagram itself is not modelled here, except for
the field that a reply repeats (`StyxWire.Hping.Context.sport`,
`StyxWire.Hping.Context.echoSequence`), which has 16 bits.
-/

namespace StyxWire.Hping

/-- `th_sport` and `uh_sport` of the next probe. -/
def Context.sport (ctx : Context) : ℕ := (ctx.srcPort % 65536).toNat

/-- `un.echo.sequence` of the next probe. -/
def Context.echoSequence (ctx : Context) : ℕ := (ctx.icmpSeq % 65536).toNat

/-- A probe from a port. -/
def recordPort (cfg : Config) (ctx : Context) (now : ℤ) : Option Context :=
  (ctx.table.add ctx.sequence ctx.srcPort .sent now).map fun table =>
    let sequence := int32 (ctx.sequence + 1)
    { ctx with
      table := table
      sequence := sequence
      srcPort :=
        if cfg.optKeepstill then ctx.srcPort else (int32 (sequence + cfg.initsport)).tmod 65536
      dstPort := if cfg.optForceIncdport then ctx.dstPort + 1 else ctx.dstPort }

/-- `send_tcp`. -/
def sendTcp : Config → Context → ℤ → Option Context := recordPort

/-- `send_udp`. -/
def sendUdp : Config → Context → ℤ → Option Context := recordPort

/-- A probe with a sequence number, which is recorded if it is of this type. -/
def recordIcmp (request : ℕ) (cfg : Config) (ctx : Context) (now : ℤ) : Option Context :=
  (if cfg.optIcmptype = request then ctx.table.add ctx.icmpSeq 0 .sent now
    else some ctx.table).map fun table =>
    { ctx with table := table, icmpSeq := int32 (ctx.icmpSeq + 1) }

/-- `send_icmp_echo`. -/
def sendIcmpEcho : Config → Context → ℤ → Option Context := recordIcmp icmpEcho

/-- `send_icmp_timestamp`. -/
def sendIcmpTimestamp : Config → Context → ℤ → Option Context := recordIcmp icmpTimestamp

/-- `send_icmp_address`, which compares with the type of a timestamp, too. -/
def sendIcmpAddress : Config → Context → ℤ → Option Context := recordIcmp icmpTimestamp

/-- `send_icmp`: whether the type is one that can be sent, and the books. Those of
`send_icmp_other` are empty. -/
def sendIcmp (cfg : Config) (ctx : Context) (now : ℤ) : Option (Bool × Context) :=
  if cfg.optIcmptype = icmpEcho ∨ cfg.optIcmptype = icmpEchoreply then
    (sendIcmpEcho cfg ctx now).map (true, ·)
  else if cfg.optIcmptype ∈ [3, 4, 5, 11] then some (true, ctx)
  else if cfg.optIcmptype = icmpTimestamp ∨ cfg.optIcmptype = icmpTimestampreply then
    (sendIcmpTimestamp cfg ctx now).map (true, ·)
  else if cfg.optIcmptype = icmpAddress ∨ cfg.optIcmptype = icmpAddressreply then
    (sendIcmpAddress cfg ctx now).map (true, ·)
  else some (cfg.optForceIcmp, ctx)

/-! ### Sending a probe -/

/-- What becomes of a probe. -/
inductive Outcome
  /-- The packet is not built, for want of memory, say. -/
  | unbuilt
  /-- The datagram is not sent. -/
  | unsent
  | sent
  deriving DecidableEq, Repr

/-- What a probe takes from its surroundings. -/
structure Sending where
  /-- The address for `--rand-dest`, unless the template is wrong. -/
  dest : Option (List UInt8)
  /-- The address for `--rand-source`. -/
  source : List UInt8
  /-- What becomes of it. -/
  outcome : Outcome
  /-- The time that is recorded. -/
  sentUs : ℤ

/-- The books of a probe of the selected mode, and whether there is such a mode. -/
def keepBooks (cfg : Config) (ctx : Context) (now : ℤ) : Option (Bool × Context) :=
  if cfg.optRawipmode then some (true, ctx)
  else if cfg.optIcmpmode then sendIcmp cfg ctx now
  else if cfg.optUdpmode then (sendUdp cfg ctx now).map (true, ·)
  else (sendTcp cfg ctx now).map (true, ·)

/-- `select_next_random_dest` and `select_next_random_source`. -/
def Context.selectRandom (cfg : Config) (ctx : Context) (s : Sending) : Context :=
  { ctx with
    remoteAddr := if cfg.optRandDest then s.dest.getD ctx.remoteAddr else ctx.remoteAddr
    localAddr := if cfg.optRandSource then s.source else ctx.localAddr }

/-- `send_packet`: whether a probe was sent. -/
def sendPacket (cfg : Config) (ctx : Context) (s : Sending) : Option (Bool × Context) :=
  if cfg.optRandDest ∧ s.dest = none then some (false, ctx)
  else if s.outcome = .unbuilt then some (false, ctx.selectRandom cfg s)
  else
    (keepBooks cfg (ctx.selectRandom cfg s) s.sentUs).map fun (supported, ctx) =>
      if supported ∧ s.outcome = .sent then (true, { ctx with stats := ctx.stats.onSent })
      else (false, ctx)

/-! ### What is left alone -/

/-- The books do not count anything, and do not end the loop. -/
structure Recorded (ctx ctx' : Context) : Prop where
  stats : ctx'.stats = ctx.stats
  stopReason : ctx'.stopReason = ctx.stopReason

theorem recordPort_recorded {cfg : Config} {ctx ctx' : Context} {now : ℤ}
    (h : recordPort cfg ctx now = some ctx') : Recorded ctx ctx' := by
  obtain ⟨table, -, rfl⟩ := Option.map_eq_some_iff.mp h
  exact ⟨rfl, rfl⟩

theorem recordIcmp_recorded {request : ℕ} {cfg : Config} {ctx ctx' : Context} {now : ℤ}
    (h : recordIcmp request cfg ctx now = some ctx') : Recorded ctx ctx' := by
  obtain ⟨table, -, rfl⟩ := Option.map_eq_some_iff.mp h
  exact ⟨rfl, rfl⟩

theorem keepBooks_recorded {cfg : Config} {ctx : Context} {now : ℤ} {r : Bool × Context}
    (h : keepBooks cfg ctx now = some r) : Recorded ctx r.2 := by
  rw [keepBooks, sendIcmp] at h
  split_ifs at h
  · exact Option.some.inj h ▸ ⟨rfl, rfl⟩
  · obtain ⟨ctx', h', rfl⟩ := Option.map_eq_some_iff.mp h
    exact recordIcmp_recorded h'
  · exact Option.some.inj h ▸ ⟨rfl, rfl⟩
  · obtain ⟨ctx', h', rfl⟩ := Option.map_eq_some_iff.mp h
    exact recordIcmp_recorded h'
  · obtain ⟨ctx', h', rfl⟩ := Option.map_eq_some_iff.mp h
    exact recordIcmp_recorded h'
  · exact Option.some.inj h ▸ ⟨rfl, rfl⟩
  · obtain ⟨ctx', h', rfl⟩ := Option.map_eq_some_iff.mp h
    exact recordPort_recorded h'
  · obtain ⟨ctx', h', rfl⟩ := Option.map_eq_some_iff.mp h
    exact recordPort_recorded h'

/-- **A probe that is sent is counted**, and nothing else is. -/
theorem sendPacket_cases {cfg : Config} {ctx : Context} {s : Sending} {ok : Bool} {ctx' : Context}
    (h : sendPacket cfg ctx s = some (ok, ctx')) :
    ctx'.stopReason = ctx.stopReason ∧
      ctx'.stats = if ok then ctx.stats.onSent else ctx.stats := by
  rw [sendPacket] at h
  split_ifs at h with hdest hunbuilt
  · obtain ⟨rfl, rfl⟩ := Prod.mk.inj (Option.some.inj h)
    exact ⟨rfl, rfl⟩
  · obtain ⟨rfl, rfl⟩ := Prod.mk.inj (Option.some.inj h)
    exact ⟨rfl, rfl⟩
  · obtain ⟨⟨supported, ctx''⟩, hbooks, hr⟩ := Option.map_eq_some_iff.mp h
    have hrecorded := keepBooks_recorded hbooks
    dsimp only at hr
    split_ifs at hr with hsent
    · obtain ⟨rfl, rfl⟩ := Prod.mk.inj hr
      exact ⟨hrecorded.stopReason, congrArg HpingStats.onSent hrecorded.stats⟩
    · obtain ⟨rfl, rfl⟩ := Prod.mk.inj hr
      exact ⟨hrecorded.stopReason, hrecorded.stats⟩

end StyxWire.Hping
