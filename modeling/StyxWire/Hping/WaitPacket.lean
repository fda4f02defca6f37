import StyxWire.Hping.Lookup

/-!
# What a captured frame does

`wait_packet` hands a frame to `handle_hcmp` and then to one of the functions that look for
the probe it answers, and may end the loop. This module says what can come of that, for the
context as a whole (`StyxWire.Hping.waitPacket_cases`): a control message is obeyed, a reply
is counted, and the loop is ended, in this order and each of them or not.
-/

namespace StyxWire.Hping

variable (cfg : Config)

/-! ### Stopping -/

/-- A context that differs in why the loop ended, which is set once. -/
structure Stops (ctx ctx' : Context) : Prop where
  rest : ∃ reason, ctx' = { ctx with stopReason := reason }
  keeps : ctx.stopReason ≠ .none → ctx'.stopReason = ctx.stopReason

theorem Stops.refl (ctx : Context) : Stops ctx ctx := ⟨⟨ctx.stopReason, rfl⟩, fun _ => rfl⟩

theorem Stops.trans {ctx ctx' ctx'' : Context} (h : Stops ctx ctx') (h' : Stops ctx' ctx'') :
    Stops ctx ctx'' := by
  obtain ⟨⟨reason, rfl⟩, hkeeps⟩ := h
  obtain ⟨⟨reason', rfl⟩, hkeeps'⟩ := h'
  refine ⟨⟨reason', rfl⟩, fun hne => ?_⟩
  have hreason := hkeeps hne
  exact (hkeeps' (hreason ▸ hne)).trans hreason

/-- **The reason is set once.** -/
theorem Context.stops_stop (ctx : Context) (reason : StopReason) : Stops ctx (ctx.stop reason) := by
  rw [Context.stop]
  split_ifs with h
  · exact ⟨⟨reason, rfl⟩, fun hne => absurd h hne⟩
  · exact Stops.refl ctx

theorem Context.stops_trStop (ctx : Context) (protocol : ℕ) (packet : List UInt8) :
    Stops ctx (ctx.trStop cfg protocol packet) := by
  rw [Context.trStop]
  split_ifs
  · exact (ctx.stops_stop _).trans (Context.stops_stop _ _)
  · exact ctx.stops_stop _
  · exact ctx.stops_stop _
  · exact Stops.refl ctx
  · exact Stops.refl ctx

theorem Context.stops_countReached (ctx : Context) : Stops ctx (ctx.countReached cfg) := by
  rw [Context.countReached]
  split_ifs
  · exact ctx.stops_stop _
  · exact Stops.refl ctx

/-! ### Frames -/

/-- The context after the control message of a datagram, if there is one. -/
def Context.withHcmp (ctx : Context) (datagram : List UInt8) : Context :=
  if cfg.optSign then handleHcmp cfg ctx datagram else ctx

/-- What can come of a datagram. -/
inductive Waits (ctx : Context) (datagram : List UInt8) (now : ℤ) : Context → Prop
  /-- Nothing. -/
  | ignored : Waits ctx datagram now ctx
  /-- It may hold a control message, but it does not answer a probe. -/
  | control : Waits ctx datagram now (ctx.withHcmp cfg datagram)
  /-- It may answer a probe, too. -/
  | reply (f : Frame) {ctx' : Context}
      (hstops : Stops (f.receive cfg (ctx.withHcmp cfg datagram) now).2 ctx') :
      Waits ctx datagram now (ctx'.countReached cfg)

/-- **What a datagram does.** -/
theorem waitDatagram_cases (ctx : Context) (datagram : List UInt8) (now : ℤ) :
    Waits cfg ctx datagram now (waitDatagram cfg ctx datagram now).2 := by
  have hreply : ∀ (f : Frame) (protocol : ℕ) (packet : List UInt8),
      Waits cfg ctx datagram now
        ((if (f.receive cfg (ctx.withHcmp cfg datagram) now).1.isSome then
            (f.receive cfg (ctx.withHcmp cfg datagram) now).2.trStop cfg protocol packet
          else (f.receive cfg (ctx.withHcmp cfg datagram) now).2).countReached cfg) := by
    intro f protocol packet
    refine Waits.reply f ?_
    split_ifs
    · exact Context.stops_trStop cfg _ protocol packet
    · exact Stops.refl _
  have hhcmp : (if cfg.optSign then handleHcmp cfg ctx datagram else ctx) =
      ctx.withHcmp cfg datagram := rfl
  rw [waitDatagram, hhcmp]
  dsimp only
  split_ifs with hlen hversion hsize hlocal hremote hicmp hudp htcp
  · exact Waits.ignored
  · exact Waits.ignored
  · exact Waits.ignored
  · exact Waits.control
  · exact Waits.control
  · exact hreply (.icmp datagram _) _ _
  · exact hreply (.udp _) _ _
  · exact hreply (.tcp _) _ _
  · exact Waits.control

/-- **Only a control message moves the sender** of a file. -/
theorem Waits.srcId_filePos {cfg : Config} {ctx ctx' : Context} {datagram : List UInt8} {now : ℤ}
    (h : Waits cfg ctx datagram now ctx') :
    (ctx'.srcId = ctx.srcId ∧ ctx'.filePos = ctx.filePos) ∨
      (ctx'.srcId = (ctx.withHcmp cfg datagram).srcId ∧
        ctx'.filePos = (ctx.withHcmp cfg datagram).filePos) := by
  cases h with
  | ignored => exact Or.inl ⟨rfl, rfl⟩
  | control => exact Or.inr ⟨rfl, rfl⟩
  | reply f hstops =>
    rename_i ctx'
    obtain ⟨⟨reason, hreason⟩, -⟩ := hstops.trans (ctx'.stops_countReached cfg)
    obtain ⟨table, stats, dstPort, tcpExitcode, hrest⟩ :=
      f.receive_rest cfg (ctx.withHcmp cfg datagram) now
    rw [hreason, hrest]
    exact Or.inr ⟨rfl, rfl⟩

end StyxWire.Hping
