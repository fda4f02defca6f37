import StyxWire.Hping.Send
import StyxWire.Hping.WaitPacket
import StyxWire.Lib.Events

/-!
# The main loop

`main_loop` sends probes and reads replies until there is a reason to stop (`lifecycle.c`).
A turn of it (`StyxWire.Hping.Loop.turn`) takes the signals that have arrived, ends the loop
if it is to end, sends a probe if one is due, and waits for a frame. What it gets from
outside is `StyxWire.Hping.Turn`: the signals, the readings of the clock, what becomes of the
probe, and what the wait gives.

The wait may come back at any time, whatever timeout it was given; the timeout is in the
state because it is computed from the second reading of the clock. The moments at which
probes were sent are also there (`StyxWire.Hping.Loop.sentAt`); the source does not keep them.
-/

namespace StyxWire.Hping

/-- What `ctrl-z` is bound to. -/
inductive Ctrlzbind
  | dport
  | ttl
  | none
  deriving DecidableEq, Repr

/-- The options of the loop. -/
structure LoopConfig extends Config where
  /-- `--bind`. -/
  ctrlzbind : Ctrlzbind
  /-- `--interval`, in microseconds. -/
  optWaitinusec : Bool
  /-- `cfg.usec_delay.it_interval.tv_usec`. -/
  usecDelay : ℤ
  /-- `--interval`, in seconds. -/
  sendingWait : ℤ
  /-- `--read`: nothing is sent. -/
  receiveOnly : Bool
  /-- `--dry-run`: nothing is received. -/
  optDryRun : Bool

/-- `COUNTREACHED_TIMEOUT`, in seconds. -/
def countreachedTimeout : ℤ := 1

/-- `hping_send_interval_us`. -/
def LoopConfig.sendIntervalUs (cfg : LoopConfig) : ℤ :=
  if cfg.optWaitinusec then cfg.usecDelay else cfg.sendingWait * 1000000

/-- The state of the loop. -/
structure Loop where
  ctx : Context
  /-- `last_us` of `inc_destparm`. -/
  lastUs : ℤ
  /-- When the next probe is due. -/
  nextSendUs : ℤ
  /-- When to stop waiting for late replies, -1 as long as there are probes to send. -/
  endDeadlineUs : ℤ
  /-- The timeout of the last wait. -/
  timeout : ℤ
  /-- Whether the loop was left. -/
  ended : Bool
  /-- The readings of the clock at which a probe was sent, the last one first. -/
  sentAt : List ℤ

/-- The loop before its first turn. -/
def Loop.start (ctx : Context) (now : ℤ) : Loop where
  ctx := ctx
  lastUs := 0
  nextSendUs := now
  endDeadlineUs := -1
  timeout := 0
  ended := false
  sentAt := []

/-- The signals that arrived: whether `ctrl-z` was among them, with the reading of the clock
then, and whether one that ends the program was. -/
structure Signals where
  tstp : Option ℤ
  stop : Bool

/-- What a wait gives. -/
inductive Wait
  | error
  | nothing
  /-- There is something to read, and the reading of the clock when it is handled. -/
  | ready (read : ReadPacket) (now : ℤ)

/-- What a turn takes from outside. -/
structure Turn where
  /-- The signals at its beginning. -/
  signals : Signals
  /-- The first reading of the clock. -/
  now : ℤ
  /-- What becomes of the probe, if one is due. -/
  sending : Sending
  /-- The reading of the clock after it is sent. -/
  later : ℤ
  /-- What the wait gives. -/
  wait : Wait
  /-- The signals after the sleep, with `--dry-run`. -/
  pending : Signals

/-! ### The parts of a turn -/

/-- The parameter that `inc_destparm` changes: two presses within 200 ms count down. -/
def incDestparm (lastUs now p : ℤ) : ℤ :=
  if lastUs ≠ 0 ∧ now - lastUs < 200000 then
    let p := if p > 0 then p - 2 else p
    if p < 0 then 0 else p
  else p + 1

/-- `inc_destparm`. The time to live is not used here. -/
def Loop.incDestparm (cfg : LoopConfig) (s : Loop) (now : ℤ) : Loop :=
  match cfg.ctrlzbind with
  | .dport =>
    { s with
      ctx := { s.ctx with dstPort := Hping.incDestparm s.lastUs now s.ctx.dstPort }
      lastUs := now }
  | .ttl => { s with lastUs := now }
  | .none => s

/-- `handle_pending_signals`. -/
def Loop.handlePendingSignals (cfg : LoopConfig) (s : Loop) (signals : Signals) : Loop :=
  let s :=
    match signals.tstp with
    | some now => s.incDestparm cfg now
    | none => s
  if signals.stop ∧ s.ctx.stopReason = .none then
    { s with ctx := { s.ctx with stopReason := .signal } }
  else s

/-- `all_probes_sent`. -/
def allProbesSent (cfg : LoopConfig) (ctx : Context) : Prop :=
  cfg.count ≠ -1 ∧ cfg.count ≤ ctx.stats.sent

instance (cfg : LoopConfig) (ctx : Context) : Decidable (allProbesSent cfg ctx) :=
  inferInstanceAs (Decidable (_ ∧ _))

/-- `send_due_probe`: whether it was sent. -/
def Loop.sendDueProbe (cfg : LoopConfig) (s : Loop) (now : ℤ) (sending : Sending) :
    Option (Bool × Loop) :=
  (sendPacket cfg.toConfig s.ctx sending).map fun (ok, ctx) =>
    if ¬ok then (false, { s with ctx := ctx })
    else if allProbesSent cfg ctx then
      (true,
        { s with
          ctx := ctx
          endDeadlineUs := now + countreachedTimeout * 1000000
          sentAt := now :: s.sentAt })
    else
      let due := s.nextSendUs + cfg.sendIntervalUs
      (true,
        { s with
          ctx := ctx
          nextSendUs := if due < now then now else due
          sentAt := now :: s.sentAt })

/-- `hping_stop`, and out of the loop. -/
def Loop.leave (s : Loop) (reason : StopReason) : Loop :=
  { s with ctx := s.ctx.stop reason, ended := true }

/-- How long to wait. -/
def Loop.waitTimeout (cfg : LoopConfig) (s : Loop) (now : ℤ) : ℤ :=
  let timeout :=
    if cfg.receiveOnly then 0
    else if ¬allProbesSent cfg s.ctx then s.nextSendUs - now
    else s.endDeadlineUs - now
  if timeout < 0 then 0 else timeout

/-- The rest of a turn: the wait, and the frame that it gives. -/
def Loop.await (cfg : LoopConfig) (s : Loop) (t : Turn) (now : ℤ) : Loop :=
  let s := { s with timeout := s.waitTimeout cfg now }
  if cfg.optDryRun then s.handlePendingSignals cfg t.pending
  else
    match t.wait with
    | .error => s.leave .error
    | .nothing => s
    | .ready read now => { s with ctx := (waitPacket cfg.toConfig s.ctx read now).2 }

/-- A turn of `main_loop`. When it was left, nothing happens any more. -/
def Loop.turn (cfg : LoopConfig) (s : Loop) (t : Turn) : Option Loop :=
  if s.ended then some s
  else
    let s := s.handlePendingSignals cfg t.signals
    if s.ctx.stopReason ≠ .none then some { s with ended := true }
    else if s.endDeadlineUs ≠ -1 ∧ s.endDeadlineUs ≤ t.now then some (s.leave .sent)
    else if ¬cfg.receiveOnly ∧ ¬allProbesSent cfg s.ctx ∧ s.nextSendUs ≤ t.now then
      (s.sendDueProbe cfg t.now t.sending).map fun (ok, s) =>
        if ok then s.await cfg t t.later else s.leave .error
    else some (s.await cfg t t.now)

end StyxWire.Hping
