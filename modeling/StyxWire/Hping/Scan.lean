import StyxWire.Ars.Setters
import StyxWire.Hping.Receive

/-!
# The port scanner

The scanner of `scan.c`: the port table, the list of ports that is scanned, the steps that send
the probes one round after the other (`StyxWire.Hping.scanStep`), and the frames that are taken
for replies (`StyxWire.Hping.scanProcessPacket`).

The average round trip time is a `float` in the source. Its arithmetic is a parameter here
(`StyxWire.Hping.FloatOps`). What is written to the terminal is not modelled, and neither is the
loop that calls the two functions: they may be called in any order.
-/

namespace StyxWire.Hping

open Mem Text

/-! ### The state -/

/-- `MAXPORT`. -/
def maxport : ℕ := 65535

/-- The places of the port table. -/
abbrev Port := Fin (maxport + 1)

/-- The port with a number of 16 bits. -/
def toPort (n : ℕ) : Port := Fin.ofNat (maxport + 1) n

/-- `struct portinfo`. -/
structure PortInfo where
  /-- Selected, and not yet answered. -/
  active : Bool
  /-- The probes that are left. -/
  retry : ℤ
  /-- When the last probe was sent. -/
  sentUs : ℤ

/-- The arithmetic of `float`. -/
structure FloatOps (F : Type) where
  ofInt : ℤ → F
  add : F → F → F
  mul : F → F → F
  div : F → F → F
  isZero : F → Bool
  /-- The conversion to `long long`. -/
  toInt : F → ℤ

/-- What a scan reads and does not change. -/
structure ScanEnv (F : Type) where
  ops : FloatOps F
  cfg : Config
  localAddr : List UInt8
  remoteAddr : List UInt8
  /-- `opt_scan_probes`. -/
  optScanProbes : ℤ
  /-- The ports that `getservent` goes through. -/
  services : List Port

/-- `struct scan_state`, with the average that is kept beside it. -/
structure ScanState (F : Type) where
  pi : Port → PortInfo
  /-- The round, from 1. -/
  round : ℤ
  /-- The next port to look at in this round. -/
  nextPort : ℕ
  probedThisRound : ℕ
  /-- The time between two probes. -/
  intervalUs : ℤ
  startUs : ℤ
  /-- When the next probe is due. -/
  nextSendUs : ℤ
  /-- -1 if there is no pause. -/
  roundPauseUntilUs : ℤ
  /-- Waiting for late replies. -/
  finishing : Bool
  avrgms : F
  avrgcount : ℤ

/-! ### The list of ports -/

/-- `strtol(s, NULL, 0)`, with 64-bit longs. -/
def strtol (s : List UInt8) : ℤ :=
  let s := s.dropWhile isSpace
  let v : ℤ := numeral (if s.head? = some (ch '-') ∨ s.head? = some (ch '+') then s.tail else s)
  if s.head? = some (ch '-') then max (-v) (-2 ^ 63) else min v (2 ^ 63 - 1)

/-- One element of the list: what becomes of the ports that are active. -/
def parseElement (services : List Port) (active : Port → Bool) (a : List UInt8) :
    Option (Port → Bool) :=
  let neg := a.head? = some (ch '!')
  let a := if neg then a.tail else a
  if ch '-' ∈ a then
    match strftok (ch '-') a 2 with
    | [first, second] =>
      if !strisnum first || !strisnum second then none
      else
        let first := int32 (strtol first)
        let second := int32 (strtol second)
        let low := min first second
        let high := max first second
        if low < 0 ∨ maxport < high then none
        else some fun i => if low ≤ i.val ∧ i.val ≤ high then !neg else active i
    | _ => none
  else if a = lit "all" then some fun _ => !neg
  else if a = lit "known" then some fun i => if i ∈ services then !neg else active i
  else if !strisnum a then none
  else
    let port := int32 (strtol a)
    if port < 0 ∨ maxport < port then none
    else some fun i => if (i.val : ℤ) = port then !neg else active i

/-- `parse_ports`. -/
def parsePorts (services : List Port) (active : Port → Bool) (ports : List UInt8) :
    Option (Port → Bool) :=
  (strftok (ch ',') ports 32).foldlM (parseElement services) active

/-- `scan_setup`: the state, if the list is accepted; the source returns the number of ports
(`StyxWire.Hping.activeCount`). The interval is that of `hping_send_interval_us`. -/
def scanSetup {F : Type} (env : ScanEnv F) (intervalUs : ℤ) (ports : List UInt8) :
    Option (ScanState F) :=
  (parsePorts env.services (fun _ => false) ports).map fun active =>
    { pi := fun i => ⟨active i, if active i then env.optScanProbes else 0, 0⟩
      round := 1
      nextPort := 0
      probedThisRound := 0
      intervalUs := intervalUs
      startUs := 0
      nextSendUs := 0
      roundPauseUntilUs := -1
      finishing := false
      avrgms := env.ops.ofInt 0
      avrgcount := 0 }

section Steps

variable {F : Type}

/-- The start of `scan_run`. -/
def ScanState.begin (st : ScanState F) (now : ℤ) : ScanState F :=
  { st with startUs := now, nextSendUs := now }

/-! ### Sending -/

/-- What a call of `scan_step` does. -/
inductive ScanStep
  /-- Nothing is due. -/
  | wait
  /-- A probe is sent. -/
  | probe (port : Port)
  /-- A probe is not sent. -/
  | failed (port : Port)
  /-- A round is over, and there is more to do. -/
  | round
  /-- The scan is over. -/
  | complete
  deriving DecidableEq

/-- What it returns. -/
def ScanStep.ret : ScanStep → ℤ
  | .failed _ => -1
  | .complete => 1
  | _ => 0

/-- `scan_send_probe`, up to the call of `send_tcp`. -/
def ScanState.sendProbe (st : ScanState F) (port : Port) (clock : ℤ) : ScanState F :=
  { st with
    pi := Function.update st.pi port
      { st.pi port with retry := (st.pi port).retry - 1, sentUs := clock }
    probedThisRound := st.probedThisRound + 1 }

/-- How many ports were answered with probes left. -/
def ScanState.recvd (st : ScanState F) : ℕ := (List.finRange (maxport + 1)).countP fun i =>
  !(st.pi i).active && (st.pi i).retry ≠ 0

/-- The pause after a round. -/
def ScanState.pause (env : ScanEnv F) (st : ScanState F) (now : ℤ) : ScanState F :=
  if 3 ≤ st.round then
    { st with roundPauseUntilUs :=
        now + if env.ops.isZero st.avrgms then 1000000
          else env.ops.toInt (env.ops.mul st.avrgms (env.ops.ofInt 1000)) }
  else st

/-- Sending too fast? -/
def ScanState.slowDown (env : ScanEnv F) (st : ScanState F) (recvd : ℕ) (now : ℤ) : ScanState F :=
  if (recvd = 0 ∧ st.intervalUs = 0 ∧ now - st.startUs > 500000) ∨
      env.optScanProbes - st.round ≤ 2 then
    { st with intervalUs := st.intervalUs * 10 + 1 }
  else st

/-- `scan_round_done`. -/
def ScanState.roundDone (env : ScanEnv F) (st : ScanState F) (now : ℤ) :
    ScanStep × ScanState F :=
  let recvd := st.recvd
  if st.probedThisRound = 0 then
    if recvd = 0 ∧ !st.finishing then
      (.round, { st with finishing := true, roundPauseUntilUs := now + 1000000 })
    else (.complete, st)
  else
    let st := (st.pause env now).slowDown env recvd now
    (.round, { st with round := st.round + 1, nextPort := 0, probedThisRound := 0 })

/-- The next port of this round that is to be probed. -/
def ScanState.due (st : ScanState F) : Option Port :=
  (List.finRange (maxport + 1)).find? fun port =>
    st.nextPort ≤ port.val && ((st.pi port).active && (st.pi port).retry ≠ 0)

/-- The end of `scan_step`: the next probe, or the end of the round. -/
def ScanState.advance (env : ScanEnv F) (st : ScanState F) (now clock : ℤ) (sent : Bool) :
    Option Port → ScanStep × ScanState F
  | some port =>
    let st := { st with nextPort := port.val + 1 }.sendProbe port clock
    if sent then (.probe port, { st with nextSendUs := now + st.intervalUs })
    else (.failed port, st)
  | none => { st with nextPort := maxport + 1 }.roundDone env now

/-- `scan_step`, with the reading of the clock in `scan_send_probe` and what becomes of the
probe. -/
def scanStep (env : ScanEnv F) (st : ScanState F) (now clock : ℤ) (sent : Bool) :
    ScanStep × ScanState F :=
  if st.roundPauseUntilUs ≠ -1 ∧ now < st.roundPauseUntilUs then (.wait, st)
  else
    let paused := st.roundPauseUntilUs ≠ -1
    let st := { st with roundPauseUntilUs := -1 }
    if paused ∧ st.finishing then (.complete, st)
    else if now < st.nextSendUs then (.wait, st)
    else st.advance env now clock sent st.due

/-! ### Receiving -/

/-- The port is answered. -/
def ScanState.answer (st : ScanState F) (port : Port) : ScanState F :=
  { st with pi := Function.update st.pi port { st.pi port with active := false } }

/-- The average of the round trip times, in milliseconds; the division of the last one is one of
integers. -/
def ScanState.average (env : ScanEnv F) (st : ScanState F) (rttms : ℤ) : ScanState F :=
  let count := st.avrgcount + 1
  let ops := env.ops
  { st with
    avrgcount := count
    avrgms := ops.add (ops.div (ops.mul st.avrgms (ops.ofInt (count - 1))) (ops.ofInt count))
      (ops.ofInt (rttms.tdiv count)) }

/-- A TCP segment from the target. -/
def scanTcp (env : ScanEnv F) (st : ScanState F) (tcp : List UInt8) (clock : ℤ) :
    Bool × ScanState F :=
  if tcp.length < tcphdrSize then (false, st)
  else if (ntohsAt 2 tcp : ℤ) ≠ env.cfg.initsport then (false, st)
  else
    let sport := Fin.ofNat (maxport + 1) (ntohsAt 0 tcp)
    if !(st.pi sport).active then (false, st)
    else (true, (st.average env ((clock - (st.pi sport).sentUs).tdiv 1000)).answer sport)

/-- An ICMP message that quotes a probe. -/
def scanIcmp (env : ScanEnv F) (st : ScanState F) (icmp : List UInt8) : Bool × ScanState F :=
  if icmp.length < icmphdrSize + iphdrSize + tcphdrSize then (false, st)
  else
    let subip := icmp.drop icmphdrSize
    let subtcp := subip.drop iphdrSize
    if (subip.drop 12).take 4 ≠ env.localAddr then (false, st)
    else if (subip.drop 16).take 4 ≠ env.remoteAddr then (false, st)
    else if (ntohsAt 0 subtcp : ℤ) ≠ env.cfg.initsport then (false, st)
    else
      let port := Fin.ofNat (maxport + 1) (ntohsAt 2 subtcp)
      if !(st.pi port).active then (false, st) else (true, st.answer port)

/-- `scan_process_packet`. -/
def scanProcessPacket (env : ScanEnv F) (st : ScanState F) (packet : List UInt8) (clock : ℤ) :
    Bool × ScanState F :=
  if packet.length < env.cfg.linkhdrSize then (false, st)
  else
    let ip := packet.drop env.cfg.linkhdrSize
    if ip.length < iphdrSize then (false, st)
    else
      let iphdrlen := byteAt 0 ip % 16 * 4
      if iphdrlen < iphdrSize ∨ ip.length < iphdrlen then (false, st)
      else if (ip.drop 16).take 4 ≠ env.localAddr then (false, st)
      else if byteAt 9 ip ≠ ipprotoIcmp ∧ (ip.drop 12).take 4 ≠ env.remoteAddr then (false, st)
      else if byteAt 9 ip = ipprotoTcp then scanTcp env st (ip.drop iphdrlen) clock
      else if byteAt 9 ip = ipprotoIcmp then scanIcmp env st (ip.drop iphdrlen)
      else (false, st)

end Steps

end StyxWire.Hping
