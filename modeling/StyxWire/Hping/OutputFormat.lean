import StyxWire.Hping.Hcmp
import StyxWire.Hping.Loop
import StyxWire.Lib.Events

/-!
# The format of the output

`--json` is to change what is written and nothing else. The functions that write a reply
(`waitpacket.c`, `relid.c`) have a branch for each format, though, and some of them move what is
sent next, or a counter, along the way. Here the main loop is run with these branches in it. What
a run does is `StyxWire.Hping.Probing`, what only the text output remembers
is `StyxWire.Hping.Printing`.

The two formats do not do the same: in a traceroute, a second answer of one router moves the time
to live under `--json` only (`StyxWire.Hping.output_format_traceroute`); a reply that the text
output passes over is not numbered by `--relid`; and the text output can fail, where it reads
outside of a table or divides by the time that went by. The replies that come to one of these
are the only ones that make a difference (`StyxWire.Hping.output_format`).

The headers of a probe are not laid out here. A turn gives them, as a function of everything that
can change, with the numbers in them that are drawn.
-/

namespace StyxWire.Hping

open Mem

/-! ### The state -/

/-- The options that this is about. -/
structure FormatConfig extends LoopConfig where
  /-- `--quiet`. -/
  optQuiet : Bool
  /-- `--rel`. -/
  optRelid : Bool
  /-- `--winid`. -/
  optWinidOrder : Bool
  /-- `--seqnum`. -/
  optSeqnum : Bool
  /-- `--tr-keep-ttl`. -/
  optTrKeepTtl : Bool
  /-- `--tcp-timestamp`. -/
  optTcpTimestamp : Bool
  /-- `--clock-skew`. -/
  optClockSkew : Bool
  /-- `--clock-skew-win`, in seconds. -/
  csWindow : ℤ
  /-- `--clock-skew-win-shift`. -/
  csWindowShift : ℕ
  /-- `--clock-skew-packets-per-sample`. -/
  csVectorLen : ℕ
  /-- `--sign`. -/
  sign : List UInt8
  /-- The contents of the file. -/
  file : List UInt8
  /-- `--file`. -/
  optDatafromfile : Bool
  /-- `--safe`. -/
  optSafe : Bool
  /-- `--end`. -/
  optEnd : Bool
  /-- The MTU of the interface. -/
  hIfMtu : ℕ

/-- Those of the data. -/
def FormatConfig.transfer (cfg : FormatConfig) : Transfer where
  cfg := cfg.toConfig
  sign := cfg.sign
  file := cfg.file
  optDatafromfile := cfg.optDatafromfile
  optSafe := cfg.optSafe
  optEnd := cfg.optEnd
  hIfMtu := cfg.hIfMtu

/-- A probe. -/
structure Probe where
  /-- The time to live. -/
  ttl : ℕ
  /-- `cfg.src_id`, where -1 is for an id that is drawn. -/
  srcId : ℤ
  /-- `th_sport` or `uh_sport`. -/
  sport : ℕ
  /-- `th_dport` or `uh_dport`. -/
  dport : ℕ
  /-- `un.echo.sequence`. -/
  echoSequence : ℕ
  /-- The source address. -/
  saddr : List UInt8
  /-- The destination address. -/
  daddr : List UInt8
  /-- The datagrams that it is sent in. -/
  datagrams : List (List UInt8)
  deriving DecidableEq

/-- What a run does: the loop, with the counters and the reason to stop, and what the next probe
is made of. -/
structure Probing where
  loop : Loop
  /-- `cfg.src_ttl`. -/
  srcTtl : ℤ
  /-- `eof_reached`. -/
  eofReached : Bool
  /-- `opt_fragment`. -/
  optFragment : Bool
  /-- `virtual_mtu`. -/
  virtualMtu : ℕ
  /-- `last_seq` of `relativize_id`. -/
  lastSeq : ℤ
  /-- `last_id` of `relativize_id`. -/
  lastId : ℤ
  /-- `stats.out_of_sequence`. -/
  outOfSequence : ℕ
  /-- The probes that were sent, the last one first. -/
  probes : List Probe

/-- What is remembered by the functions of the text output. -/
structure Printing where
  /-- `old_src_addr` of `log_traceroute`. -/
  oldSrcAddr : List UInt8
  /-- `first_tstamp` of `print_tcp_timestamp`. -/
  firstTstamp : ℤ
  /-- `first_mstime` of `print_tcp_timestamp`. -/
  firstMstime : ℤ
  /-- `deltanum` of `clock_skew`. -/
  deltanum : ℕ
  /-- `samplelocal` of `clock_skew`. -/
  samplelocal : List ℤ

/-- A run, and what its text output remembers. -/
structure Session where
  probing : Probing
  printing : Printing

/-- What a turn takes from outside. -/
structure FormatTurn extends Turn where
  /-- The headers that are put before the data of a probe, from the state of the sender, the time
  to live and the data: those of its datagrams, and the one of the protocol. -/
  headers : Sender → ℤ → List UInt8 → (ℕ → Iphdr) × List UInt8
  /-- The reading of the clock in `print_tcp_timestamp`, in milliseconds. -/
  mstime : ℤ
  /-- The one in `clock_skew`. -/
  sampleMs : ℤ

/-! ### Sending -/

/-- The data of a probe. The builders do not ask for it if there is to be none, and the ones of
timestamps and address masks never do. -/
def probeData (cfg : FormatConfig) (s : Sender) : Option (List UInt8 × Sender) :=
  if cfg.optRawipmode then dataHandler cfg.transfer s cfg.dataSize
  else if cfg.dataSize = 0 then some ([], s)
  else if cfg.optIcmpmode ∧ cfg.optIcmptype ∈
      [icmpTimestamp, icmpTimestampreply, icmpAddress, icmpAddressreply] then some ([], s)
  else dataHandler cfg.transfer s cfg.dataSize

/-- The probe that is sent in a turn, and the sender after it. -/
def Probing.transmit (cfg : FormatConfig) (u : Probing) (t : FormatTurn) :
    Option (Probe × Sender) :=
  let ctx := u.loop.ctx.selectRandom cfg.toConfig t.sending
  (probeData cfg ⟨ctx, u.eofReached, u.optFragment, u.virtualMtu⟩).bind fun (data, s) =>
    let (ip, l4hdr) := t.headers s u.srcTtl data
    (sendIpHandler cfg.transfer ip (l4hdr ++ data) s).map fun (datagrams, s) =>
      ({ ttl := (u.srcTtl % 256).toNat
         srcId := ctx.srcId
         sport := ctx.sport
         dport := (ctx.dstPort % 65536).toNat
         echoSequence := ctx.echoSequence
         saddr := ctx.localAddr
         daddr := ctx.remoteAddr
         datagrams := datagrams }, s)

/-- `send_due_probe`. A probe that is not sent ends the loop, and is not recorded. -/
def Probing.sendDueProbe (cfg : FormatConfig) (u : Probing) (t : FormatTurn) :
    Option (Bool × Probing) :=
  (u.loop.sendDueProbe cfg.toLoopConfig t.now t.sending).bind fun (ok, loop) =>
    if ok then
      (u.transmit cfg t).map fun (p, s) =>
        (true,
          { u with
            loop :=
              { loop with
                ctx := { loop.ctx with srcId := s.ctx.srcId, filePos := s.ctx.filePos } }
            eofReached := s.eofReached
            optFragment := s.optFragment
            virtualMtu := s.virtualMtu
            probes := p :: u.probes })
    else some (false, { u with loop := loop })

/-- `handle_pending_signals`, with the time to live. -/
def Probing.handlePendingSignals (cfg : FormatConfig) (u : Probing) (signals : Signals) :
    Probing :=
  { u with
    loop := u.loop.handlePendingSignals cfg.toLoopConfig signals
    srcTtl :=
      match cfg.ctrlzbind, signals.tstp with
      | .ttl, some now => incDestparm u.loop.lastUs now u.srcTtl
      | _, _ => u.srcTtl }

/-- The first half of a turn of `main_loop`, and the reading of the clock if it goes on. -/
def Probing.prepare (cfg : FormatConfig) (u : Probing) (t : FormatTurn) :
    Option (Probing × Option ℤ) :=
  if u.loop.ended then some (u, none)
  else
    let u := u.handlePendingSignals cfg t.signals
    if u.loop.ctx.stopReason ≠ .none then
      some ({ u with loop := { u.loop with ended := true } }, none)
    else if u.loop.endDeadlineUs ≠ -1 ∧ u.loop.endDeadlineUs ≤ t.now then
      some ({ u with loop := u.loop.leave .sent }, none)
    else if ¬cfg.receiveOnly ∧ ¬allProbesSent cfg.toLoopConfig u.loop.ctx ∧
        u.loop.nextSendUs ≤ t.now then
      (u.sendDueProbe cfg t).map fun (ok, u) =>
        if ok then (u, some t.later) else ({ u with loop := u.loop.leave .error }, none)
    else some (u, some t.now)

/-! ### The id of a reply -/

/-- `relativize_id`, but for the id that is printed. -/
def Probing.relativizeId (u : Probing) (seqnum ipId : ℤ) : Probing :=
  if u.lastId = -1 ∨ seqnum - u.lastSeq > 0 then { u with lastSeq := seqnum, lastId := ipId }
  else { u with outOfSequence := u.outOfSequence + 1 }

/-- What `json_ip_fields` and `log_ip` do. -/
def Probing.logIp (cfg : FormatConfig) (u : Probing) (ip : List UInt8) (seq : ℤ) : Probing :=
  if cfg.optRelid then
    u.relativizeId seq
      (if cfg.optWinidOrder then le16 (ip.getD 4 0) (ip.getD 5 0) else ntohsAt 4 ip : ℕ)
  else u

/-! ### The branches of `--json` -/

/-- What follows the header of a datagram. -/
def payloadOf (ip : List UInt8) : List UInt8 := ip.drop (byteAt 0 ip % 16 * 4)

/-- `recv_icmp`, `recv_udp` and `recv_tcp` with `--json`, for the datagram `ip` that is a reply. -/
def Probing.json (cfg : FormatConfig) (u : Probing) (ip : List UInt8) (r : Rtt) : Probing :=
  if byteAt 9 ip = ipprotoIcmp then
    if byteAt 0 (payloadOf ip) = 3 then u
    else if byteAt 0 (payloadOf ip) = 11 then
      if cfg.optTraceroute ∧ ¬cfg.optTrKeepTtl then { u with srcTtl := u.srcTtl + 1 } else u
    else u.logIp cfg ip r.seq
  else u.logIp cfg ip r.seq

/-! ### The branches of the text output -/

/-- `log_traceroute`: the router that answered last is passed over. -/
def Session.logTraceroute (cfg : FormatConfig) (s : Session) (ip : List UInt8) : Session :=
  let saddr := (ip.drop 12).take 4
  if ¬cfg.optTrKeepTtl ∧ saddr = s.printing.oldSrcAddr then s
  else
    { probing :=
        if ¬cfg.optTrKeepTtl then { s.probing with srcTtl := s.probing.srcTtl + 1 }
        else s.probing
      printing := { s.printing with oldSrcAddr := saddr } }

/-- The loop of `print_tcp_timestamp` over the options of a header. It goes on with 0 where they
are at their end. -/
def tcpTimestamp : List UInt8 → Option ℕ
  | [] => some 0
  | kind :: rest =>
    if kind = 0 then none
    else if kind = 1 then tcpTimestamp rest
    else
      let len := byteAt 0 rest
      if rest = [] ∨ len < 2 ∨ rest.length + 1 < len then none
      else if kind ≠ 8 then tcpTimestamp (rest.drop (len - 1))
      else if len ≠ 10 then none
      else some (ntohlAt 1 rest)
  termination_by opt => opt.length
  decreasing_by
    · exact Nat.lt_succ_self _
    · rw [List.length_drop, List.length_cons]
      omega

/-- The timestamp of a segment. -/
def segmentTimestamp (tcp : List UInt8) : Option ℕ :=
  let tcphdrlen := hiAt 12 tcp * 4
  if tcp.length < tcphdrSize ∨ tcphdrlen ≤ tcphdrSize ∨ tcp.length < tcphdrlen then none
  else tcpTimestamp ((tcp.drop tcphdrSize).take (tcphdrlen - tcphdrSize))

/-- `localdelta`. -/
def localdelta (samplelocal : List ℤ) (k i : ℕ) : ℤ := samplelocal.getD k 0 - samplelocal.getD i 0

/-- The search of `clock_skew`, from the right to the left. -/
def windowStart (samplelocal : List ℤ) (window : ℤ) : ℕ → ℕ
  | 0 => 0
  | i + 1 =>
    if localdelta samplelocal (samplelocal.length - 1) (i + 1) < window then
      windowStart samplelocal window i
    else i + 1

/-- The numbers by which `clock_skew` divides, once the samples are taken. -/
def skewDivisors (cfg : FormatConfig) (samplelocal : List ℤ) : List ℤ :=
  let last := samplelocal.length - 1
  let shift := cfg.csWindowShift
  let window := int32 (cfg.csWindow * 1000)
  if shift < samplelocal.length ∧ window < localdelta samplelocal last (shift - 1) then
    let i := windowStart samplelocal window (last - 1)
    ((List.range shift).map fun j => localdelta samplelocal (last - j) (i - j)) ++
      (List.range shift).map fun j => localdelta samplelocal (last - j) (shift - 1 - j)
  else if 1 < samplelocal.length then [localdelta samplelocal last 0]
  else []

/-- `clock_skew`: a delta is counted, and the last one of a vector makes a sample. There is always
one to make it of, that of the shortest round trip. -/
def Printing.clockSkew (cfg : FormatConfig) (p : Printing) (now : ℤ) : Printing :=
  if p.deltanum + 1 = cfg.csVectorLen then
    { p with deltanum := 0, samplelocal := p.samplelocal ++ [now] }
  else { p with deltanum := p.deltanum + 1 }

/-- `mswait`, an `unsigned long long`. -/
def Printing.mswait (p : Printing) (now : ℤ) : ℤ := (now - p.firstMstime) % 2 ^ 64

/-- `tsdiff`. There is a frequency that is nearest to it exactly when it is positive. -/
def Printing.tsdiff (p : Printing) (tstamp : ℕ) (now : ℤ) : ℤ :=
  int32 ((tstamp - p.firstTstamp) % 2 ^ 32 * 1000 / p.mswait now)

/-- Whether `clock_skew` is called. -/
def Printing.skews (cfg : FormatConfig) (p : Printing) (tstamp : ℕ) (now : ℤ) : Bool :=
  0 < p.tsdiff tstamp now ∧ cfg.optClockSkew

/-- `print_tcp_timestamp`. -/
def Printing.tcpTimestamp (cfg : FormatConfig) (p : Printing) (t : FormatTurn)
    (tcp : List UInt8) : Printing :=
  match segmentTimestamp tcp with
  | none => p
  | some tstamp =>
    if p.firstTstamp = 0 then
      { p with firstTstamp := tstamp, firstMstime := t.mstime % 2 ^ 64 }
    else if p.skews cfg tstamp t.mstime then p.clockSkew cfg t.sampleMs
    else p

/-- The numbers by which `print_tcp_timestamp` divides, those of `clock_skew` among them. -/
def Printing.divisors (cfg : FormatConfig) (p : Printing) (t : FormatTurn) (tcp : List UInt8) :
    List ℤ :=
  match segmentTimestamp tcp with
  | none => []
  | some tstamp =>
    if p.firstTstamp = 0 then []
    else
      p.mswait t.mstime ::
        if p.skews cfg tstamp t.mstime then
          skewDivisors cfg (p.clockSkew cfg t.sampleMs).samplelocal
        else []

/-- The size of `icmp_unreach_msg`. -/
def icmpUnreachMsgSize : ℕ := 16

/-- `recv_icmp`, `recv_udp` and `recv_tcp` without `--json`, for the datagram `ip` that is a reply.
There is no state after a read outside of a table or a division by zero. -/
def Session.text (cfg : FormatConfig) (s : Session) (t : FormatTurn) (ip : List UInt8) (r : Rtt) :
    Option Session :=
  let logged := { s with probing := s.probing.logIp cfg ip r.seq }
  if byteAt 9 ip = ipprotoIcmp then
    if byteAt 0 (payloadOf ip) = 3 then
      if ¬cfg.optQuiet ∧ icmpUnreachMsgSize ≤ byteAt 1 (payloadOf ip) then none else some s
    else if byteAt 0 (payloadOf ip) = 11 then
      if cfg.optTraceroute then some (s.logTraceroute cfg ip) else some s
    else some logged
  else if byteAt 9 ip = ipprotoUdp then
    if ¬cfg.optQuiet then some logged else some s
  else if cfg.optSeqnum ∨ cfg.optQuiet then some s
  else if cfg.optTcpTimestamp ∧ r.status ≠ .recv then
    if 0 ∈ s.printing.divisors cfg t (payloadOf ip) then none
    else some { logged with printing := s.printing.tcpTimestamp cfg t (payloadOf ip) }
  else some logged

/-! ### The loop -/

/-- The datagram in a frame. -/
def ReadPacket.datagram (cfg : Config) : ReadPacket → List UInt8
  | .error => []
  | .frame packet => packet.drop cfg.linkhdrSize

/-- `wait_packet`, with or without `--json`. -/
def Session.waitPacket (json : Bool) (cfg : FormatConfig) (s : Session) (t : FormatTurn)
    (read : ReadPacket) (now : ℤ) : Option Session :=
  let (reply, ctx) := Hping.waitPacket cfg.toConfig s.probing.loop.ctx read now
  let s := { s with probing.loop.ctx := ctx }
  match reply with
  | none => some s
  | some r =>
    if json then some { s with probing := s.probing.json cfg (read.datagram cfg.toConfig) r }
    else s.text cfg t (read.datagram cfg.toConfig) r

/-- The second half of a turn of `main_loop`. -/
def Session.await (json : Bool) (cfg : FormatConfig) (s : Session) (t : FormatTurn) (now : ℤ) :
    Option Session :=
  let s :=
    { s with probing.loop.timeout := s.probing.loop.waitTimeout cfg.toLoopConfig now }
  if cfg.optDryRun then
    some { s with probing := s.probing.handlePendingSignals cfg t.pending }
  else
    match t.wait with
    | .error => some { s with probing.loop := s.probing.loop.leave .error }
    | .nothing => some s
    | .ready read now => s.waitPacket json cfg t read now

/-- **A turn of `main_loop`**, with or without `--json`. -/
def Session.turn (json : Bool) (cfg : FormatConfig) (s : Session) (t : FormatTurn) :
    Option Session :=
  (s.probing.prepare cfg t).bind fun (u, wait) =>
    match wait with
    | none => some { s with probing := u }
    | some now => Session.await json cfg { s with probing := u } t now

/-- What is remembered at first. -/
def Printing.init : Printing := ⟨[0, 0, 0, 0], 0, 0, 0, []⟩

/-- A run at its beginning. -/
def Session.start (u : Probing) : Session := ⟨u, Printing.init⟩

/-! ### One reply -/

/-- A reply that the two formats treat alike, from what the text output remembers. -/
structure Alike (cfg : FormatConfig) (p : Printing) (t : FormatTurn) (ip : List UInt8)
    (r : Rtt) : Prop where
  /-- The code of an unreachable destination is looked up, unless nothing is to be written. -/
  code : byteAt 9 ip = ipprotoIcmp → byteAt 0 (payloadOf ip) = 3 → ¬cfg.optQuiet →
    byteAt 1 (payloadOf ip) < icmpUnreachMsgSize
  /-- A router that is found has not answered last. -/
  router : byteAt 9 ip = ipprotoIcmp → byteAt 0 (payloadOf ip) = 11 → cfg.optTraceroute →
    ¬cfg.optTrKeepTtl → (ip.drop 12).take 4 ≠ p.oldSrcAddr
  /-- A reply whose id is to be relative is written by the text output, too. -/
  written : byteAt 9 ip ≠ ipprotoIcmp → cfg.optRelid →
    ¬cfg.optQuiet ∧ (byteAt 9 ip ≠ ipprotoUdp → ¬cfg.optSeqnum)
  /-- There is no division by zero for the timestamp of a segment. -/
  divisors : byteAt 9 ip ≠ ipprotoIcmp → byteAt 9 ip ≠ ipprotoUdp →
    ¬cfg.optSeqnum → ¬cfg.optQuiet → cfg.optTcpTimestamp → r.status ≠ .recv →
    0 ∉ p.divisors cfg t (payloadOf ip)

variable {cfg : FormatConfig}

/-- Without `--rel` no id is remembered. -/
theorem Probing.logIp_of_not_relid (h : ¬cfg.optRelid) (u : Probing) (ip : List UInt8) (seq : ℤ) :
    u.logIp cfg ip seq = u := if_neg h

/-- A router that has not answered last moves the time to live as with `--json`. -/
theorem Session.logTraceroute_probing {s : Session} {ip : List UInt8}
    (h : ¬cfg.optTrKeepTtl → (ip.drop 12).take 4 ≠ s.printing.oldSrcAddr) :
    (s.logTraceroute cfg ip).probing =
      if ¬cfg.optTrKeepTtl then { s.probing with srcTtl := s.probing.srcTtl + 1 }
      else s.probing := by
  rw [Session.logTraceroute, if_neg fun hold => h hold.1 hold.2]

/-- **The two branches do the same** for a reply that they treat alike. -/
theorem Session.text_eq_json {s : Session} {t : FormatTurn} {ip : List UInt8} {r : Rtt}
    (h : Alike cfg s.printing t ip r) :
    (s.text cfg t ip r).map Session.probing = some (s.probing.json cfg ip r) := by
  rw [Session.text, Probing.json]
  dsimp only
  by_cases hicmp : byteAt 9 ip = ipprotoIcmp
  · rw [if_pos hicmp, if_pos hicmp]
    by_cases hunreach : byteAt 0 (payloadOf ip) = 3
    · -- the message is found in the table
      rw [if_pos hunreach, if_pos hunreach,
        if_neg fun hcode => absurd (h.code hicmp hunreach hcode.1) (not_lt.mpr hcode.2)]
      rfl
    · rw [if_neg hunreach, if_neg hunreach]
      by_cases htimeexc : byteAt 0 (payloadOf ip) = 11
      · rw [if_pos htimeexc, if_pos htimeexc]
        by_cases htraceroute : cfg.optTraceroute
        · have hrouter := h.router hicmp htimeexc htraceroute
          rw [if_pos htraceroute, Option.map_some, Session.logTraceroute_probing hrouter]
          simp only [htraceroute, true_and]
        · rw [if_neg htraceroute, if_neg fun hhop => htraceroute hhop.1]
          rfl
      · rw [if_neg htimeexc, if_neg htimeexc]
        rfl
  · rw [if_neg hicmp, if_neg hicmp]
    -- where the text output passes over the reply, nothing is remembered of its id either
    have hpassed : ∀ hidden : Prop, (cfg.optRelid → ¬hidden) → hidden →
        some s.probing = some (s.probing.logIp cfg ip r.seq) := fun hidden hnot hhidden =>
      congrArg some (Probing.logIp_of_not_relid (fun hrelid => hnot hrelid hhidden) _ _ _).symm
    by_cases hudp : byteAt 9 ip = ipprotoUdp
    · rw [if_pos hudp]
      by_cases hquiet : cfg.optQuiet
      · rw [if_neg (not_not.mpr hquiet)]
        exact hpassed _ (fun hrelid => (h.written hicmp hrelid).1) hquiet
      · rw [if_pos hquiet]
        rfl
    · rw [if_neg hudp]
      by_cases hhidden : cfg.optSeqnum ∨ cfg.optQuiet
      · rw [if_pos hhidden]
        refine hpassed _ (fun hrelid => ?_) hhidden
        obtain ⟨hquiet, hseqnum⟩ := h.written hicmp hrelid
        exact not_or.mpr ⟨hseqnum hudp, hquiet⟩
      · obtain ⟨hseqnum, hquiet⟩ := not_or.mp hhidden
        rw [if_neg hhidden]
        by_cases hstamp : cfg.optTcpTimestamp ∧ r.status ≠ .recv
        · rw [if_pos hstamp,
            if_neg (h.divisors hicmp hudp hseqnum hquiet hstamp.1 hstamp.2)]
          rfl
        · rw [if_neg hstamp]
          rfl

/-! ### A turn, and a run -/

/-- The frame that a turn comes to, if it answers a probe, is treated alike. -/
def Session.AlikeTurn (cfg : FormatConfig) (s : Session) (t : FormatTurn) : Prop :=
  ∀ u now read now' r, s.probing.prepare cfg t = some (u, some now) → ¬cfg.optDryRun →
    t.wait = .ready read now' → (Hping.waitPacket cfg.toConfig u.loop.ctx read now').1 = some r →
    Alike cfg s.printing t (read.datagram cfg.toConfig) r

/-- A frame does the same with `--json` and without, whatever the text output remembers. -/
theorem Session.waitPacket_view {s s' : Session} (hsame : s.probing = s'.probing) {t : FormatTurn}
    {read : ReadPacket} {now : ℤ}
    (h : ∀ r, (Hping.waitPacket cfg.toConfig s.probing.loop.ctx read now).1 = some r →
      Alike cfg s.printing t (read.datagram cfg.toConfig) r) :
    (s.waitPacket false cfg t read now).map Session.probing =
      (s'.waitPacket true cfg t read now).map Session.probing := by
  rw [Session.waitPacket, Session.waitPacket, ← hsame]
  dsimp only
  rcases hreply : (Hping.waitPacket cfg.toConfig s.probing.loop.ctx read now).1 with _ | r
  · rfl
  · dsimp only
    rw [if_neg Bool.false_ne_true, if_pos rfl]
    exact Session.text_eq_json (h r hreply)

/-- **A turn does the same with `--json` and without.** -/
theorem Session.turn_view {s s' : Session} (hsame : s.probing = s'.probing) {t : FormatTurn}
    (h : s.AlikeTurn cfg t) :
    (s.turn false cfg t).map Session.probing = (s'.turn true cfg t).map Session.probing := by
  rw [Session.turn, Session.turn, ← hsame]
  rcases hprepare : s.probing.prepare cfg t with _ | ⟨u, _ | now⟩
  · rfl
  · rfl
  · simp only [Option.bind_some, Session.await]
    by_cases hdry : cfg.optDryRun
    · rw [if_pos hdry, if_pos hdry, Option.map_some, Option.map_some]
    · rw [if_neg hdry, if_neg hdry]
      rcases hwait : t.wait with _ | _ | ⟨read, now'⟩
      · rfl
      · rfl
      · refine Session.waitPacket_view ?_ fun r hr => ?_
        · rfl
        · exact h u now read now' r hprepare hdry hwait hr

/-- **The format of the output makes no difference** to the probes that are sent, to the counters
and to the reason to stop, at any moment of a run, as long as the replies up to it are treated
alike. -/
theorem output_format {cfg : FormatConfig} {u : Probing} {turns : List FormatTurn}
    (h : Events.Meets (Session.turn false cfg) (Session.AlikeTurn cfg) (Session.start u) turns)
    {before : List FormatTurn} (hbefore : before <+: turns) :
    (Events.run (Session.turn true cfg) (Session.start u) before).map Session.probing =
      (Events.run (Session.turn false cfg) (Session.start u) before).map Session.probing := by
  have hstep : ∀ (s s' : Session) t, s.probing = s'.probing → Session.AlikeTurn cfg s t →
      (s.turn false cfg t).map Session.probing = (s'.turn true cfg t).map Session.probing :=
    fun _ _ _ hsame halike => Session.turn_view hsame halike
  exact (Events.run_view hstep rfl (h.of_isPrefix hbefore)).symm

/-! ### A traceroute -/

/-- A traceroute, with a probe a second. -/
def tracerouteConfig : FormatConfig where
  toConfig := { Config.plain with optTraceroute := true, optTrNoRtt := true }
  ctrlzbind := .none
  optWaitinusec := false
  usecDelay := 0
  sendingWait := 1
  receiveOnly := false
  optDryRun := false
  optQuiet := false
  optRelid := false
  optWinidOrder := false
  optSeqnum := false
  optTrKeepTtl := false
  optTcpTimestamp := false
  optClockSkew := false
  csWindow := 300
  csWindowShift := 5
  csVectorLen := 10
  sign := []
  file := []
  optDatafromfile := false
  optSafe := false
  optEnd := false
  hIfMtu := 1500

/-- Its first probe is to get as far as the first router. -/
def firstHop : Probing where
  loop := Loop.start (Context.start 80) 0
  srcTtl := 1
  eofReached := false
  optFragment := false
  virtualMtu := 0
  lastSeq := 0
  lastId := -1
  outOfSequence := 0
  probes := []

/-- A router says that a probe has expired. -/
def timeExceeded (router : UInt8) : List UInt8 :=
  [0x45, 0, 0, 56, 0, 0, 0, 0, 64, 1, 0, 0, 10, 0, 0, router, 10, 0, 0, 1] ++
    [11, 0, 0, 0, 0, 0, 0, 0] ++
    [0x45, 0, 0, 40, 0, 0, 0, 0, 1, 6, 0, 0, 10, 0, 0, 1, 10, 0, 0, 2]

theorem payloadOf_timeExceeded (router : UInt8) :
    payloadOf (timeExceeded router) = (timeExceeded router).drop 20 := by
  have hbyte : byteAt 0 (timeExceeded router) = 0x45 := rfl
  rw [payloadOf, hbyte]

/-- A turn that sends a probe, and that ends with such a message. -/
def hopTurn (now : ℤ) (router : UInt8) : FormatTurn where
  signals := ⟨none, false⟩
  now := now
  sending := ⟨none, [], .sent, now⟩
  later := now
  wait := .ready (.frame (timeExceeded router)) now
  pending := ⟨none, false⟩
  headers := fun _ _ _ => (fun _ => ⟨List.replicate 20 0, by decide⟩, List.replicate 20 0)
  mstime := 0
  sampleMs := 0

/-- **A router that answers twice** sends the traceroute a hop further with `--json`, and not
without it. -/
theorem output_format_traceroute :
    ((Events.run (Session.turn true tracerouteConfig) (Session.start firstHop)
        [hopTurn 0 9, hopTurn 1000000 9, hopTurn 2000000 9]).map
          fun s => s.probing.probes.map Probe.ttl) = some [3, 2, 1] ∧
    ((Events.run (Session.turn false tracerouteConfig) (Session.start firstHop)
        [hopTurn 0 9, hopTurn 1000000 9, hopTurn 2000000 9]).map
          fun s => s.probing.probes.map Probe.ttl) = some [2, 2, 1] := by
  constructor
  · decide +kernel
  · decide +kernel

/-- The message of a router that has not answered last is treated alike. -/
theorem alike_timeExceeded {s : Session} {now : ℤ} {router : UInt8}
    (h : [10, 0, 0, router] ≠ s.printing.oldSrcAddr) :
    s.AlikeTurn tracerouteConfig (hopTurn now router) := by
  intro u later read now' r _ _ hwait _
  obtain ⟨rfl, -⟩ := Wait.ready.inj hwait
  constructor
  · intro _ htype
    change byteAt 0 (payloadOf (timeExceeded router)) = 3 at htype
    rw [payloadOf_timeExceeded] at htype
    exact absurd (show (11 : ℕ) = 3 from htype) (by decide)
  · intro _ _ _ _
    exact h
  · intro _ hrelid
    exact absurd hrelid (by decide)
  · intro hicmp
    exact absurd rfl hicmp

/-- Two routers, one behind the other. -/
theorem output_format_two_hops :
    (Events.run (Session.turn true tracerouteConfig) (Session.start firstHop)
        [hopTurn 0 9, hopTurn 1000000 8]).map Session.probing =
      (Events.run (Session.turn false tracerouteConfig) (Session.start firstHop)
        [hopTurn 0 9, hopTurn 1000000 8]).map Session.probing := by
  have hfirst : ((Session.start firstHop).turn false tracerouteConfig (hopTurn 0 9)).map
      (fun s => s.printing.oldSrcAddr) = some [10, 0, 0, 9] := by decide +kernel
  have hmeets : Events.Meets (Session.turn false tracerouteConfig)
      (Session.AlikeTurn tracerouteConfig) (Session.start firstHop)
      [hopTurn 0 9, hopTurn 1000000 8] := by
    refine ⟨alike_timeExceeded (by decide), fun s hs => ?_⟩
    refine ⟨alike_timeExceeded ?_, fun _ _ => trivial⟩
    rw [hs, Option.map_some, Option.some.injEq] at hfirst
    rw [hfirst]
    decide
  exact output_format hmeets (List.prefix_refl _)

end StyxWire.Hping
