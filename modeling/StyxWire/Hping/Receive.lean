import StyxWire.Ars.Rapd
import StyxWire.Hping.DelayTable

/-!
# Receiving

What becomes of a captured frame (`waitpacket.c`): `wait_packet` checks its IP header and
hands the rest to `recv_icmp`, `recv_udp` or `recv_tcp`, which look for the probe it
answers in the delay table and count it.

The headers are read off the bytes of the frame, as they are copied out of it in the
source. What is written to the terminal is not modelled; the functions return what they
found out about the reply (`StyxWire.Hping.Rtt`), from which it is written. That value is
there exactly when the source returns 1, for a match.
-/

namespace StyxWire.Hping

open Mem

/-! ### The state -/

/-- Why the loop ended (`HPING_STOP_*`). -/
inductive StopReason
  | none
  | signal
  | count
  | sent
  | traceroute
  | eof
  | error
  deriving DecidableEq, Repr

/-- The part of `struct hping_config` that does not change. -/
structure Config where
  /-- `--count`, -1 for no limit. -/
  count : ℤ
  /-- `--baseport`. -/
  initsport : ℤ
  /-- The first destination port. -/
  baseDstPort : ℤ
  /-- `--icmptype`. -/
  optIcmptype : ℕ
  /-- `--force-icmp`. -/
  optForceIcmp : Bool
  /-- `--rawip`. -/
  optRawipmode : Bool
  /-- `--icmp`. -/
  optIcmpmode : Bool
  /-- `--udp`. -/
  optUdpmode : Bool
  /-- `--keep`. -/
  optKeepstill : Bool
  /-- `--destport +`. -/
  optIncdport : Bool
  /-- `--destport ++`. -/
  optForceIncdport : Bool
  /-- `--rand-dest`. -/
  optRandDest : Bool
  /-- `--rand-source`. -/
  optRandSource : Bool
  /-- `--traceroute`. -/
  optTraceroute : Bool
  /-- `--tr-stop`. -/
  optTrStop : Bool
  /-- `--tr-no-rtt`. -/
  optTrNoRtt : Bool
  /-- `--sign`. -/
  optSign : Bool
  /-- The signature that is looked for in what is received, the reverse of `--sign`. -/
  rsign : List UInt8
  /-- `--data`. -/
  dataSize : ℕ
  /-- The length of the signature. -/
  signlen : ℕ
  /-- The size of the link layer header. -/
  linkhdrSize : ℕ
  /-- `getpid()`. -/
  pid : ℕ

/-- What changes: `struct hping_context`, `struct hping_stats` and the rest of
`struct hping_config`. -/
structure Context where
  /-- The delay table. -/
  table : Delaytable
  /-- The counters. -/
  stats : HpingStats
  /-- The sequence number of the next probe. -/
  sequence : ℤ
  /-- Its source port. -/
  srcPort : ℤ
  /-- `_icmp_seq`. -/
  icmpSeq : ℤ
  /-- The destination port. -/
  dstPort : ℤ
  /-- The flags of the last TCP reply. -/
  tcpExitcode : ℕ
  /-- The address of the interface. -/
  localAddr : List UInt8
  /-- The address of the target. -/
  remoteAddr : List UInt8
  /-- The id of the next datagram. -/
  srcId : ℤ
  /-- The position in the file of `--file`. -/
  filePos : ℕ
  /-- Why the loop ended. -/
  stopReason : StopReason

/-- A configuration with every option off. -/
def Config.plain : Config where
  count := -1
  initsport := 0
  baseDstPort := 0
  optIcmptype := 8
  optForceIcmp := false
  optRawipmode := false
  optIcmpmode := false
  optUdpmode := false
  optKeepstill := false
  optIncdport := false
  optForceIncdport := false
  optRandDest := false
  optRandSource := false
  optTraceroute := false
  optTrStop := false
  optTrNoRtt := false
  optSign := false
  rsign := []
  dataSize := 0
  signlen := 0
  linkhdrSize := 0
  pid := 0

/-- The context before the first probe, to a port. -/
def Context.start (dstPort : ℤ) : Context where
  table := Delaytable.init
  stats := HpingStats.init
  sequence := 0
  srcPort := 0
  icmpSeq := 0
  dstPort := dstPort
  tcpExitcode := 0
  localAddr := [10, 0, 0, 1]
  remoteAddr := [10, 0, 0, 2]
  srcId := 0
  filePos := 0
  stopReason := .none

/-- `hping_stop`. -/
def Context.stop (ctx : Context) (reason : StopReason) : Context :=
  if ctx.stopReason = .none then { ctx with stopReason := reason } else ctx

/-! ### The delay table and the counters -/

/-- `rtt` and `hping_stats_on_reply`, one after the other. -/
def Context.account (ctx : Context) (seq recvport now : ℤ) : Rtt × Context :=
  let (r, table) := ctx.table.rtt seq recvport now
  (r, { ctx with table := table, stats := ctx.stats.onReply r.status })

/-- `hping_stats_on_reply(S_UNKNOWN)`. -/
def Context.unmatched (ctx : Context) : Rtt × Context :=
  (⟨.unknown, 0, 0⟩, { ctx with stats := ctx.stats.onReply .unknown })

/-! ### The protocols -/

/-- The size of the fixed headers. -/
def iphdrSize : ℕ := 20
def icmphdrSize : ℕ := 8
def udphdrSize : ℕ := 8
def tcphdrSize : ℕ := 20

def icmpEchoreply : ℕ := 0
def icmpEcho : ℕ := 8
def icmpTimestamp : ℕ := 13
def icmpTimestampreply : ℕ := 14
def icmpAddress : ℕ := 17
def icmpAddressreply : ℕ := 18

def ipprotoIcmp : ℕ := 1
def ipprotoTcp : ℕ := 6
def ipprotoUdp : ℕ := 17

/-- Whether a reply from the port `sport` is one to the port that is probed. -/
def matchesPort (cfg : Config) (ctx : Context) (sport : ℕ) : Bool :=
  sport = ctx.dstPort ∨
    (cfg.optForceIncdport ∧ cfg.baseDstPort ≤ sport ∧ (sport : ℤ) ≤ ctx.dstPort)

/-- `cfg.dst_port++`, if it is to follow the replies. -/
def Context.incDstPort (cfg : Config) (ctx : Context) : Context :=
  if cfg.optIncdport ∧ ¬cfg.optForceIncdport then { ctx with dstPort := ctx.dstPort + 1 } else ctx

/-- `recv_udp`. -/
def recvUdp (cfg : Config) (ctx : Context) (packet : List UInt8) (now : ℤ) :
    Option Rtt × Context :=
  if packet.length < udphdrSize then (none, ctx)
  else if matchesPort cfg ctx (ntohsAt 0 packet) then
    let (r, ctx) := ctx.account 0 (ntohsAt 2 packet) now
    (some r, ctx.incDstPort cfg)
  else (none, ctx)

/-- `recv_tcp`. -/
def recvTcp (cfg : Config) (ctx : Context) (packet : List UInt8) (now : ℤ) :
    Option Rtt × Context :=
  if packet.length < tcphdrSize then (none, ctx)
  else if matchesPort cfg ctx (ntohsAt 0 packet) then
    let ctx := { ctx with tcpExitcode := byteAt 13 packet }
    let (r, ctx) := ctx.account 0 (ntohsAt 2 packet) now
    (some r, ctx.incDstPort cfg)
  else (none, ctx)

/-- `icmp_unreach_rtt`: what to look a quoted datagram up by, a sequence number and a port. There
is nothing when the quotation is too short, or of another protocol. -/
def icmpUnreachKey (cfg : Config) (quoted : List UInt8) : Option (ℕ × ℕ) :=
  if cfg.optTrNoRtt then none
  else if quoted.length < iphdrSize then none
  else
    let quotedIphdrSize := byteAt 0 quoted % 16 * 4
    if quotedIphdrSize < iphdrSize then none
    else
      let quotedHdr := quoted.drop quotedIphdrSize
      if byteAt 9 quoted = ipprotoTcp ∨ byteAt 9 quoted = ipprotoUdp then
        if quoted.length < quotedIphdrSize + 2 then none else some (0, ntohsAt 0 quotedHdr)
      else if byteAt 9 quoted = ipprotoIcmp then
        if quoted.length < quotedIphdrSize + icmphdrSize then none
        else if byteAt 0 quotedHdr ≠ icmpEcho then none
        else some (le16 (quotedHdr.getD 6 0) (quotedHdr.getD 7 0), 0)
      else none

/-- `recv_icmp`, of the message `packet` under the header `ip`. -/
def recvIcmp (cfg : Config) (ctx : Context) (ip packet : List UInt8) (now : ℤ) :
    Option Rtt × Context :=
  if packet.length < icmphdrSize then (none, ctx)
  else
    let type := byteAt 0 packet
    if (type = icmpEchoreply ∨ type = icmpTimestampreply ∨ type = icmpAddressreply) ∧
        le16 (packet.getD 4 0) (packet.getD 5 0) = cfg.pid % 65536 then
      let (r, ctx) := ctx.account (le16 (packet.getD 6 0) (packet.getD 7 0)) 0 now
      (some r, ctx)
    else if type = 3 ∨ type = 11 then
      let quoted := packet.drop icmphdrSize
      if quoted.length < iphdrSize then (none, ctx)
      else if (quoted.drop 16).take 4 ≠ ctx.remoteAddr ∨ (ip.drop 16).take 4 ≠ ctx.localAddr then
        (none, ctx)
      else
        let (r, ctx) :=
          match icmpUnreachKey cfg quoted with
          | some (seq, port) => ctx.account seq port now
          | none => ctx.unmatched
        (some r, ctx)
    else (none, ctx)

/-! ### Control messages -/

/-- The loop of `memstr`, with `k` places left, the first of them `p`. -/
def memstrLoop (needle : List UInt8) : ℕ → ℕ → List UInt8 → Option ℕ
  | 0, _, _ => none
  | k + 1, p, haystack =>
    if haystack.take needle.length = needle then some p
    else memstrLoop needle k (p + 1) haystack.tail

/-- `memstr`. -/
def memstr (haystack needle : List UInt8) (size : ℤ) : Option ℕ :=
  if size < 0 then none
  else if size.toNat < needle.length then none
  else memstrLoop needle (size.toNat - needle.length + 1) 0 haystack

/-- The size of `struct hcmphdr`: a byte, three of padding, and the union. -/
def hcmphdrSize : ℕ := 8

def hcmpRestart : ℕ := 1

/-- `datafiller(NULL, seq)`, a seek in the file; the product is unsigned. -/
def datafillerSeek (cfg : Config) (seq : ℕ) : ℕ :=
  (((cfg.dataSize : ℤ) - cfg.signlen) * ((seq : ℤ) - 1) % 2 ^ 32).toNat

/-- `handle_hcmp`. -/
def handleHcmp (cfg : Config) (ctx : Context) (packet : List UInt8) : Context :=
  match memstr packet cfg.rsign packet.length with
  | none => ctx
  | some p =>
    let hcmp := packet.drop (p + cfg.rsign.length)
    if hcmp.length < hcmphdrSize then ctx
    else if byteAt 0 hcmp = hcmpRestart then
      { ctx with srcId := ntohsAt 4 hcmp, filePos := datafillerSeek cfg (ntohsAt 4 hcmp) }
    else ctx

/-! ### Frames -/

/-- What `read_packet` gives: an error, or the bytes of a frame, of which there may be none. -/
inductive ReadPacket
  | error
  | frame (packet : List UInt8)
  deriving DecidableEq, Repr

/-- `--tr-stop`: the first reply that is no ICMP error ends the loop. -/
def Context.trStop (cfg : Config) (ctx : Context) (protocol : ℕ) (packet : List UInt8) : Context :=
  if cfg.optTraceroute ∧ cfg.optTrStop then
    let ctx := if protocol ≠ ipprotoIcmp then ctx.stop .traceroute else ctx
    if icmphdrSize ≤ packet.length ∧ byteAt 0 packet ≠ 11 then ctx.stop .traceroute else ctx
  else ctx

/-- The end of `wait_packet`: the count was reached. -/
def Context.countReached (cfg : Config) (ctx : Context) : Context :=
  if cfg.count ≠ -1 ∧ cfg.count = ctx.stats.unique then ctx.stop .count else ctx

/-- `wait_packet`, of a datagram without its link layer header. -/
def waitDatagram (cfg : Config) (ctx : Context) (datagram : List UInt8) (now : ℤ) :
    Option Rtt × Context :=
  if datagram.length < iphdrSize then (none, ctx)
  else if byteAt 0 datagram / 16 = 6 then (none, ctx)
  else
    let size := byteAt 0 datagram % 16 * 4
    if size < iphdrSize ∨ datagram.length < size then (none, ctx)
    else
      let ctx := if cfg.optSign then handleHcmp cfg ctx datagram else ctx
      let protocol := byteAt 9 datagram
      if (datagram.drop 16).take 4 ≠ ctx.localAddr then (none, ctx)
      else if protocol ≠ ipprotoIcmp ∧ ¬cfg.optRandDest ∧
          (datagram.drop 12).take 4 ≠ ctx.remoteAddr then (none, ctx)
      else
        let packet := datagram.drop size
        let recv :=
          if protocol = ipprotoIcmp then some (recvIcmp cfg ctx datagram packet now)
          else if protocol = ipprotoUdp then some (recvUdp cfg ctx packet now)
          else if protocol = ipprotoTcp then some (recvTcp cfg ctx packet now)
          else none
        match recv with
        | none => (none, ctx)
        | some (reply, ctx) =>
          let ctx := if reply.isSome then ctx.trStop cfg protocol packet else ctx
          (reply, ctx.countReached cfg)

/-- `wait_packet`. -/
def waitPacket (cfg : Config) (ctx : Context) (read : ReadPacket) (now : ℤ) :
    Option Rtt × Context :=
  match read with
  | .error => (none, ctx.stop .eof)
  | .frame packet =>
    if packet = [] then (none, ctx)
    else if packet.length < cfg.linkhdrSize then (none, ctx)
    else waitDatagram cfg ctx (packet.drop cfg.linkhdrSize) now

end StyxWire.Hping
