import StyxWire.Hping.Receive

/-!
# What a frame does to the delay table

The functions of `waitpacket.c` touch the delay table and the counters in three ways: they
leave them alone, they count a reply of which no probe can be known, or they look the probe
up by a sequence number or by a port and count the reply by what they find. Which of the
three it is depends on the frame and on the ports and addresses that are probed, not on the
table (`StyxWire.Hping.Lookup`).

Each function is one equation then (`StyxWire.Hping.recvTcp_ledger` and its siblings), and
nothing has to be unfolded later to see what becomes of the table.
-/

namespace StyxWire.Hping

open Mem

/-- What is looked up for a frame. -/
inductive Lookup
  /-- The frame is passed over. -/
  | ignored
  /-- It is counted, but it does not say which probe it answers. -/
  | unmatched
  /-- It answers the probe with this sequence number, or with this source port. -/
  | key (seq port : ℕ)
  deriving DecidableEq, Repr

/-- The delay table and the counters. -/
abbrev Ledger := Delaytable × HpingStats

/-- Those of a context. -/
def Context.ledger (ctx : Context) : Ledger := (ctx.table, ctx.stats)

/-- What a lookup tells, and what it leaves. -/
def Lookup.tally (now : ℤ) (l : Ledger) : Lookup → Option Rtt × Ledger
  | .ignored => (none, l)
  | .unmatched => (some ⟨.unknown, 0, 0⟩, (l.1, l.2.onReply .unknown))
  | .key seq port =>
    let (r, table) := l.1.rtt seq port now
    (some r, (table, l.2.onReply r.status))

/-! ### The protocols -/

/-- What a UDP datagram is looked up by. -/
def udpLookup (cfg : Config) (ctx : Context) (packet : List UInt8) : Lookup :=
  if packet.length < udphdrSize then .ignored
  else if matchesPort cfg ctx (ntohsAt 0 packet) then .key 0 (ntohsAt 2 packet)
  else .ignored

/-- What a TCP segment is looked up by. -/
def tcpLookup (cfg : Config) (ctx : Context) (packet : List UInt8) : Lookup :=
  if packet.length < tcphdrSize then .ignored
  else if matchesPort cfg ctx (ntohsAt 0 packet) then .key 0 (ntohsAt 2 packet)
  else .ignored

/-- What an ICMP message is looked up by. -/
def icmpLookup (cfg : Config) (ctx : Context) (ip packet : List UInt8) : Lookup :=
  if packet.length < icmphdrSize then .ignored
  else
    let type := byteAt 0 packet
    if (type = icmpEchoreply ∨ type = icmpTimestampreply ∨ type = icmpAddressreply) ∧
        le16 (packet.getD 4 0) (packet.getD 5 0) = cfg.pid % 65536 then
      .key (le16 (packet.getD 6 0) (packet.getD 7 0)) 0
    else if type = 3 ∨ type = 11 then
      let quoted := packet.drop icmphdrSize
      if quoted.length < iphdrSize then .ignored
      else if (quoted.drop 16).take 4 ≠ ctx.remoteAddr ∨ (ip.drop 16).take 4 ≠ ctx.localAddr then
        .ignored
      else
        match icmpUnreachKey cfg quoted with
        | some (seq, port) => .key seq port
        | none => .unmatched
    else .ignored

variable (cfg : Config) (ctx : Context)

theorem Context.incDstPort_ledger : (ctx.incDstPort cfg).ledger = ctx.ledger := by
  rw [Context.incDstPort]
  split_ifs <;> rfl

theorem recvUdp_ledger (packet : List UInt8) (now : ℤ) :
    ((recvUdp cfg ctx packet now).1, (recvUdp cfg ctx packet now).2.ledger) =
      (udpLookup cfg ctx packet).tally now ctx.ledger := by
  rw [recvUdp, udpLookup]
  split_ifs with hsize hport
  · rfl
  · simp only [Context.incDstPort_ledger]
    simp only [Context.ledger, Context.account, Lookup.tally, Nat.cast_zero]
  · rfl

theorem recvTcp_ledger (packet : List UInt8) (now : ℤ) :
    ((recvTcp cfg ctx packet now).1, (recvTcp cfg ctx packet now).2.ledger) =
      (tcpLookup cfg ctx packet).tally now ctx.ledger := by
  rw [recvTcp, tcpLookup]
  split_ifs with hsize hport
  · rfl
  · simp only [Context.incDstPort_ledger]
    simp only [Context.ledger, Context.account, Lookup.tally, Nat.cast_zero]
  · rfl

theorem recvIcmp_ledger (ip packet : List UInt8) (now : ℤ) :
    ((recvIcmp cfg ctx ip packet now).1, (recvIcmp cfg ctx ip packet now).2.ledger) =
      (icmpLookup cfg ctx ip packet).tally now ctx.ledger := by
  rw [recvIcmp, icmpLookup]
  dsimp only
  split_ifs with hsize hecho herror hquoted haddr
  · rfl
  · rfl
  · rfl
  · rfl
  · cases icmpUnreachKey cfg (packet.drop icmphdrSize) with
    | none => rfl
    | some key => rfl
  · rfl

/-! ### Frames -/

/-- What is handed to one of the three functions. -/
inductive Frame
  /-- To `recv_tcp`, a segment. -/
  | tcp (packet : List UInt8)
  /-- To `recv_udp`, a datagram. -/
  | udp (packet : List UInt8)
  /-- To `recv_icmp`, a message, under the header of its datagram. -/
  | icmp (ip packet : List UInt8)

/-- The function. -/
def Frame.receive (cfg : Config) (ctx : Context) (now : ℤ) : Frame → Option Rtt × Context
  | .tcp packet => recvTcp cfg ctx packet now
  | .udp packet => recvUdp cfg ctx packet now
  | .icmp ip packet => recvIcmp cfg ctx ip packet now

/-- What is looked up. -/
def Frame.lookup (cfg : Config) (ctx : Context) : Frame → Lookup
  | .tcp packet => tcpLookup cfg ctx packet
  | .udp packet => udpLookup cfg ctx packet
  | .icmp ip packet => icmpLookup cfg ctx ip packet

/-- A sequence number that is looked up has 16 bits. -/
theorem Frame.lookup_lt (f : Frame) {seq port : ℕ} (h : f.lookup cfg ctx = .key seq port) :
    seq < 65536 := by
  cases f with
  | tcp packet =>
    rw [Frame.lookup, tcpLookup] at h
    split_ifs at h
    exact (Lookup.key.inj h).1 ▸ by decide
  | udp packet =>
    rw [Frame.lookup, udpLookup] at h
    split_ifs at h
    exact (Lookup.key.inj h).1 ▸ by decide
  | icmp ip packet =>
    rw [Frame.lookup, icmpLookup] at h
    dsimp only at h
    split_ifs at h
    · exact (Lookup.key.inj h).1 ▸ le16_lt _ _
    · rcases hkey : icmpUnreachKey cfg (packet.drop icmphdrSize) with _ | ⟨s, p⟩
      · simp [hkey] at h
      · rw [hkey] at h
        obtain ⟨rfl, rfl⟩ := Lookup.key.inj h
        rw [icmpUnreachKey] at hkey
        dsimp only at hkey
        split_ifs at hkey
        · exact (Prod.mk.inj (Option.some.inj hkey)).1 ▸ by decide
        · exact (Prod.mk.inj (Option.some.inj hkey)).1 ▸ le16_lt _ _

/-- **A frame is a lookup.** -/
theorem Frame.receive_ledger (f : Frame) (now : ℤ) :
    ((f.receive cfg ctx now).1, (f.receive cfg ctx now).2.ledger) =
      (f.lookup cfg ctx).tally now ctx.ledger := by
  cases f with
  | tcp packet => exact recvTcp_ledger cfg ctx packet now
  | udp packet => exact recvUdp_ledger cfg ctx packet now
  | icmp ip packet => exact recvIcmp_ledger cfg ctx ip packet now

/-- What is found out. -/
theorem Frame.receive_reply (f : Frame) (now : ℤ) :
    (f.receive cfg ctx now).1 = ((f.lookup cfg ctx).tally now ctx.ledger).1 :=
  congrArg Prod.fst (f.receive_ledger cfg ctx now)

/-- What is left. -/
theorem Frame.ledger_receive (f : Frame) (now : ℤ) :
    (f.receive cfg ctx now).2.ledger = ((f.lookup cfg ctx).tally now ctx.ledger).2 :=
  congrArg Prod.snd (f.receive_ledger cfg ctx now)

/-- **A frame changes nothing else**, except for the port that is probed and the exit code. -/
theorem Frame.receive_rest (f : Frame) (now : ℤ) :
    ∃ table stats dstPort tcpExitcode, (f.receive cfg ctx now).2 =
      { ctx with
        table := table
        stats := stats
        dstPort := dstPort
        tcpExitcode := tcpExitcode } := by
  cases f with
  | tcp packet =>
    rw [Frame.receive, recvTcp]
    split_ifs
    · exact ⟨_, _, _, _, rfl⟩
    · dsimp only [Context.account]
      rw [Context.incDstPort]
      split_ifs <;> exact ⟨_, _, _, _, rfl⟩
    · exact ⟨_, _, _, _, rfl⟩
  | udp packet =>
    rw [Frame.receive, recvUdp]
    split_ifs
    · exact ⟨_, _, _, _, rfl⟩
    · dsimp only [Context.account]
      rw [Context.incDstPort]
      split_ifs <;> exact ⟨_, _, _, _, rfl⟩
    · exact ⟨_, _, _, _, rfl⟩
  | icmp ip packet =>
    rw [Frame.receive, recvIcmp]
    dsimp only
    split_ifs
    · exact ⟨_, _, _, _, rfl⟩
    · exact ⟨_, _, _, _, rfl⟩
    · exact ⟨_, _, _, _, rfl⟩
    · exact ⟨_, _, _, _, rfl⟩
    · cases icmpUnreachKey cfg (packet.drop icmphdrSize) with
      | none => exact ⟨_, _, _, _, rfl⟩
      | some key => exact ⟨_, _, _, _, rfl⟩
    · exact ⟨_, _, _, _, rfl⟩

end StyxWire.Hping
