import StyxWire.Hping.Fragments
import StyxWire.Hping.Loop
import StyxWire.Hping.Probes
import StyxWire.Hping.RandDest

/-!
# The size of a probe

What `parse_options` checks when all options are read (`parseoptions.c`), and how long the
datagrams are that are sent then. A datagram is an IP header, the options of
`StyxWire.Hping.ipOptBuild`, and the message of `StyxWire.Hping.Probes.sendProbe`. It has 65535
bytes at most, or its total length does not fit in its field, and the offset of its last fragment
does not either.

The size of the data is checked against the room behind an IP and a TCP header without options. So
the check is right for the messages with no more than twenty bytes in front of the data, where no
route is asked for, and it lets a few sizes pass that are too large where there are options, a
timestamp, or an error that quotes another datagram (`StyxWire.Hping.Probes.probe_fits_iff`).
-/

namespace StyxWire.Hping.Probes

open Mem Text

/-! ### What is checked -/

/-- `struct itimerval`. -/
structure Itimerval where
  valueSec : ℤ
  valueUsec : ℤ
  intervalSec : ℤ
  intervalUsec : ℤ

/-- The configuration, as the options leave it. -/
structure Options extends ProbeConfig where
  optNumeric : Bool
  optGethost : Bool
  apdSend : Option (List UInt8)
  count : ℤ
  sendingWait : ℤ
  optWaitinusec : Bool
  usecDelay : Itimerval
  optSafe : Bool
  /-- -1 is for an id of no one's choice. -/
  srcId : ℤ
  optRandDest : Bool
  ifname : List UInt8
  targetname : List UInt8
  optTraceroute : Bool
  ctrlzbind : Ctrlzbind
  srcTtl : ℤ

/-- The variables of `parse_options` that say what was given. -/
structure Given where
  targethost : Bool
  srcTtl : Bool
  delay : Bool

/-- `icmp_type_supported`. -/
def icmpTypeSupported (type : ℕ) : Bool :=
  type ∈ [icmpEcho, icmpEchoreply, 3, 4, icmpRedirect, 11, icmpTimestamp, icmpTimestampreply,
    icmpAddress, icmpAddressreply]

/-- A target that is missing. -/
def missingTarget (given : Given) (o : Options) : Option (List UInt8) :=
  if given.targethost = false ∧ o.optListenmode ∧ o.optSafe then
    some (lit "you must specify a target host if you require safe protocol\n" ++
      lit "because styxwire needs a target for HCMP packets\n")
  else if given.targethost = false ∧ ¬o.optListenmode ∧ o.apdSend = none then
    some (lit "styxwire: missing host argument\n" ++
      lit "Try `styxwire --help' for more information.\n")
  else none

/-- Some error conditions, in their order. The size in the first message is not the one that is
compared with. -/
def errorConditions (o : Options) : List (Bool × List UInt8) :=
  [(65535 < o.dataSize.toNat + iphdrSize + tcphdrSize,
      lit "Option error: sorry, data size must be <= " ++
        lit (toString (65535 - iphdrSize + tcphdrSize)) ++ lit "\n"),
    (o.count ≤ 0 ∧ o.count ≠ -1, lit "Option error: count must > 0\n"),
    (o.sendingWait < 0, lit "Option error: bad timing interval\n"),
    (o.optWaitinusec ∧ o.usecDelay.valueUsec < 0, lit "Option error: bad timing interval\n"),
    (o.optDatafromfile ∧ o.dataSize = 0, lit "Option error: -E option useless without -d\n"),
    (o.optSign ∧ o.dataSize ≠ 0 ∧ o.dataSize.toNat < o.signlen,
      lit "Option error: signature (" ++ lit (toString o.signlen) ++
        lit " bytes) is larger than data size\n" ++
        lit "check -d option, don't specify -d to let styxwire compute it\n"),
    ((o.optSign ∨ o.optListenmode) ∧ 1024 < o.signlen, lit "Option error: signature too big\n"),
    (o.optSafe ∧ o.srcId ≠ -1,
      lit "Option error: sorry, you can't set id and use safe protocol at some time\n"),
    (o.optSafe ∧ ¬o.optDatafromfile ∧ ¬o.optListenmode,
      lit "Option error: sorry, safe protocol is useless without 'data from file' option\n"),
    (o.optSafe ∧ ¬o.optSign ∧ ¬o.optListenmode,
      lit "Option error: sorry, safe protocol require you sign your packets, " ++
        lit "see --sign | -e option\n"),
    (o.optRandDest ∧ o.ifname = [],
      lit "Option error: you need to specify an interface " ++
        lit "when the --rand-dest option is enabled\n")]

/-- The message for the first condition that holds. -/
def errorCondition (o : Options) : Option (List UInt8) :=
  ((errorConditions o).find? (·.1)).map (·.2)

/-- The dependences between the options. None of them reads what another one sets. -/
def dependences (given : Given) (o : Options) : Options :=
  { o with
    srcId := if o.optSafe then 1 else o.srcId
    ctrlzbind := if o.optTraceroute ∧ o.ctrlzbind = .dport then .ttl else o.ctrlzbind
    srcTtl := if o.optTraceroute ∧ given.srcTtl = false then 1 else o.srcTtl
    dataSize := if o.optSign ∧ o.dataSize = 0 then UInt16.ofNat o.signlen else o.dataSize
    optWaitinusec := if o.optScanmode ∧ given.delay = false then true else o.optWaitinusec
    usecDelay := if o.optScanmode ∧ given.delay = false then ⟨0, 0, 0, 0⟩ else o.usecDelay }

section Check

variable {σ : Type} (hpRand : σ → ℕ × σ) (g : σ)

/-- What the senders cannot handle. -/
def unsendable (o : Options) : Option (List UInt8) :=
  if o.optIcmpmode ∧ ¬o.optForceIcmp ∧ ¬icmpTypeSupported o.optIcmptype then
    some (lit "Option error: unsupported ICMP type " ++ lit (toString o.optIcmptype) ++
      lit " (use --force-icmp to send it anyway)\n")
  else if o.optRandDest ∧ (parseRandDest hpRand o.targetname [] g).1 = -1 then
    some (lit "Option error: wrong --rand-dest target host, correct examples:\n" ++
      lit "  x.x.x.x, 192.168.x.x, 128.x.x.255\n" ++ lit "you typed: " ++ o.targetname ++ lit "\n")
  else none

/-- `parse_options`, when all options are read. -/
def checkOptions (given : Given) (o : Options) : Except (List UInt8) Options :=
  match missingTarget given o with
  | some text => .error text
  | none =>
    let o := { o with optGethost := if o.optNumeric then false else o.optGethost }
    match errorCondition o with
    | some text => .error text
    | none =>
      let o := dependences given o
      match unsendable hpRand g o with
      | some text => .error text
      | none => .ok o

end Check

/-! ### How long a message is -/

section Length

variable (cfg : ProbeConfig) (p : Probe)

/-- What an ICMP message has in front of the data, if it has data of the size that is asked for. -/
def icmpOverhead : Option ℕ :=
  if cfg.optIcmptype = icmpEcho ∨ cfg.optIcmptype = icmpEchoreply then some 8
  else if cfg.optIcmptype ∈ [icmpTimestamp, icmpTimestampreply, icmpAddress, icmpAddressreply] then
    none
  else some 36

/-- What a segment has in front of the data. -/
def tcpOverhead : ℕ := 20 + if cfg.optTcpTimestamp then 12 else 0

/-- What `send_packet` puts in front of the data. -/
def packetOverhead : Option ℕ :=
  if cfg.optRawipmode then some 0
  else if cfg.optIcmpmode then icmpOverhead cfg
  else if cfg.optUdpmode then some 8
  else some (tcpOverhead cfg)

/-- What the message of a probe has in front of the data that is asked for. -/
def overhead : Option ℕ := if cfg.optScanmode then some (tcpOverhead cfg) else packetOverhead cfg

/-- A message has something in front of the data, or is short. -/
def Sized (before : Option ℕ) (data : ℕ) (message : List UInt8) : Prop :=
  (∀ n ∈ before, message.length = n + data) ∧ (before = none → message.length ≤ 20)

theorem sized_some {n data : ℕ} {message : List UInt8} (h : message.length = n + data) :
    Sized (some n) data message :=
  ⟨fun _ hm => Option.some.inj hm ▸ h, fun hm => (nomatch hm)⟩

theorem sized_none {data : ℕ} {message : List UInt8} (h : message.length ≤ 20) :
    Sized none data message :=
  ⟨fun _ hm => (nomatch hm), fun _ => h⟩

/-- **An ICMP message of a type that is supported**, or forced, is built. -/
theorem exists_sendIcmp (h : cfg.optForceIcmp = true ∨ icmpTypeSupported cfg.optIcmptype = true) :
    ∃ message, sendIcmp cfg p = .ok message ∧
      Sized (icmpOverhead cfg) cfg.dataSize.toNat message := by
  rw [sendIcmp, icmpOverhead]
  by_cases hecho : cfg.optIcmptype = icmpEcho ∨ cfg.optIcmptype = icmpEchoreply
  · rw [if_pos hecho, if_pos hecho]
    obtain ⟨message, hsend, hlen⟩ := length_sendIcmpEcho cfg p
    exact ⟨message, hsend, sized_some hlen⟩
  rw [if_neg hecho, if_neg hecho]
  by_cases hother : cfg.optIcmptype ∈ [3, 4, icmpRedirect, 11]
  · have hrest : cfg.optIcmptype ∉
        [icmpTimestamp, icmpTimestampreply, icmpAddress, icmpAddressreply] := by
      intro hmem
      simp only [List.mem_cons, List.not_mem_nil, or_false, icmpRedirect, icmpTimestamp,
        icmpTimestampreply, icmpAddress, icmpAddressreply] at hother hmem
      omega
    rw [if_pos hother, if_neg hrest]
    obtain ⟨message, hsend, hlen⟩ := length_sendIcmpOther cfg p
    exact ⟨message, hsend, sized_some hlen⟩
  rw [if_neg hother]
  by_cases htimestamp : cfg.optIcmptype = icmpTimestamp ∨ cfg.optIcmptype = icmpTimestampreply
  · rw [if_pos htimestamp, if_pos (by rcases htimestamp with ht | ht <;> simp [ht])]
    obtain ⟨message, hsend, hlen⟩ := length_sendIcmpTimestamp cfg p
    exact ⟨message, hsend, sized_none hlen.le⟩
  rw [if_neg htimestamp]
  by_cases haddress : cfg.optIcmptype = icmpAddress ∨ cfg.optIcmptype = icmpAddressreply
  · rw [if_pos haddress, if_pos (by rcases haddress with ht | ht <;> simp [ht])]
    obtain ⟨message, hsend, hlen⟩ := length_sendIcmpAddress cfg p
    exact ⟨message, hsend, sized_none (by omega)⟩
  · -- a type of no other sender, so it has to be forced
    have hforce : cfg.optForceIcmp = true := by
      refine h.resolve_right fun hsupported => ?_
      have hmem := of_decide_eq_true hsupported
      simp only [List.mem_cons, List.not_mem_nil, or_false] at hmem hother
      tauto
    have hrest : cfg.optIcmptype ∉
        [icmpTimestamp, icmpTimestampreply, icmpAddress, icmpAddressreply] := by
      simp only [List.mem_cons, List.not_mem_nil, or_false]
      tauto
    rw [if_neg haddress, if_pos hforce, if_neg hrest]
    obtain ⟨message, hsend, hlen⟩ := length_sendIcmpOther cfg p
    exact ⟨message, hsend, sized_some hlen⟩

/-- The types that are supported, where ICMP messages are sent. -/
def Sendable : Prop :=
  cfg.optIcmpmode = true → cfg.optForceIcmp = true ∨ icmpTypeSupported cfg.optIcmptype = true

variable {cfg}

/-- **A message is built**, in each mode. -/
theorem exists_sendPacket (h : Sendable cfg) :
    ∃ message, sendPacket cfg p = .ok message ∧
      Sized (packetOverhead cfg) cfg.dataSize.toNat message := by
  rw [sendPacket, packetOverhead]
  split_ifs with hraw hicmp hudp
  · exact ⟨_, rfl, sized_some (by rw [length_probeData, Nat.zero_add])⟩
  · exact exists_sendIcmp cfg p (h hicmp)
  · obtain ⟨message, hsend, hlen⟩ := length_sendUdp cfg p
    exact ⟨message, hsend, sized_some hlen⟩
  · obtain ⟨message, hsend, hlen⟩ := length_sendTcp cfg p
    exact ⟨message, hsend, sized_some hlen⟩

theorem tcpOverhead_le (cfg : ProbeConfig) : tcpOverhead cfg ≤ 36 := by
  rw [tcpOverhead]
  split_ifs
  · decide
  · decide

/-- What is in front of the data is that of an error at most. -/
theorem packetOverhead_le {n : ℕ} (h : n ∈ packetOverhead cfg) : n ≤ 36 := by
  rw [packetOverhead] at h
  split_ifs at h
  · exact (Option.mem_some_iff.mp h) ▸ Nat.zero_le 36
  · rw [icmpOverhead] at h
    split_ifs at h
    · exact (Option.mem_some_iff.mp h) ▸ (by decide : 8 ≤ 36)
    · exact (nomatch h)
    · exact (Option.mem_some_iff.mp h).ge
  · exact (Option.mem_some_iff.mp h) ▸ (by decide : 8 ≤ 36)
  · exact (Option.mem_some_iff.mp h) ▸ tcpOverhead_le cfg

theorem overhead_le {n : ℕ} (h : n ∈ overhead cfg) : n ≤ 36 := by
  rw [overhead] at h
  split_ifs at h
  · exact (Option.mem_some_iff.mp h) ▸ tcpOverhead_le cfg
  · exact packetOverhead_le h

theorem Sized.length_le {before : Option ℕ} {data : ℕ} {message : List UInt8}
    (h : Sized before data message) (hle : ∀ n ∈ before, n ≤ 36) :
    message.length ≤ 36 + data := by
  rcases before with _ | n
  · have hshort := h.2 rfl
    omega
  · have hlen := h.1 n rfl
    have hn := hle n rfl
    omega

/-- **Each probe is built.** A request is short; any other message has what is in front of the
data, and the data. -/
theorem exists_sendProbe (h : Sendable cfg) (hsign : cfg.optListenmode = true → cfg.signlen ≤ 1024) :
    ∃ message, sendProbe cfg p = .ok message ∧
      (cfg.optListenmode = true → message.length ≤ 1068) ∧
      (cfg.optListenmode = false → Sized (overhead cfg) cfg.dataSize.toNat message) := by
  rw [sendProbe, overhead]
  rcases Bool.eq_false_or_eq_true cfg.optListenmode with hlisten | hsend
  · have hsize : (UInt16.ofNat (cfg.signlen + hcmphdrSize)).toNat = cfg.signlen + 8 := by
      have hle := hsign hlisten
      rw [UInt16.toNat_ofNat', hcmphdrSize]
      omega
    obtain ⟨message, hmessage, hsized⟩ := exists_sendPacket p
      (show Sendable { cfg with dataSize := UInt16.ofNat (cfg.signlen + hcmphdrSize) } from h)
    have hle := hsized.length_le fun n => packetOverhead_le
    dsimp only at hle
    rw [hsize] at hle
    have hsmall := hsign hlisten
    rw [if_pos hlisten]
    exact ⟨message, hmessage, fun _ => by omega,
      fun hcon => absurd (hlisten.symm.trans hcon) (by decide)⟩
  · have hnot : ¬cfg.optListenmode = true := by rw [hsend]; decide
    rw [if_neg hnot]
    split_ifs
    · obtain ⟨message, hmessage, hlen⟩ := length_sendTcp cfg p
      exact ⟨message, hmessage, fun hcon => absurd hcon hnot, fun _ => sized_some hlen⟩
    · obtain ⟨message, hmessage, hsized⟩ := exists_sendPacket p h
      exact ⟨message, hmessage, fun hcon => absurd hcon hnot, fun _ => hsized⟩

end Length

/-! ### How long the options are -/

section Area

/-- The room that the loose source route takes. -/
def looseLength (r : RouteConfig) : ℕ := if r.optLsrr ∧ r.lsrLength ≤ 39 then r.lsrLength else 0

/-- The room that both source routes take. -/
def routesLength (r : RouteConfig) : ℕ :=
  looseLength r + if r.optSsrr ∧ r.ssrLength + looseLength r ≤ 39 then r.ssrLength else 0

/-- The room that all options take; the record route takes all that is left. -/
def usedLength (r : RouteConfig) : ℕ :=
  if r.optRroute ∧ routesLength r ≤ 33 then 39 else routesLength r

/-- The length of the option area. -/
def areaLength (r : RouteConfig) : ℕ := (usedLength r + 3) / 4 * 4

variable {b : IpOptArea}

theorem addLsrr_length (h : b.optlen = 0) :
    b.addLsrr.optlen = looseLength b.cfg ∧ looseLength b.addLsrr.cfg = looseLength b.cfg ∧
      b.addLsrr.cfg.optSsrr = b.cfg.optSsrr ∧ b.addLsrr.cfg.ssrLength = b.cfg.ssrLength ∧
      b.addLsrr.cfg.optRroute = b.cfg.optRroute := by
  rw [IpOptArea.addLsrr]
  split_ifs with hopt hfits
  · refine ⟨?_, rfl, rfl, rfl, rfl⟩
    rw [looseLength, if_pos ⟨hopt, hfits⟩]
    dsimp only
    omega
  · refine ⟨?_, ?_, rfl, rfl, rfl⟩
    · rw [looseLength, if_neg (by tauto)]
      exact h
    · rw [looseLength, looseLength, if_neg (by simp), if_neg (by tauto)]
  · refine ⟨?_, rfl, rfl, rfl, rfl⟩
    rw [looseLength, if_neg (by tauto)]
    exact h

theorem addSsrr_length (h : b.optlen = looseLength b.cfg) :
    b.addSsrr.optlen = routesLength b.cfg ∧ routesLength b.addSsrr.cfg = routesLength b.cfg ∧
      b.addSsrr.cfg.optRroute = b.cfg.optRroute := by
  rw [IpOptArea.addSsrr, h]
  split_ifs with hopt hfits
  · exact ⟨by rw [routesLength, if_pos ⟨hopt, hfits⟩], rfl, rfl⟩
  · have hnone : routesLength b.cfg = looseLength b.cfg := by
      rw [routesLength, if_neg (by tauto), Nat.add_zero]
    refine ⟨hnone.symm, ?_, rfl⟩
    rw [hnone, routesLength, if_neg (by simp), Nat.add_zero]
    rfl
  · have hnone : routesLength b.cfg = looseLength b.cfg := by
      rw [routesLength, if_neg (by tauto), Nat.add_zero]
    exact ⟨h.trans hnone.symm, rfl, rfl⟩

theorem addRroute_length (h : b.optlen = routesLength b.cfg) :
    b.addRroute.optlen = usedLength b.cfg ∧ usedLength b.addRroute.cfg = usedLength b.cfg := by
  rw [IpOptArea.addRroute, h]
  split_ifs with hopt hfits
  · exact ⟨by rw [usedLength, if_pos ⟨hopt, hfits⟩], rfl⟩
  · have hnone : usedLength b.cfg = routesLength b.cfg := by rw [usedLength, if_neg (by tauto)]
    refine ⟨hnone.symm, ?_⟩
    rw [hnone, usedLength, if_neg (by simp)]
    rfl
  · have hnone : usedLength b.cfg = routesLength b.cfg := by rw [usedLength, if_neg (by tauto)]
    exact ⟨h.trans hnone.symm, rfl⟩

/-- **The area has the length of what fits**, and the same length when it is built again, without
what did not fit. -/
theorem ipOptBuild_length (r : RouteConfig) :
    (ipOptBuild r).optlen = areaLength r ∧ areaLength (ipOptBuild r).cfg = areaLength r := by
  obtain ⟨hlen₁, hloose, hopt, hlength, hrroute₁⟩ :=
    addLsrr_length (b := ⟨r, List.replicate 40 1, 0⟩) rfl
  set b₁ := (IpOptArea.mk r (List.replicate 40 1) 0).addLsrr with hb₁
  obtain ⟨hlen₂, hroutes, hrroute₂⟩ := addSsrr_length (hlen₁.trans hloose.symm)
  obtain ⟨hlen₃, hused⟩ := addRroute_length (hlen₂.trans hroutes.symm)
  have hroutes₁ : routesLength b₁.cfg = routesLength r := by
    rw [routesLength, routesLength, hloose, hopt, hlength]
  have hused₁ : usedLength b₁.addSsrr.cfg = usedLength r := by
    rw [usedLength, usedLength, hroutes, hroutes₁, hrroute₂, hrroute₁]
  rw [hused₁] at hlen₃ hused
  rw [ipOptBuild, ← hb₁, IpOptArea.finish, areaLength, areaLength]
  split_ifs with hzero
  · rw [hused]
    exact ⟨by omega, rfl⟩
  · dsimp only
    rw [hlen₃, hused]
    exact ⟨rfl, rfl⟩

theorem areaLength_le (r : RouteConfig) : areaLength r ≤ 40 := by
  rw [← (ipOptBuild_length r).1]
  exact (length_ipOpt_ipOptBuild r).2

end Area

/-! ### What is accepted -/

section Accepted

variable {σ : Type} {hpRand : σ → ℕ × σ} {g : σ} {given : Given} {o o' : Options}

/-- The size of the data is that of the signature if it is not given. -/
def sentSize (cfg : ProbeConfig) : UInt16 :=
  if cfg.optSign ∧ cfg.dataSize = 0 then UInt16.ofNat cfg.signlen else cfg.dataSize

/-- The conditions that have to do with sizes. -/
theorem errorCondition_none (h : errorCondition o = none) : o.dataSize.toNat + 40 ≤ 65535 ∧
    (o.optSign = true ∨ o.optListenmode = true → o.signlen ≤ 1024) := by
  have hnone := List.find?_eq_none.mp (Option.map_eq_none_iff.mp h)
  have hsize := hnone _ List.mem_cons_self
  have hbig := hnone _ (.tail _ (.tail _ (.tail _ (.tail _ (.tail _ (.tail _ (.head _)))))))
  dsimp only at hsize hbig
  rw [decide_eq_true_iff] at hsize hbig
  rw [iphdrSize, tcphdrSize] at hsize
  exact ⟨by omega, fun hopt => Nat.le_of_not_lt fun hlt => hbig ⟨hopt, hlt⟩⟩

theorem unsendable_none (h : unsendable hpRand g o = none) : Sendable o.toProbeConfig := by
  intro hicmp
  by_contra hnot
  rw [not_or] at hnot
  rw [unsendable, if_pos ⟨hicmp, hnot⟩] at h
  cases h

/-- What is accepted: the size of the data passes its check, the signature is short, and the
message can be built. Of the dependences, the senders see the size of the data. -/
theorem checkOptions_spec (h : checkOptions hpRand g given o = .ok o') :
    o'.toProbeConfig = { o.toProbeConfig with dataSize := sentSize o.toProbeConfig } ∧
      Sendable o'.toProbeConfig ∧ o.dataSize.toNat + 40 ≤ 65535 ∧
      (o.optSign = true ∨ o.optListenmode = true → o.signlen ≤ 1024) := by
  rw [checkOptions] at h
  split at h
  · cases h
  dsimp only at h
  split at h
  · cases h
  rename_i herror
  split at h
  · cases h
  rename_i hsendable
  obtain rfl := Except.ok.inj h
  exact ⟨rfl, unsendable_none hsendable, errorCondition_none herror⟩

end Accepted

/-! ### The datagrams of a run -/

/-- What a probe leaves of the configuration: a request sets the size of the data, and the options
that do not fit are dropped. -/
def afterProbe (cfg : ProbeConfig) : ProbeConfig :=
  { cfg with
    dataSize := if cfg.optListenmode then UInt16.ofNat (cfg.signlen + hcmphdrSize) else cfg.dataSize
    routes := ⟨(ipOptBuild cfg.routes.1).cfg,
      cfg.routes.2.drops (ipOptBuild_spec cfg.routes.2).1⟩ }

/-- A probe is built, and its datagram has a length that an IP header can tell. -/
def Fits (cfg : ProbeConfig) (p : Probe) : Prop :=
  ∃ message, sendProbe cfg p = .ok message ∧
    20 + (ipOptBuild cfg.routes.1).options.length + message.length ≤ 65535

/-- The data that is asked for leaves room for what is in front of it, options included. A listener
sends none, nor do those ICMP messages that have data of their own. -/
def Room (cfg : ProbeConfig) : Prop :=
  cfg.optListenmode = false → ∀ n ∈ overhead cfg,
    n + cfg.dataSize.toNat + areaLength cfg.routes.1 ≤ 65515

section Run

variable {cfg : ProbeConfig}

/-- **One probe fits where there is room.** -/
theorem fits_iff (h : Sendable cfg) (hsign : cfg.optListenmode = true → cfg.signlen ≤ 1024)
    (p : Probe) : Fits cfg p ↔ Room cfg := by
  have harea : (ipOptBuild cfg.routes.1).options.length = areaLength cfg.routes.1 :=
    (length_options_ipOptBuild _).trans (ipOptBuild_length _).1
  have hle := areaLength_le cfg.routes.1
  obtain ⟨message, hsend, hlisten, hsized⟩ := exists_sendProbe p h hsign
  rw [Fits, harea]
  constructor
  · rintro ⟨message', hsend', hfits⟩ hoff n hn
    obtain rfl : message = message' := Except.ok.inj (hsend.symm.trans hsend')
    have hlen := (hsized hoff).1 n hn
    omega
  · intro hroom
    refine ⟨message, hsend, ?_⟩
    rcases Bool.eq_false_or_eq_true cfg.optListenmode with hon | hoff
    · have hshort := hlisten hon
      omega
    · rcases hover : overhead cfg with _ | n
      · have hshort := (hsized hoff).2 hover
        omega
      · have hlen := (hsized hoff).1 n hover
        have hn := hroom hoff n hover
        omega

/-- **A probe leaves the room as it is.** -/
theorem room_afterProbe : Room (afterProbe cfg) ↔ Room cfg := by
  have harea : areaLength (afterProbe cfg).routes.1 = areaLength cfg.routes.1 :=
    (ipOptBuild_length cfg.routes.1).2
  rw [Room, Room, harea]
  refine forall_congr' fun hoff => ?_
  have hnot : ¬cfg.optListenmode = true := by
    rw [show cfg.optListenmode = false from hoff]
    decide
  have hdata : (afterProbe cfg).dataSize = cfg.dataSize := if_neg hnot
  rw [hdata]
  rfl

/-- Each probe of a run fits where there is room. -/
theorem fits_iterate_iff (h : Sendable cfg) (hsign : cfg.optListenmode = true → cfg.signlen ≤ 1024)
    (k : ℕ) (p : Probe) : Fits (afterProbe^[k] cfg) p ↔ Room cfg := by
  induction k generalizing cfg with
  | zero => exact fits_iff h hsign p
  | succ k ih =>
    rw [Function.iterate_succ_apply]
    exact (@ih (afterProbe cfg) h hsign).trans room_afterProbe

/-- A short signature in the place of no data changes nothing. -/
theorem room_sentSize (hsign : cfg.optSign = true → cfg.signlen ≤ 1024) :
    Room { cfg with dataSize := sentSize cfg } ↔ Room cfg := by
  rw [Room, Room]
  refine forall_congr' fun _ => forall₂_congr fun n hn => ?_
  dsimp only
  rw [sentSize]
  split_ifs with hnone
  · have hn := @overhead_le cfg n hn
    have hle := areaLength_le cfg.routes.1
    have hsmall := hsign hnone.1
    have hsize : (UInt16.ofNat cfg.signlen).toNat = cfg.signlen := by
      rw [UInt16.toNat_ofNat']
      omega
    rw [hsize, hnone.2, UInt16.toNat_zero]
    omega
  · rfl

end Run

/-! ### Its fields -/

section Fields

open Fragments Tiling

variable {sc : SendConfig} {st st' : SendState} {env : SendEnv} {options packet data : List UInt8}

/-- The total length that a header tells. -/
def wireTotLen (wire : List UInt8) : ℕ := be16 (wire.getD 2 0) (wire.getD 3 0)

theorem sendIp_totLen (moreFragments fragoff : ℕ)
    (h : 20 + options.length + data.length ≤ 65535) :
    wireTotLen (Fragments.sendIp sc st env options data moreFragments fragoff).1.wire =
      (Fragments.sendIp sc st env options data moreFragments fragoff).1.wire.length := by
  have hwire : (Fragments.sendIp sc st env options data moreFragments fragoff).1.wire =
      ipHeader sc st env options.length data.length moreFragments fragoff ++ options ++ data := rfl
  have hfield : wireTotLen (ipHeader sc st env options.length data.length moreFragments fragoff ++
      options ++ data) = be16 (UInt8.ofNat ((20 + options.length + data.length) / 256))
        (UInt8.ofNat (20 + options.length + data.length)) := rfl
  rw [hwire, hfield, be16_putBe16, List.length_append, List.length_append, length_ipHeader]
  exact Nat.mod_eq_of_lt (by omega)

/-- **What fits is told right**: each datagram that is sent has its length in its header, and the
place of a fragment is one that its offset can be. -/
theorem fields_of_fits {fuel : ℕ} {sent : List Sent}
    (h : Fragments.sendIpHandler sc env fuel st packet = some (sent, st'))
    (hfits : 20 + (ipOptBuild st.routes.1).options.length + packet.length ≤ 65535) :
    ∀ s ∈ sent, wireTotLen s.wire = s.wire.length ∧
      ((st.prepare sc packet.length).optFragment = true → s.fragoff < 65536) := by
  obtain ⟨hoff, flags, rfl, -⟩ | ⟨-, hloop⟩ := sendIpHandler_cases h
  · intro s hs
    obtain rfl := List.mem_singleton.mp hs
    exact ⟨sendIp_totLen _ _ hfits, fun hon => absurd (hoff.symm.trans hon) (by decide)⟩
  · have hslice : ∀ x : ℕ × ℕ, 20 + (ipOptBuild st.routes.1).options.length +
        (slice packet x).length ≤ 65535 := by
      intro x
      have hle : (slice packet x).length ≤ packet.length := by
        rw [slice, List.length_take, List.length_drop]
        omega
      omega
    have hrun := sendFragments_induction (P := fun _ remainder fragOffset sent _ =>
      fragOffset + remainder ≤ packet.length → ∀ s ∈ sent,
        wireTotLen s.wire = s.wire.length ∧ s.fragoff < 65536) ?_ ?_ hloop
    · exact fun s hs => (hrun (Nat.zero_add _).le s hs).imp_right fun hlt _ => hlt
    · intro st remainder fragOffset _ hle s hs
      obtain rfl := List.mem_singleton.mp hs
      exact ⟨sendIp_totLen _ _ (hslice _), show fragOffset < 65536 by omega⟩
    · intro st remainder fragOffset rest st' hlt ih hle s hs
      rcases List.mem_cons.mp hs with rfl | hs
      · exact ⟨sendIp_totLen _ _ (hslice _), show fragOffset < 65536 by omega⟩
      · exact ih (by omega) s hs

end Fields

/-! ### The command lines -/

/-- A probe of zeros. -/
instance : Inhabited Probe where
  default :=
    let zero : Addr := ⟨[0, 0, 0, 0], rfl⟩
    ⟨zero, zero, 0, 0, 0, 0, zero, 0, 0, 0, zero, zero, zero, [], [], []⟩

/-- **The probes of an accepted command line fit**, each of them, exactly if the data leaves room
for what the sender puts in front of it and for the options. -/
theorem probe_fits_iff {σ : Type} {hpRand : σ → ℕ × σ} {g : σ} {given : Given} {o o' : Options}
    (h : checkOptions hpRand g given o = .ok o') :
    (∀ (k : ℕ) (p : Probe), Fits (afterProbe^[k] o'.toProbeConfig) p) ↔ Room o.toProbeConfig := by
  obtain ⟨hcfg, hsend, -, hsign⟩ := checkOptions_spec h
  have hroom : Room o'.toProbeConfig ↔ Room o.toProbeConfig := by
    rw [hcfg]
    exact room_sentSize fun hopt => hsign (Or.inl hopt)
  have hlisten : o'.optListenmode = true → o'.signlen ≤ 1024 := by
    rw [hcfg]
    exact fun hopt => hsign (Or.inr hopt)
  constructor
  · intro hfits
    exact hroom.mp ((fits_iff hsend hlisten default).mp (hfits 0 default))
  · intro hin k p
    exact (fits_iterate_iff hsend hlisten k p).mpr (hroom.mpr hin)

/-- What `hping_config_init` leaves, with a target. -/
def Options.init : Options where
  dataSize := 0
  sign := []
  signlen := 0
  optSign := false
  optListenmode := false
  optDatafromfile := false
  optScanmode := false
  optRawipmode := false
  optIcmpmode := false
  optUdpmode := false
  optBadcksum := false
  tcpSeqnum := none
  tcpAck := none
  tcpThFlags := 0
  srcWinsize := 512
  srcThoff := 5
  optTcpTimestamp := false
  optIcmptype := 8
  optIcmpcode := 0
  optForceIcmp := false
  icmpCksum := -1
  icmpIpVersion := 4
  icmpIpIhl := 5
  icmpIpTos := 0
  icmpIpTotLen := 0
  icmpIpProtocol := 6
  icmpIpSrcport := 0
  icmpIpDstport := 0
  routes := ⟨RouteConfig.init, RouteConfig.ok_init⟩
  optNumeric := false
  optGethost := true
  apdSend := none
  count := -1
  sendingWait := 1
  optWaitinusec := false
  usecDelay := ⟨0, 0, 0, 0⟩
  optSafe := false
  srcId := -1
  optRandDest := false
  ifname := []
  targetname := lit "target"
  optTraceroute := false
  ctrlzbind := .dport
  srcTtl := 64

/-- `-C 3 -d n target`: an error that quotes another datagram, and data. -/
def unreachable (n : UInt16) : Options :=
  { Options.init with optIcmpmode := true, optIcmptype := 3, dataSize := n }

/-- With a kilobyte of data it fits. -/
theorem probe_fits_unreachable :
    checkOptions (fun g : ℕ => (g, g)) 0 ⟨true, false, false⟩ (unreachable 1024) =
        .ok (unreachable 1024) ∧
      ∀ (k : ℕ) (p : Probe), Fits (afterProbe^[k] (unreachable 1024).toProbeConfig) p := by
  have haccepted : checkOptions (fun g : ℕ => (g, g)) 0 ⟨true, false, false⟩ (unreachable 1024) =
      .ok (unreachable 1024) := rfl
  refine ⟨haccepted, (probe_fits_iff haccepted).mpr fun _ n hn => ?_⟩
  obtain rfl : 36 = n := Option.mem_some_iff.mp hn
  decide

/-- **The largest size that is accepted is too large**: the datagram has 65551 bytes. -/
theorem probe_too_large :
    checkOptions (fun g : ℕ => (g, g)) 0 ⟨true, false, false⟩ (unreachable 65495) =
        .ok (unreachable 65495) ∧
      ∀ p : Probe, (∃ message, sendProbe (unreachable 65495).toProbeConfig p = .ok message ∧
          20 + (ipOptBuild (unreachable 65495).routes.1).options.length + message.length = 65551) ∧
        ¬Fits (unreachable 65495).toProbeConfig p := by
  refine ⟨rfl, fun p => ?_⟩
  obtain ⟨message, hsend, -, hsized⟩ :=
    @exists_sendProbe (unreachable 65495).toProbeConfig p (fun _ => Or.inr rfl)
      fun hcon => absurd hcon (by decide)
  have hlen : message.length = 36 + 65495 := (hsized rfl).1 36 rfl
  have harea : (ipOptBuild (unreachable 65495).routes.1).options.length = 0 := rfl
  refine ⟨⟨message, hsend, by omega⟩, ?_⟩
  rintro ⟨message', hsend', hfits⟩
  obtain rfl : message = message' := Except.ok.inj (hsend.symm.trans hsend')
  omega

end StyxWire.Hping.Probes
