import StyxWire.Hping.ScanComplete

/-!
# The replies of a scan

Which port an ICMP message answers (`StyxWire.Hping.Attributed`): the probe that is quoted in it
has its ports behind its own header, and `scan_process_packet` looks for them behind 20 bytes. The
two places agree, or neither of them matters, exactly if the port is the right one
(`StyxWire.Hping.attributed_iff`).

The average of the round trip times, into which the `k`-th of them goes as an integer divided by
`k`, and when it is their mean after every reply (`StyxWire.Hping.average_mean_iff`).
-/

namespace StyxWire.Hping

open Text

variable {F : Type}

/-! ### Quotations -/

/-- The datagram that is quoted in a frame with an ICMP message for this host. -/
def quotedDatagram (env : ScanEnv F) (packet : List UInt8) : Option (List UInt8) :=
  let ip := packet.drop env.cfg.linkhdrSize
  let iphdrlen := byteAt 0 ip % 16 * 4
  if env.cfg.linkhdrSize ≤ packet.length ∧ iphdrSize ≤ iphdrlen ∧
      iphdrlen + icmphdrSize ≤ ip.length ∧ (ip.drop 16).take 4 = env.localAddr ∧
      byteAt 9 ip = ipprotoIcmp then
    some (ip.drop (iphdrlen + icmphdrSize))
  else none

/-- The length of the header of a datagram, by its IHL. -/
def headerLength (q : List UInt8) : ℕ := byteAt 0 q % 16 * 4

/-- **A datagram is a probe of a port**, as far as its two ports. -/
structure IsProbe (env : ScanEnv F) (q : List UInt8) (port : Port) : Prop where
  tcp : byteAt 9 q = ipprotoTcp
  header : iphdrSize ≤ headerLength q
  length : headerLength q + 4 ≤ q.length
  saddr : (q.drop 12).take 4 = env.localAddr
  daddr : (q.drop 16).take 4 = env.remoteAddr
  sport : (ntohsAt (headerLength q) q : ℤ) = env.cfg.initsport
  dport : ntohsAt (headerLength q + 2) q = port.val

/-- The port is answered by the frame. -/
def Marks (env : ScanEnv F) (st : ScanState F) (packet : List UInt8) (clock : ℤ) (port : Port) :
    Prop :=
  (st.pi port).active = true ∧ ((scanProcessPacket env st packet clock).2.pi port).active = false

/-- **ICMP messages are attributed to the right port**: one that is answered by such a message is
that of the probe quoted in it, and the port of a probe that is quoted with the whole of its TCP
header is answered. -/
structure Attributed (env : ScanEnv F) (st : ScanState F) (packet : List UInt8) (clock : ℤ) :
    Prop where
  only : byteAt 9 (packet.drop env.cfg.linkhdrSize) = ipprotoIcmp → ∀ port,
    Marks env st packet clock port → ∃ q, quotedDatagram env packet = some q ∧ IsProbe env q port
  all : ∀ q port, quotedDatagram env packet = some q → IsProbe env q port →
    headerLength q + tcphdrSize ≤ q.length → (st.pi port).active = true →
    Marks env st packet clock port

/-- A port is read behind 20 bytes of a quotation. -/
structure FixedQuote (env : ScanEnv F) (q : List UInt8) (port : Port) : Prop where
  length : iphdrSize + tcphdrSize ≤ q.length
  saddr : (q.drop 12).take 4 = env.localAddr
  daddr : (q.drop 16).take 4 = env.remoteAddr
  sport : (ntohsAt iphdrSize q : ℤ) = env.cfg.initsport
  dport : ntohsAt (iphdrSize + 2) q = port.val

/-- A quoted TCP segment has behind its header the ports that stand behind 20 bytes. -/
structure PortsInPlace (q : List UInt8) : Prop where
  tcp : byteAt 9 q = ipprotoTcp
  header : iphdrSize ≤ headerLength q
  length : headerLength q + 4 ≤ q.length
  sport : ntohsAt (headerLength q) q = ntohsAt iphdrSize q
  dport : ntohsAt (headerLength q + 2) q = ntohsAt (iphdrSize + 2) q

theorem ntohsAt_drop (i k : ℕ) (h : List UInt8) : ntohsAt i (h.drop k) = ntohsAt (k + i) h := by
  rw [ntohsAt, ntohsAt, List.getD_eq_getElem?_getD, List.getD_eq_getElem?_getD,
    List.getD_eq_getElem?_getD, List.getD_eq_getElem?_getD, List.getElem?_drop, List.getElem?_drop,
    Nat.add_assoc]

theorem ScanState.answer_active (st : ScanState F) (port p : Port) :
    ((st.answer port).pi p).active = (decide (p ≠ port) && (st.pi p).active) := by
  rw [answer]
  dsimp only
  by_cases hp : p = port
  · rw [hp, Function.update_self]
    simp
  · rw [Function.update_of_ne hp]
    simp [hp]

/-- What the code makes of a message and the datagram in it. -/
theorem scanIcmp_active (env : ScanEnv F) (st : ScanState F) (icmp : List UInt8) (port : Port) :
    ((st.pi port).active = true ∧ ((scanIcmp env st icmp).2.pi port).active = false) ↔
      (st.pi port).active = true ∧ FixedQuote env (icmp.drop icmphdrSize) port := by
  refine and_congr_right fun hactive => ?_
  have hsame : ¬ (st.pi port).active = false := by rw [hactive]; exact Bool.noConfusion
  rw [scanIcmp]
  dsimp only
  rw [ntohsAt_drop 0, ntohsAt_drop 2, Nat.add_zero]
  have hlength : (icmp.drop icmphdrSize).length = icmp.length - icmphdrSize := List.length_drop
  generalize icmp.drop icmphdrSize = q at hlength
  have hport : ∀ {p : Port}, ntohsAt (iphdrSize + 2) q = p.val →
      Fin.ofNat (maxport + 1) (ntohsAt (iphdrSize + 2) q) = p := by
    intro p hp
    rw [hp]
    exact Fin.ofNat_val_eq_self p
  split_ifs with hlen hsaddr hdaddr hsport hdport
  · refine iff_of_false hsame fun h => ?_
    have hlong := h.length
    have hpos : 0 < tcphdrSize := by decide
    omega
  · exact iff_of_false hsame fun h => hsaddr h.saddr
  · exact iff_of_false hsame fun h => hdaddr h.daddr
  · exact iff_of_false hsame fun h => hsport h.sport
  · refine iff_of_false hsame fun h => ?_
    rw [hport h.dport, hactive] at hdport
    cases hdport
  · rw [not_ne_iff] at hsaddr hdaddr hsport
    rw [ScanState.answer_active, hactive, Bool.and_true, decide_eq_false_iff_not, not_not]
    constructor
    · intro h
      refine ⟨by omega, hsaddr, hdaddr, hsport, ?_⟩
      rw [h]
      exact (Nat.mod_eq_of_lt (Mem.be16_lt _ _)).symm
    · intro h
      exact (hport h.dport).symm

/-- **The frames that are looked at as quotations**, and the others that carry an ICMP message. -/
theorem marks_iff {env : ScanEnv F} {st : ScanState F} {packet q : List UInt8}
    (hq : quotedDatagram env packet = some q) (clock : ℤ) (port : Port) :
    Marks env st packet clock port ↔ (st.pi port).active = true ∧ FixedQuote env q port := by
  rw [quotedDatagram] at hq
  split_ifs at hq with hframe
  obtain ⟨hlink, hhdr, hlen, hdaddr, hproto⟩ := hframe
  obtain rfl := Option.some.inj hq
  have hscan : scanProcessPacket env st packet clock = scanIcmp env st
      ((packet.drop env.cfg.linkhdrSize).drop
        (byteAt 0 (packet.drop env.cfg.linkhdrSize) % 16 * 4)) := by
    rw [scanProcessPacket, if_neg (by omega)]
    dsimp only
    rw [if_neg (by omega), if_neg (by omega), if_neg (not_not.mpr hdaddr),
      if_neg fun h => h.1 hproto, if_neg (by rw [hproto]; decide), if_pos hproto]
  rw [Marks, hscan, scanIcmp_active, List.drop_drop]

theorem not_marks_of_none {env : ScanEnv F} {st : ScanState F} {packet : List UInt8}
    (hq : quotedDatagram env packet = none)
    (hproto : byteAt 9 (packet.drop env.cfg.linkhdrSize) = ipprotoIcmp) (clock : ℤ) (port : Port) :
    ¬ Marks env st packet clock port := by
  have hsame : (scanProcessPacket env st packet clock).2 = st := by
    rw [scanProcessPacket]
    split_ifs with hlink
    · rfl
    rw [quotedDatagram] at hq
    dsimp only at hq ⊢
    split_ifs with hshort hhdr hdaddr hsaddr htcp
    · rfl
    · rfl
    · rfl
    · rfl
    · rw [hproto] at htcp
      cases htcp
    · have hcut : ¬ byteAt 0 (packet.drop env.cfg.linkhdrSize) % 16 * 4 + icmphdrSize ≤
          (packet.drop env.cfg.linkhdrSize).length := by
        intro hlen
        rw [if_pos ⟨by omega, by omega, hlen, not_not.mp hdaddr, hproto⟩] at hq
        cases hq
      rw [scanIcmp, if_pos]
      rw [List.length_drop]
      omega
  rintro ⟨hactive, hmarked⟩
  rw [hsame, hactive] at hmarked
  cases hmarked

/-- **When ICMP messages are attributed to the right port**: the quoted datagram is a TCP segment
whose ports are those behind 20 bytes, or it names no active port, at either place. -/
theorem attributed_iff (env : ScanEnv F) (st : ScanState F) (packet : List UInt8) (clock : ℤ) :
    Attributed env st packet clock ↔ ∀ q, quotedDatagram env packet = some q →
      PortsInPlace q ∨ ∀ port, (st.pi port).active = true →
        ¬ FixedQuote env q port ∧
        ¬ (IsProbe env q port ∧ headerLength q + tcphdrSize ≤ q.length) := by
  constructor
  · intro h q hq
    have hproto : byteAt 9 (packet.drop env.cfg.linkhdrSize) = ipprotoIcmp := by
      rw [quotedDatagram] at hq
      split_ifs at hq with hframe
      exact hframe.2.2.2.2
    have hplace : ∀ port, (st.pi port).active = true → FixedQuote env q port →
        PortsInPlace q := by
      intro port hactive hfixed
      obtain ⟨q', hq', hprobe⟩ := h.only hproto port ((marks_iff hq clock port).mpr
        ⟨hactive, hfixed⟩)
      obtain rfl : q = q' := Option.some.inj (hq.symm.trans hq')
      refine ⟨hprobe.tcp, hprobe.header, hprobe.length, ?_, hprobe.dport.trans hfixed.dport.symm⟩
      exact Int.natCast_inj.mp (hprobe.sport.trans hfixed.sport.symm)
    by_contra hno
    rw [not_or] at hno
    obtain ⟨hout, hnames⟩ := hno
    refine hnames fun port hactive => ⟨fun hfixed => hout (hplace port hactive hfixed), ?_⟩
    rintro ⟨hprobe, hlen⟩
    have hmarks := (marks_iff hq clock port).mp (h.all q port hq hprobe hlen hactive)
    exact hout (hplace port hactive hmarks.2)
  · intro h
    constructor
    · intro hproto port hmarks
      rcases hq : quotedDatagram env packet with _ | q
      · exact absurd hmarks (not_marks_of_none hq hproto clock port)
      obtain ⟨hactive, hfixed⟩ := (marks_iff hq clock port).mp hmarks
      rcases h q hq with hplace | hnames
      · refine ⟨q, rfl, hplace.tcp, hplace.header, hplace.length, hfixed.saddr, hfixed.daddr, ?_,
          hplace.dport.trans hfixed.dport⟩
        rw [hplace.sport]
        exact hfixed.sport
      · exact absurd hfixed (hnames port hactive).1
    · intro q port hq hprobe hlen hactive
      refine (marks_iff hq clock port).mpr ⟨hactive, ?_⟩
      rcases h q hq with hplace | hnames
      · refine ⟨?_, hprobe.saddr, hprobe.daddr, ?_, hplace.dport.symm.trans hprobe.dport⟩
        · exact le_trans (Nat.add_le_add_right hprobe.header _) hlen
        · rw [← hplace.sport]
          exact hprobe.sport
      · exact absurd ⟨hprobe, hlen⟩ (hnames port hactive).2

/-- An ICMP error that comes from a router and quotes a datagram. -/
def icmpError (q : List UInt8) : List UInt8 :=
  [0x45, 0, 0, 0, 0, 0, 0, 0, 64, 1, 0, 0, 192, 0, 2, 9, 192, 0, 2, 1] ++
    [3, 3, 0, 0, 0, 0, 0, 0] ++ q

/-- The first bytes of a datagram from the scanning host to the target. -/
def quotedHeader (ihl proto : UInt8) : List UInt8 :=
  [0x40 + ihl, 0, 0, 40, 0, 0, 0, 0, 64, proto, 0, 0, 192, 0, 2, 1, 192, 0, 2, 2]

/-- A UDP datagram that is quoted answers port 80, and a probe of that port with an IP option in
its header does not. -/
theorem attributed_forged_and_missed :
    ¬ Attributed scanEnv onePort
      (icmpError (quotedHeader 5 17 ++ [0, 0, 0, 80] ++ List.replicate 16 0)) 0 ∧
    ¬ Attributed scanEnv onePort
      (icmpError (quotedHeader 6 6 ++ [1, 1, 1, 1] ++ [0, 0, 0, 80] ++ List.replicate 16 0)) 0 := by
  have hactive : (onePort.pi 80).active = true := rfl
  constructor
  · intro h
    have hmarks : Marks scanEnv onePort
        (icmpError (quotedHeader 5 17 ++ [0, 0, 0, 80] ++ List.replicate 16 0)) 0 80 :=
      (marks_iff rfl 0 80).mpr ⟨hactive, by decide, rfl, rfl, rfl, rfl⟩
    obtain ⟨q, hq, hprobe⟩ := h.only rfl 80 hmarks
    have htcp := hprobe.tcp
    rw [← Option.some.inj hq] at htcp
    exact absurd htcp (by decide)
  · intro h
    have hprobe := h.all _ 80 rfl ⟨rfl, by decide, by decide, rfl, rfl, rfl, rfl⟩ (by decide)
      hactive
    have hfixed := ((marks_iff rfl 0 80).mp hprobe).2.sport
    exact absurd hfixed (by decide)

/-! ### The average -/

/-- The round trip time of a TCP reply that is accepted, in milliseconds. -/
def acceptedRtt (env : ScanEnv F) (st : ScanState F) (packet : List UInt8) (clock : ℤ) :
    Option ℤ :=
  let ip := packet.drop env.cfg.linkhdrSize
  let sport := toPort (ntohsAt 0 (ip.drop (byteAt 0 ip % 16 * 4)))
  if (scanProcessPacket env st packet clock).1 = true ∧ byteAt 9 ip = ipprotoTcp then
    some ((clock - (st.pi sport).sentUs).tdiv 1000)
  else none

/-- The round trip times of the TCP replies that are accepted in a scan. -/
def ScanRun.rtts (env : ScanEnv F) : ScanRun F → List ScanEvent → List ℤ
  | _, [] => []
  | r, .frame packet clock :: es =>
    (acceptedRtt env r.st packet clock).toList ++
      rtts env ⟨(scanProcessPacket env r.st packet clock).2, r.log⟩ es
  | r, .step now clock :: es =>
    match r.step env (.step now clock) with
    | some r' => rtts env r' es
    | none => []

/-- **A reply that is accepted goes into the average**, and nothing else does. -/
theorem scanProcessPacket_average (env : ScanEnv F) (st : ScanState F) (packet : List UInt8)
    (clock : ℤ) :
    (acceptedRtt env st packet clock = none ∧
      (scanProcessPacket env st packet clock).2.avrgms = st.avrgms ∧
      (scanProcessPacket env st packet clock).2.avrgcount = st.avrgcount) ∨
    ∃ rttms, acceptedRtt env st packet clock = some rttms ∧
      (scanProcessPacket env st packet clock).2.avrgms = (st.average env rttms).avrgms ∧
      (scanProcessPacket env st packet clock).2.avrgcount = st.avrgcount + 1 := by
  rw [acceptedRtt]
  generalize hdone : scanProcessPacket env st packet clock = done
  rw [scanProcessPacket] at hdone
  dsimp only at hdone
  split_ifs at hdone with hlink hshort hhdr hdaddr hsaddr htcp hicmp
  · exact Or.inl (hdone ▸ ⟨if_neg fun h => Bool.noConfusion h.1, rfl, rfl⟩)
  · exact Or.inl (hdone ▸ ⟨if_neg fun h => Bool.noConfusion h.1, rfl, rfl⟩)
  · exact Or.inl (hdone ▸ ⟨if_neg fun h => Bool.noConfusion h.1, rfl, rfl⟩)
  · exact Or.inl (hdone ▸ ⟨if_neg fun h => Bool.noConfusion h.1, rfl, rfl⟩)
  · exact Or.inl (hdone ▸ ⟨if_neg fun h => Bool.noConfusion h.1, rfl, rfl⟩)
  · rw [scanTcp] at hdone
    dsimp only at hdone
    split_ifs at hdone
    · exact Or.inl (hdone ▸ ⟨if_neg fun h => Bool.noConfusion h.1, rfl, rfl⟩)
    · exact Or.inl (hdone ▸ ⟨if_neg fun h => Bool.noConfusion h.1, rfl, rfl⟩)
    · exact Or.inl (hdone ▸ ⟨if_neg fun h => Bool.noConfusion h.1, rfl, rfl⟩)
    · exact Or.inr (hdone ▸ ⟨_, if_pos ⟨rfl, htcp⟩, rfl, rfl⟩)
  · have hsame : done.2.avrgms = st.avrgms ∧ done.2.avrgcount = st.avrgcount := by
      rw [scanIcmp] at hdone
      dsimp only at hdone
      split_ifs at hdone
      all_goals exact hdone ▸ ⟨rfl, rfl⟩
    exact Or.inl ⟨if_neg fun h => htcp h.2, hsame⟩
  · exact Or.inl (hdone ▸ ⟨if_neg fun h => htcp h.2, rfl, rfl⟩)

theorem Does.average {env : ScanEnv F} {st st' : ScanState F} {done : ScanStep}
    (h : Does env st done st') : st'.avrgms = st.avrgms ∧ st'.avrgcount = st.avrgcount := by
  cases h <;> exact ⟨rfl, rfl⟩

/-- The mean of some times. -/
def mean (rtts : List ℤ) : ℚ := rtts.sum / rtts.length

/-- A time that is added to a mean of `n`, divided on its own as an integer, makes the mean of
`n + 1` exactly if nothing is lost in that division. -/
theorem mean_step (n : ℕ) {total : ℤ} (hzero : n = 0 → total = 0) (x : ℤ) :
    (total / n : ℚ) * n / (n + 1) + (x.tdiv (n + 1) : ℤ) = (total + x) / (n + 1) ↔
      (n + 1 : ℤ) ∣ x := by
  have hpos : (n + 1 : ℚ) ≠ 0 := by positivity
  have htotal : (total / n : ℚ) * n = total := by
    rcases Nat.eq_zero_or_pos n with hn | hn
    · rw [hzero hn]
      simp
    · have hn' : (n : ℚ) ≠ 0 := by positivity
      exact div_mul_cancel₀ _ hn'
  rw [htotal, div_add' _ _ _ hpos, div_left_inj' hpos, add_right_inj]
  constructor
  · intro h
    have hint : x.tdiv (n + 1) * (n + 1) = x := by exact_mod_cast h
    exact Dvd.intro_left _ hint
  · intro h
    have hint : x.tdiv (n + 1) * (n + 1) = x := Int.tdiv_mul_cancel h
    exact_mod_cast hint

section Mean

variable {env : ScanEnv ℚ}

/-- **The average is the mean after every reply** of a scan. -/
def MeanThroughout (env : ScanEnv ℚ) (r : ScanRun ℚ) (es : List ScanEvent) : Prop :=
  ∀ es' r', es' <+: es → Events.run (ScanRun.step env) r es' = some r' →
    r'.st.avrgms = mean (r.rtts env es')

theorem ScanState.average_avrgms (hops : env.ops = exactOps) {st : ScanState ℚ} {n : ℕ}
    (hcount : st.avrgcount = n) (rttms : ℤ) :
    (st.average env rttms).avrgms =
      st.avrgms * n / (n + 1) + (rttms.tdiv (n + 1) : ℤ) := by
  rw [average, hops, hcount]
  have hcast : ((n : ℤ) + 1 - 1 : ℤ) = n := by omega
  simp only [exactOps, hcast]
  push_cast
  rfl

theorem ScanRun.rtts_of_none {r : ScanRun ℚ} {e : ScanEvent} (hstep : r.step env e = none)
    (es : List ScanEvent) : r.rtts env (e :: es) = [] := by
  cases e with
  | step now clock => rw [rtts, hstep]
  | frame packet clock => cases hstep

/-- What a step does with the average. -/
theorem ScanRun.step_average {r r' : ScanRun ℚ} {e : ScanEvent}
    (hstep : r.step env e = some r') :
    ((∀ es, r.rtts env (e :: es) = r'.rtts env es) ∧ r'.st.avrgms = r.st.avrgms ∧
      r'.st.avrgcount = r.st.avrgcount) ∨
    ∃ rttms, (∀ es, r.rtts env (e :: es) = rttms :: r'.rtts env es) ∧
      r'.st.avrgms = (r.st.average env rttms).avrgms ∧
      r'.st.avrgcount = r.st.avrgcount + 1 := by
  cases e with
  | step now clock =>
    refine Or.inl ⟨fun es => by rw [rtts, hstep], ?_⟩
    rw [step] at hstep
    split_ifs at hstep with hlast
    rw [← Option.some.inj hstep]
    exact (scanStep_does env r.st now clock).average
  | frame packet clock =>
    obtain rfl := Option.some.inj hstep
    rcases scanProcessPacket_average env r.st packet clock with ⟨hrtt, hsame⟩ | ⟨x, hrtt, hnew⟩
    · exact Or.inl ⟨fun es => by rw [rtts, hrtt]; rfl, hsame⟩
    · exact Or.inr ⟨x, fun es => by rw [rtts, hrtt]; rfl, hnew⟩

theorem average_nil {r : ScanRun ℚ} {n : ℕ} {total : ℤ} (hms : r.st.avrgms = total / n) :
    r.st.avrgms = (total + (r.rtts env []).sum : ℤ) / (n + (r.rtts env []).length : ℕ) := by
  rw [ScanRun.rtts, List.sum_nil, List.length_nil, add_zero, Nat.add_zero]
  exact hms

/-- The induction behind `StyxWire.Hping.average_mean_iff`, with `n` replies before the run. -/
theorem average_run_iff (hops : env.ops = exactOps) (es : List ScanEvent) {r : ScanRun ℚ} {n : ℕ}
    {total : ℤ} (hzero : n = 0 → total = 0) (hcount : r.st.avrgcount = n)
    (hms : r.st.avrgms = total / n) :
    (∀ es' r', es' <+: es → Events.run (ScanRun.step env) r es' = some r' →
      r'.st.avrgms = (total + (r.rtts env es').sum : ℤ) / (n + (r.rtts env es').length : ℕ)) ↔
    ∀ (k : ℕ) (x : ℤ), (r.rtts env es)[k]? = some x → (n + k + 1 : ℤ) ∣ x := by
  induction es generalizing r n total with
  | nil =>
    refine iff_of_true (fun es' r' hes hrun => ?_) fun k x hx => ?_
    · rw [List.prefix_nil.mp hes] at hrun ⊢
      rw [Events.run_nil, Option.some.injEq] at hrun
      exact hrun ▸ average_nil hms
    · rw [ScanRun.rtts, List.getElem?_nil] at hx
      cases hx
  | cons e es ih =>
    rw [Events.forall_prefix_cons, and_iff_right (average_nil hms)]
    rcases hstep : r.step env e with _ | r₁
    · refine iff_of_true (fun s' hs' => ?_) fun k x hx => ?_
      · cases hs'
      · rw [ScanRun.rtts_of_none hstep, List.getElem?_nil] at hx
        cases hx
    simp only [Option.some.injEq, forall_eq']
    rcases ScanRun.step_average hstep with ⟨hrtts, hms₁, hcount₁⟩ | ⟨x, hrtts, hms₁, hcount₁⟩
    · rw [hms] at hms₁
      rw [hcount] at hcount₁
      simp only [hrtts]
      exact ih hzero hcount₁ hms₁
    -- The reply goes into the average as the mean step says, and then the induction goes on.
    rw [ScanState.average_avrgms hops hcount, hms] at hms₁
    rw [hcount] at hcount₁
    have hmean : r₁.st.avrgms = (total + x : ℤ) / (n + 1 : ℕ) ↔ (n + 1 : ℤ) ∣ x := by
      rw [hms₁, ← mean_step n hzero x]
      push_cast
      exact Iff.rfl
    have hsum : ∀ es', (r.rtts env (e :: es')).sum = x + (r₁.rtts env es').sum ∧
        (r.rtts env (e :: es')).length = 1 + (r₁.rtts env es').length := by
      intro es'
      rw [hrtts, List.sum_cons, List.length_cons, Nat.add_comm 1]
      exact ⟨rfl, rfl⟩
    simp only [hsum, ← add_assoc]
    constructor
    · intro h
      have hfirst := h [] r₁ List.nil_prefix rfl
      rw [ScanRun.rtts, List.sum_nil, List.length_nil, add_zero, Nat.add_zero] at hfirst
      have hrest := (ih (fun h => absurd h n.succ_ne_zero) hcount₁ hfirst).mp h
      intro k y hy
      rw [hrtts] at hy
      cases k with
      | zero =>
        obtain rfl : x = y := by simpa using hy
        simpa using hmean.mp hfirst
      | succ k =>
        have hdvd := hrest k y (by simpa using hy)
        push_cast at hdvd ⊢
        rwa [show (n : ℤ) + (k + 1) + 1 = n + 1 + k + 1 by omega]
    · intro h
      have hfirst : r₁.st.avrgms = (total + x : ℤ) / (n + 1 : ℕ) := by
        refine hmean.mpr ?_
        have hdvd := h 0 x (by rw [hrtts]; rfl)
        simpa using hdvd
      refine (ih (fun h => absurd h n.succ_ne_zero) hcount₁ hfirst).mpr fun k y hy => ?_
      have hdvd := h (k + 1) y (by rw [hrtts]; exact hy)
      push_cast at hdvd ⊢
      rwa [show (n : ℤ) + 1 + k + 1 = n + (k + 1) + 1 by omega]

/-- **When the average is the mean throughout a scan**: the time of the `k`-th reply that is
accepted is a multiple of `k`. -/
theorem average_mean_iff (hops : env.ops = exactOps) {r : ScanRun ℚ} (hms : r.st.avrgms = 0)
    (hcount : r.st.avrgcount = 0) (es : List ScanEvent) :
    MeanThroughout env r es ↔
      ∀ (k : ℕ) (rttms : ℤ), (r.rtts env es)[k]? = some rttms → (k + 1 : ℤ) ∣ rttms := by
  have hiff := @average_run_iff env hops es r 0 0 (fun _ => rfl) hcount (by simpa using hms)
  simp only [zero_add, Nat.cast_zero] at hiff
  exact hiff

end Mean

/-- The scan of two ports, both of which have been probed. -/
def twoPorts : ScanState ℚ :=
  (((scanSetup scanEnv noDelay.sendIntervalUs (lit "1,2")).get rfl).sendProbe (toPort 1)
    0).sendProbe (toPort 2) 0

/-- A reply of the target, from a port below 256. -/
def tcpReply (sport : UInt8) : List UInt8 :=
  [0x45, 0, 0, 40, 0, 0, 0, 0, 64, 6, 0, 0, 192, 0, 2, 2, 192, 0, 2, 1] ++
    [0, sport, 0, 0] ++ List.replicate 16 0

/-- The replies to two probes. -/
def twoReplies (first second : ℤ) : List ScanEvent :=
  [.frame (tcpReply 1) first, .frame (tcpReply 2) second]

theorem average_mean_even : MeanThroughout scanEnv ⟨twoPorts, []⟩ (twoReplies 1000 4000) := by
  have hrtts : ScanRun.rtts scanEnv ⟨twoPorts, []⟩ (twoReplies 1000 4000) = [1, 4] := rfl
  refine (average_mean_iff rfl rfl rfl _).mpr fun k x hx => ?_
  rw [hrtts] at hx
  match k with
  | 0 => exact one_dvd x
  | 1 =>
    obtain rfl : 4 = x := by simpa using hx
    decide
  | k + 2 => cases hx

/-- The average of 0 ms and 1 ms is 0 ms. -/
theorem average_mean_odd : ¬ MeanThroughout scanEnv ⟨twoPorts, []⟩ (twoReplies 0 1000) := by
  have hrtts : ScanRun.rtts scanEnv ⟨twoPorts, []⟩ (twoReplies 0 1000) = [0, 1] := rfl
  have hms : (⟨twoPorts, []⟩ : ScanRun ℚ).st.avrgms = (0 : ℤ) / (0 : ℕ) := by
    rw [Int.cast_zero, zero_div]
    rfl
  intro h
  have hdvd := (average_run_iff rfl (twoReplies 0 1000) (fun _ => rfl) rfl hms).mp
    (fun es' r' hes hrun => by rw [zero_add, zero_add]; exact h es' r' hes hrun) 1 1
    (by rw [hrtts]; rfl)
  norm_num at hdvd

end StyxWire.Hping
