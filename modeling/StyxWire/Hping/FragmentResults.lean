import StyxWire.Hping.Fragments
import StyxWire.Hping.Send

/-!
# What the fragments of a probe return

A call of `send_ip_handler` makes several calls of `send_ip`, and each of them can fail, and
advances the id of the next one when a file is transferred. The handler returns what the last of
its calls returned, so a probe counts as sent, also when some of it was not
(`StyxWire.Hping.Fragments.counts_whole_iff`). The id that a call leaves behind is the one that the
next fragment of the same datagram carries
(`StyxWire.Hping.Fragments.same_id_iff`).

In a dry run every datagram is taken. Memory for a datagram is there, as elsewhere.
-/

namespace StyxWire.Hping.Fragments

open Mem Tiling

/-! ### Where a packet is cut -/

/-- Whether `send_ip` returns 0 for the datagram at some place of the packet. -/
def SendConfig.taken (cfg : SendConfig) (env : SendEnv) (fragoff : ℕ) : Bool :=
  env.sendto fragoff || cfg.optRandDest || cfg.optRandSource

/-- The number of the slices before the last one: none, if the packet is not cut. -/
def SendState.cuts (cfg : SendConfig) (st : SendState) (size : ℕ) : ℕ :=
  if (st.prepare cfg size).optFragment then (size - 1) / (st.prepare cfg size).virtualMtu else 0

/-- The place of a slice. A packet that is not cut is at `ip_frag_offset`. -/
def SendState.place (cfg : SendConfig) (st : SendState) (size k : ℕ) : ℕ :=
  if (st.prepare cfg size).optFragment then k * (st.prepare cfg size).virtualMtu
  else cfg.ipFragOffset

/-- **What the loop needs to end**: slices that are not empty. `--mtu` is 1 at least; what the
interface takes leaves room behind the header, or wraps around below it. -/
structure SendState.Sliceable (cfg : SendConfig) (st : SendState) : Prop where
  mtu : st.optFragment = true → 1 ≤ st.virtualMtu
  hIfMtu : cfg.hIfMtu.toNat < 20 ∨ 28 ≤ cfg.hIfMtu.toNat

/-- The slices of a packet are not empty. -/
theorem SendState.Sliceable.prepare {cfg : SendConfig} {st : SendState} (h : st.Sliceable cfg)
    (size : ℕ) (hon : (st.prepare cfg size).optFragment = true) :
    1 ≤ (st.prepare cfg size).virtualMtu := by
  rcases Bool.eq_false_or_eq_true st.optFragment with hst | hst
  · rw [(SendState.prepare_of_on hst cfg size).2]
    exact h.mtu hst
  · by_cases hlarge : cfg.hIfMtu.toNat ≤ size + (ipOptBuild st.routes.1).optlen + 20
    · have hvirtual : (st.prepare cfg size).virtualMtu =
          (cfg.hIfMtu - 20).toNat - (cfg.hIfMtu - 20).toNat % 8 := by
        rw [SendState.prepare, if_pos (by simpa [hst] using hlarge)]
      have hsub : (cfg.hIfMtu - 20).toNat = (2 ^ 32 - 20 + cfg.hIfMtu.toNat) % 2 ^ 32 :=
        UInt32.toNat_sub _ _
      have hlt := cfg.hIfMtu.toNat_lt
      rw [hvirtual, hsub]
      have := h.hIfMtu
      omega
    · rw [SendState.prepare_of_fits hst (Nat.lt_of_not_le hlarge)] at hon
      exact absurd hon Bool.false_ne_true

/-- A slice in front, and the number of those behind it. -/
theorem div_step {remainder virtualMtu : ℕ} (hmtu : 1 ≤ virtualMtu) (hlt : virtualMtu < remainder) :
    (remainder - 1) / virtualMtu = (remainder - virtualMtu - 1) / virtualMtu + 1 := by
  have hsplit : remainder - 1 = (remainder - virtualMtu - 1) + virtualMtu := by omega
  rw [hsplit, Nat.add_div_right _ hmtu]

/-- What fits is a last slice. -/
theorem div_last {remainder virtualMtu : ℕ} (hmtu : 1 ≤ virtualMtu) (hle : remainder ≤ virtualMtu) :
    (remainder - 1) / virtualMtu = 0 :=
  Nat.div_eq_of_lt (by omega)

/-- The places are a last one behind the others. -/
theorem sendFragments_places {cfg : SendConfig} {env : SendEnv} {options packet : List UInt8}
    {fuel : ℕ} {st st' : SendState} {remainder fragOffset : ℕ} {sent : List Sent}
    (h : sendFragments cfg env options packet fuel st remainder fragOffset = some (sent, st')) :
    1 ≤ st.virtualMtu → sent.map Sent.fragoff =
      (List.range ((remainder - 1) / st.virtualMtu + 1)).map
        fun k => fragOffset + k * st.virtualMtu := by
  refine sendFragments_induction (P := fun st remainder fragOffset sent _ => 1 ≤ st.virtualMtu →
    sent.map Sent.fragoff = (List.range ((remainder - 1) / st.virtualMtu + 1)).map
      fun k => fragOffset + k * st.virtualMtu) ?_ ?_ h
  · intro st remainder fragOffset hle hmtu
    rw [div_last hmtu hle, List.range_one, List.map_singleton, List.map_singleton, Nat.zero_mul]
    rfl
  · intro st remainder fragOffset rest _ hlt ih hmtu
    rw [(sendIp_keep cfg st env options _ _ _).1] at ih
    have hshift : (fun k => fragOffset + k * st.virtualMtu) ∘ Nat.succ =
        fun k => fragOffset + st.virtualMtu + k * st.virtualMtu := by
      funext k
      rw [Function.comp_apply, Nat.succ_mul]
      omega
    rw [div_step hmtu hlt, List.range_succ_eq_map, List.map_cons, List.map_cons, List.map_map,
      ih hmtu, hshift, Nat.zero_mul]
    rfl

/-- Each call is all right if its datagram is taken. -/
theorem sendFragments_ok {cfg : SendConfig} {env : SendEnv} {options packet : List UInt8}
    {fuel : ℕ} {st st' : SendState} {remainder fragOffset : ℕ} {sent : List Sent}
    (h : sendFragments cfg env options packet fuel st remainder fragOffset = some (sent, st')) :
    ∀ s ∈ sent, s.ok = cfg.taken env s.fragoff := by
  refine sendFragments_induction (P := fun _ _ _ sent _ =>
    ∀ s ∈ sent, s.ok = cfg.taken env s.fragoff) ?_ ?_ h
  · intro st remainder fragOffset _ s hs
    rw [List.mem_singleton.mp hs]
    rfl
  · intro st remainder fragOffset rest _ _ ih s hs
    rcases List.mem_cons.mp hs with rfl | hs
    · rfl
    · exact ih s hs

/-- **The calls of `send_ip`**: where they are, and which of them are all right. -/
theorem sendIpHandler_places {cfg : SendConfig} (env : SendEnv) {st : SendState}
    {packet : List UInt8} (hst : st.Sliceable cfg) {fuel : ℕ} (hfuel : packet.length < fuel) :
    ∃ sent st', sendIpHandler cfg env fuel st packet = some (sent, st') ∧
      sent.map Sent.fragoff = (List.range (st.cuts cfg packet.length + 1)).map
        (st.place cfg packet.length) ∧
      ∀ s ∈ sent, s.ok = cfg.taken env s.fragoff := by
  have hends : ∃ sent st', sendIpHandler cfg env fuel st packet = some (sent, st') := by
    rcases Bool.eq_false_or_eq_true (st.prepare cfg packet.length).optFragment with hon | hoff
    · obtain ⟨init, last, st', hsend, -⟩ :=
        sendIpHandler_spec cfg env hon (hst.prepare packet.length hon) hfuel
      exact ⟨_, st', hsend⟩
    · obtain ⟨flags, hsend⟩ := sendIpHandler_of_off env fuel hoff
      exact ⟨_, _, hsend⟩
  obtain ⟨sent, st', hsend⟩ := hends
  refine ⟨sent, st', hsend, ?_⟩
  rcases sendIpHandler_cases hsend with ⟨hoff, flags, rfl, -⟩ | ⟨hon, hloop⟩
  · have hne : ¬(st.prepare cfg packet.length).optFragment = true := by
      rw [hoff]
      exact Bool.false_ne_true
    constructor
    · rw [SendState.cuts, if_neg hne, List.range_one, List.map_singleton, List.map_singleton,
        SendState.place, if_neg hne]
      rfl
    · intro s hs
      rw [List.mem_singleton.mp hs]
      rfl
  · refine ⟨?_, sendFragments_ok hloop⟩
    have hplace : st.place cfg packet.length =
        fun k => 0 + k * (st.prepare cfg packet.length).virtualMtu := by
      funext k
      rw [SendState.place, if_pos hon, Nat.zero_add]
    rw [sendFragments_places hloop (hst.prepare packet.length hon), SendState.cuts, if_pos hon,
      hplace]

/-! ### What the handler returns -/

/-- What `send_ip` returns. -/
def Sent.rc (s : Sent) : ℤ := if s.ok then 0 else -1

/-- What `send_ip_handler` returns, which is what its last call of `send_ip` did. -/
def handlerRc (sent : List Sent) : ℤ := (sent.getLast?.map Sent.rc).getD 0

/-- What becomes of the probe, as `send_packet` is told. -/
def outcomeOf (rc : ℤ) : Outcome := if rc = 0 then .sent else .unsent

/-- **A probe counts as sent only if all of it was sent**: 0 is returned if and only if it was
for each of the calls, and `send_packet` counts the probe, or lets the loop go on, only then. -/
structure CountsWhole (sent : List Sent) : Prop where
  returns : handlerRc sent = 0 ↔ ∀ s ∈ sent, s.rc = 0
  counts : ∀ (cfg : Config) (ctx : Context) (p : Sending), p.outcome = outcomeOf (handlerRc sent) →
    ∀ r ctx', sendPacket cfg ctx p = some (r, ctx') →
      r = true ∨ ctx'.stats.sent ≠ ctx.stats.sent → ∀ s ∈ sent, s.rc = 0

/-- A probe is counted if it was sent. -/
theorem sendPacket_outcome {cfg : Config} {ctx ctx' : Context} {p : Sending} {r : Bool}
    (h : sendPacket cfg ctx p = some (r, ctx'))
    (hcount : r = true ∨ ctx'.stats.sent ≠ ctx.stats.sent) : p.outcome = .sent := by
  have hr : r = true := by
    rcases hcount with hr | hne
    · exact hr
    · rcases Bool.eq_false_or_eq_true r with hr | hr
      · exact hr
      · have hstats := (sendPacket_cases h).2
        rw [hr, if_neg Bool.false_ne_true] at hstats
        exact absurd (congrArg HpingStats.sent hstats) hne
  subst hr
  rw [sendPacket] at h
  split_ifs at h
  · exact absurd (Prod.mk.inj (Option.some.inj h)).1 Bool.false_ne_true
  · exact absurd (Prod.mk.inj (Option.some.inj h)).1 Bool.false_ne_true
  · obtain ⟨⟨supported, ctx''⟩, -, hif⟩ := Option.map_eq_some_iff.mp h
    dsimp only at hif
    split_ifs at hif with hsent
    · exact hsent.2
    · exact absurd (Prod.mk.inj hif).1 Bool.false_ne_true

/-- The result that is returned is all that `send_packet` goes by. -/
theorem countsWhole_iff (sent : List Sent) :
    CountsWhole sent ↔ (handlerRc sent = 0 ↔ ∀ s ∈ sent, s.rc = 0) := by
  constructor
  · exact CountsWhole.returns
  · intro hreturns
    refine ⟨hreturns, fun cfg ctx p hout r ctx' h hcount => hreturns.mp ?_⟩
    have hsent : outcomeOf (handlerRc sent) = .sent := hout ▸ sendPacket_outcome h hcount
    by_contra hrc
    rw [outcomeOf, if_neg hrc] at hsent
    exact absurd hsent (by decide)

/-- The result of a list of calls with a last one. -/
theorem handlerRc_append (init : List Sent) (last : Sent) :
    handlerRc (init ++ [last]) = last.rc := by
  rw [handlerRc, List.getLast?_concat]
  rfl

theorem Sent.rc_eq_zero_iff (s : Sent) : s.rc = 0 ↔ s.ok = true := by
  rw [Sent.rc]
  split_ifs with h
  · exact iff_of_true rfl h
  · exact iff_of_false (by decide) h

/-- **When a probe counts as sent only if all of it was**: if the slices before the last one are
all taken, or the last one is not. -/
theorem counts_whole_iff (cfg : SendConfig) (env : SendEnv) {st : SendState} {packet : List UInt8}
    (hst : st.Sliceable cfg) {fuel : ℕ} (hfuel : packet.length < fuel) :
    ∃ sent st', sendIpHandler cfg env fuel st packet = some (sent, st') ∧
      (CountsWhole sent ↔
        (∀ k < st.cuts cfg packet.length, cfg.taken env (st.place cfg packet.length k) = true) ∨
          cfg.taken env (st.place cfg packet.length (st.cuts cfg packet.length)) = false) := by
  obtain ⟨sent, st', hsend, hplaces, hok⟩ := sendIpHandler_places env hst hfuel
  refine ⟨sent, st', hsend, ?_⟩
  rw [List.range_succ, List.map_append, List.map_singleton] at hplaces
  obtain ⟨init, tail, rfl, hinit, htail⟩ := List.map_eq_append_iff.mp hplaces
  obtain ⟨last, rfl, hlast⟩ := List.map_eq_singleton_iff.mp htail
  have hfirst : (∀ s ∈ init, s.rc = 0) ↔
      ∀ k < st.cuts cfg packet.length, cfg.taken env (st.place cfg packet.length k) = true := by
    have hmem : (∀ s ∈ init, s.rc = 0) ↔
        ∀ place ∈ init.map Sent.fragoff, cfg.taken env place = true := by
      rw [List.forall_mem_map]
      refine forall₂_congr fun s hs => ?_
      rw [s.rc_eq_zero_iff, hok s (List.mem_append_left _ hs)]
    rw [hmem, hinit, List.forall_mem_map]
    exact forall_congr' fun k => by rw [List.mem_range]
  have hend : last.rc = 0 ↔
      cfg.taken env (st.place cfg packet.length (st.cuts cfg packet.length)) = true := by
    rw [last.rc_eq_zero_iff, hok last (List.mem_append_right _ List.mem_cons_self), hlast]
  have hall : (∀ s ∈ init ++ [last], s.rc = 0) ↔ (∀ s ∈ init, s.rc = 0) ∧ last.rc = 0 := by
    rw [List.forall_mem_append, List.forall_mem_singleton]
  rw [countsWhole_iff, handlerRc_append, hall, hfirst, hend, ← Bool.not_eq_true]
  tauto

/-- Nothing is taken but what starts at some place. -/
def SendEnv.only (place : ℕ) : SendEnv := { SendEnv.quiet with sendto := fun k => k == place }

/-- A packet of two slices of which the first one is lost counts as sent. -/
theorem counts_lost_slice : ∃ sent st',
    sendIpHandler (.tcp 1500) (.only 16) 21 (.mtu 16) (List.replicate 20 0) = some (sent, st') ∧
      sent.map Sent.rc = [-1, 0] ∧ handlerRc sent = 0 ∧ ¬CountsWhole sent := by
  have hrc : ∀ sent : List Sent, sent.map Sent.rc = [-1, 0] → handlerRc sent = 0 →
      ¬CountsWhole sent := by
    intro sent hmap hzero hcounts
    have hmem : (-1 : ℤ) ∈ sent.map Sent.rc := hmap ▸ List.mem_cons_self
    obtain ⟨s, hs, hneg⟩ := List.mem_map.mp hmem
    exact absurd (hneg ▸ hcounts.returns.mp hzero s hs) (by decide)
  exact ⟨_, _, rfl, by decide, by decide, hrc _ (by decide) (by decide)⟩

/-- A packet of two slices that are both taken. -/
theorem counts_whole_twenty : ∃ sent st',
    sendIpHandler (.tcp 1500) .quiet 21 (.mtu 16) (List.replicate 20 0) = some (sent, st') ∧
      CountsWhole sent := by
  have hst : (SendState.mtu 16).Sliceable (.tcp 1500) := ⟨fun _ => by decide, Or.inr (by decide)⟩
  have hfuel : (List.replicate 20 (0 : UInt8)).length < 21 := by decide
  obtain ⟨sent, st', hsend, hcounts⟩ := counts_whole_iff (.tcp 1500) .quiet hst hfuel
  exact ⟨sent, st', hsend, hcounts.mpr (Or.inl fun _ _ => rfl)⟩

/-! ### The id of a datagram -/

/-- The id of a datagram. -/
def wireId (wire : List UInt8) : ℕ := be16 (wire.getD 4 0) (wire.getD 5 0)

/-- The id that `send_ip` chooses. -/
def SendState.ident (st : SendState) (env : SendEnv) : ℕ :=
  if !st.optFragment then if st.srcId = -1 then env.rand else (st.srcId % 65536).toNat
  else if st.srcId = -1 then env.pid % 256 else (st.srcId % 65536).toNat

/-- The id, read back. -/
theorem wireId_sendIp (cfg : SendConfig) (st : SendState) (env : SendEnv)
    (options data : List UInt8) (moreFragments fragoff : ℕ) :
    wireId (sendIp cfg st env options data moreFragments fragoff).1.wire =
      st.ident env % 65536 := by
  have hread : wireId (sendIp cfg st env options data moreFragments fragoff).1.wire =
      be16 (UInt8.ofNat (st.ident env / 256)) (UInt8.ofNat (st.ident env)) := rfl
  rw [hread, be16_putBe16]

/-- Whether a call of `send_ip` moves `src_id` on, for the safe transfer. -/
def SendConfig.advances (cfg : SendConfig) (env : SendEnv) (fragoff : ℕ) : Bool :=
  cfg.taken env fragoff && cfg.optSafe && !env.eofReached

/-- What a call of `send_ip` changes. -/
theorem sendIp_state (cfg : SendConfig) (st : SendState) (env : SendEnv)
    (options data : List UInt8) (moreFragments fragoff : ℕ) :
    (sendIp cfg st env options data moreFragments fragoff).2 =
      if cfg.advances env fragoff then { st with srcId := st.srcId + 1 } else st := rfl

/-- **The next id is another one.** -/
theorem SendState.ident_succ_ne {st : SendState} (h : 0 ≤ st.srcId) (env : SendEnv) :
    { st with srcId := st.srcId + 1 : SendState }.ident env % 65536 ≠ st.ident env % 65536 := by
  have hne : st.srcId ≠ -1 := by omega
  have hne' : st.srcId + 1 ≠ -1 := by omega
  have hident : st.ident env = (st.srcId % 65536).toNat := by
    rw [SendState.ident, if_neg hne, if_neg hne, ite_self]
  have hident' : { st with srcId := st.srcId + 1 : SendState }.ident env =
      ((st.srcId + 1) % 65536).toNat := by
    rw [SendState.ident, if_neg hne', if_neg hne', ite_self]
  rw [hident, hident']
  omega

/-- **The ids of the fragments**: they are all the first one if and only if none of the calls
before the last one moves `src_id` on. -/
theorem sendFragments_ident {cfg : SendConfig} {env : SendEnv} {options packet : List UInt8}
    {fuel : ℕ} {st st' : SendState} {remainder fragOffset : ℕ} {sent : List Sent}
    (h : sendFragments cfg env options packet fuel st remainder fragOffset = some (sent, st')) :
    1 ≤ st.virtualMtu → (cfg.optSafe = true → 0 ≤ st.srcId) →
      (∃ s ∈ sent, wireId s.wire = st.ident env % 65536) ∧
      ((∀ s ∈ sent, wireId s.wire = st.ident env % 65536) ↔
        ∀ k < (remainder - 1) / st.virtualMtu,
          cfg.advances env (fragOffset + k * st.virtualMtu) = false) := by
  refine sendFragments_induction (P := fun st remainder fragOffset sent _ =>
    1 ≤ st.virtualMtu → (cfg.optSafe = true → 0 ≤ st.srcId) →
      (∃ s ∈ sent, wireId s.wire = st.ident env % 65536) ∧
      ((∀ s ∈ sent, wireId s.wire = st.ident env % 65536) ↔
        ∀ k < (remainder - 1) / st.virtualMtu,
          cfg.advances env (fragOffset + k * st.virtualMtu) = false)) ?_ ?_ h
  · intro st remainder fragOffset hle hmtu _
    refine ⟨⟨_, List.mem_cons_self, wireId_sendIp cfg st env options _ _ _⟩, ?_⟩
    rw [div_last hmtu hle]
    refine iff_of_true (fun s hs => ?_) (fun k hk => absurd hk (Nat.not_lt_zero k))
    rw [List.mem_singleton.mp hs]
    exact wireId_sendIp cfg st env options _ _ _
  · intro st remainder fragOffset rest _ hlt ih hmtu hid
    have hhead := wireId_sendIp cfg st env options (slice packet (fragOffset, st.virtualMtu))
      flagMf fragOffset
    refine ⟨⟨_, List.mem_cons_self, hhead⟩, ?_⟩
    rw [sendIp_state] at ih
    rw [div_step hmtu hlt, Nat.forall_lt_succ_left, List.forall_mem_cons, Nat.zero_mul,
      Nat.add_zero]
    have hshift : ∀ k, fragOffset + (k + 1) * st.virtualMtu =
        fragOffset + st.virtualMtu + k * st.virtualMtu := by
      intro k
      rw [Nat.succ_mul]
      omega
    rcases Bool.eq_false_or_eq_true (cfg.advances env fragOffset) with hadv | hadv
    · rw [if_pos hadv] at ih
      have hsafe : cfg.optSafe = true := by
        rw [SendConfig.advances, Bool.and_eq_true, Bool.and_eq_true] at hadv
        exact hadv.1.2
      -- The fragment behind this one carries the next id.
      obtain ⟨⟨s, hs, hident⟩, -⟩ := ih hmtu fun h => (hid h).trans (by dsimp only; omega)
      refine iff_of_false (fun hall => ?_) (fun hall => ?_)
      · exact SendState.ident_succ_ne (hid hsafe) env (hident.symm.trans (hall.2 s hs))
      · exact Bool.false_ne_true (hall.1.symm.trans hadv)
    · rw [if_neg (by rw [hadv]; exact Bool.false_ne_true)] at ih
      obtain ⟨-, hiff⟩ := ih hmtu hid
      rw [hiff]
      constructor
      · rintro ⟨-, hall⟩
        exact ⟨hadv, fun k hk => hshift k ▸ hall k hk⟩
      · rintro ⟨-, hall⟩
        exact ⟨hhead, fun k hk => hshift k ▸ hall k hk⟩

/-! ### The states of a transfer -/

/-- **The states that `parse_options` accepts**, under `--safe` or not, and those that packets and
a restart of the transfer come to. Without `--id` the id is -1, and `--safe`, which goes with no
`--id`, starts at 1. -/
inductive AcceptedState (optSafe : Bool) : SendState → Prop
  | start {st : SendState} (hmtu : 1 ≤ st.virtualMtu)
      (hid : st.srcId = -1 ∨ 0 ≤ st.srcId ∧ st.srcId ≤ 65535)
      (hsafe : optSafe = true → st.srcId = 1) : AcceptedState optSafe st
  | send {st st' : SendState} {cfg : SendConfig} {env : SendEnv} {fuel : ℕ} {packet : List UInt8}
      {sent : List Sent} (h : AcceptedState optSafe st) (hcfg : cfg.optSafe = optSafe)
      (hIfMtu : cfg.hIfMtu.toNat < 20 ∨ 28 ≤ cfg.hIfMtu.toNat)
      (hsend : sendIpHandler cfg env fuel st packet = some (sent, st')) : AcceptedState optSafe st'
  | restart {st : SendState} (h : AcceptedState optSafe st) {seq : ℕ} (hseq : seq < 65536) :
      AcceptedState optSafe { st with srcId := seq }

/-- Preparing a packet leaves the id alone. -/
@[simp] theorem SendState.prepare_srcId (cfg : SendConfig) (st : SendState) (size : ℕ) :
    (st.prepare cfg size).srcId = st.srcId := by
  rw [SendState.prepare]
  dsimp only
  split_ifs
  · rfl
  · rfl

/-- A call of `send_ip` does not move `src_id` back. -/
theorem sendIp_srcId_le (cfg : SendConfig) (st : SendState) (env : SendEnv)
    (options data : List UInt8) (moreFragments fragoff : ℕ) :
    st.srcId ≤ (sendIp cfg st env options data moreFragments fragoff).2.srcId := by
  rw [sendIp_state]
  split_ifs
  · exact (Int.lt_succ st.srcId).le
  · exact le_refl st.srcId

/-- The handler does not move `src_id` back. -/
theorem sendIpHandler_srcId_le {cfg : SendConfig} {env : SendEnv} {fuel : ℕ} {st st' : SendState}
    {packet : List UInt8} {sent : List Sent}
    (h : sendIpHandler cfg env fuel st packet = some (sent, st')) : st.srcId ≤ st'.srcId := by
  rw [← SendState.prepare_srcId cfg st packet.length]
  rcases sendIpHandler_cases h with ⟨-, flags, -, rfl⟩ | ⟨-, hloop⟩
  · exact sendIp_srcId_le cfg _ env _ _ _ _
  · refine sendFragments_induction (P := fun st _ _ _ st' => st.srcId ≤ st'.srcId) ?_ ?_ hloop
    · intro st remainder fragOffset _
      exact sendIp_srcId_le cfg st env _ _ _ _
    · intro st remainder fragOffset rest st' _ hle
      exact (sendIp_srcId_le cfg st env _ _ _ _).trans hle

/-- The handler leaves slices that are not empty. -/
theorem SendState.Sliceable.send {cfg : SendConfig} {env : SendEnv} {fuel : ℕ} {st st' : SendState}
    {packet : List UInt8} {sent : List Sent} (hst : st.Sliceable cfg)
    (h : sendIpHandler cfg env fuel st packet = some (sent, st')) (hon : st'.optFragment = true) :
    1 ≤ st'.virtualMtu := by
  have hkeep : st'.virtualMtu = (st.prepare cfg packet.length).virtualMtu ∧
      st'.optFragment = (st.prepare cfg packet.length).optFragment := by
    rcases sendIpHandler_cases h with ⟨-, flags, -, rfl⟩ | ⟨-, hloop⟩
    · exact sendIp_keep cfg _ env _ _ _ _
    · exact sendFragments_keep hloop
  rw [hkeep.1]
  exact hst.prepare packet.length (hkeep.2.symm.trans hon)

/-- **What holds in these states**: the slices are not empty, and the transfer has an id. -/
theorem AcceptedState.keep {optSafe : Bool} {st : SendState} (h : AcceptedState optSafe st) :
    (st.optFragment = true → 1 ≤ st.virtualMtu) ∧ (optSafe = true → 0 ≤ st.srcId) := by
  induction h with
  | start hmtu _ hsafe => exact ⟨fun _ => hmtu, fun h => by rw [hsafe h]; decide⟩
  | send _ _ hIfMtu hsend ih =>
    obtain ⟨hmtu, hid⟩ := ih
    have hsliceable : SendState.Sliceable _ _ := ⟨hmtu, hIfMtu⟩
    exact ⟨hsliceable.send hsend, fun h => (hid h).trans (sendIpHandler_srcId_le hsend)⟩
  | @restart st _ seq _ ih => exact ⟨ih.1, fun _ => Int.natCast_nonneg seq⟩

/-- All the ids are one if and only if they are that of one of the datagrams. -/
theorem forall_wireId_eq {sent : List Sent} {n : ℕ} (h : ∃ s ∈ sent, wireId s.wire = n) :
    (∀ s ∈ sent, ∀ t ∈ sent, wireId s.wire = wireId t.wire) ↔ ∀ s ∈ sent, wireId s.wire = n := by
  obtain ⟨t, ht, rfl⟩ := h
  constructor
  · exact fun hall s hs => hall s hs t ht
  · exact fun hall s hs u hu => (hall s hs).trans (hall u hu).symm

/-- Whether a call moves `src_id` on. -/
theorem SendConfig.advances_eq_false_iff (cfg : SendConfig) (env : SendEnv) (fragoff : ℕ) :
    cfg.advances env fragoff = false ↔
      cfg.optSafe = false ∨ env.eofReached = true ∨ cfg.taken env fragoff = false := by
  rw [SendConfig.advances, Bool.and_eq_false_iff, Bool.and_eq_false_iff, Bool.not_eq_false']
  tauto

/-- **When the fragments of a datagram share one id**: without `--safe`, or when the other end is
done, or if none of the slices before the last one is taken. -/
theorem same_id_iff {optSafe : Bool} {st : SendState} (hst : AcceptedState optSafe st)
    {cfg : SendConfig} (hcfg : cfg.optSafe = optSafe)
    (hIfMtu : cfg.hIfMtu.toNat < 20 ∨ 28 ≤ cfg.hIfMtu.toNat) (env : SendEnv)
    (packet : List UInt8) {fuel : ℕ} (hfuel : packet.length < fuel) :
    ∃ sent st', sendIpHandler cfg env fuel st packet = some (sent, st') ∧
      ((∀ s ∈ sent, ∀ t ∈ sent, wireId s.wire = wireId t.wire) ↔
        cfg.optSafe = false ∨ env.eofReached = true ∨
          ∀ k < st.cuts cfg packet.length,
            cfg.taken env (st.place cfg packet.length k) = false) := by
  subst hcfg
  obtain ⟨hmtu, hid⟩ := hst.keep
  have hsliceable : st.Sliceable cfg := ⟨hmtu, hIfMtu⟩
  obtain ⟨sent, st', hsend, -⟩ := sendIpHandler_places env hsliceable hfuel
  refine ⟨sent, st', hsend, ?_⟩
  have hcond : (∀ k < st.cuts cfg packet.length,
        cfg.advances env (st.place cfg packet.length k) = false) ↔
      cfg.optSafe = false ∨ env.eofReached = true ∨ ∀ k < st.cuts cfg packet.length,
        cfg.taken env (st.place cfg packet.length k) = false := by
    constructor
    · intro hall
      by_cases hsafe : cfg.optSafe = false
      · exact Or.inl hsafe
      · by_cases heof : env.eofReached = true
        · exact Or.inr (Or.inl heof)
        · refine Or.inr (Or.inr fun k hk => ?_)
          rcases (cfg.advances_eq_false_iff env _).mp (hall k hk) with h | h | h
          · exact absurd h hsafe
          · exact absurd h heof
          · exact h
    · rintro hcond k hk
      refine (cfg.advances_eq_false_iff env _).mpr ?_
      exact hcond.imp_right fun h => h.imp_right fun htaken => htaken k hk
  rw [← hcond]
  rcases sendIpHandler_cases hsend with ⟨hoff, flags, rfl, -⟩ | ⟨hon, hloop⟩
  · -- One datagram has one id.
    have hcuts : st.cuts cfg packet.length = 0 := by
      rw [SendState.cuts, if_neg (by rw [hoff]; exact Bool.false_ne_true)]
    refine iff_of_true (fun s hs t ht => ?_) (fun k hk => absurd (hcuts ▸ hk) (Nat.not_lt_zero k))
    rw [List.mem_singleton.mp hs, List.mem_singleton.mp ht]
  · obtain ⟨hhead, hiff⟩ := sendFragments_ident hloop (hsliceable.prepare _ hon)
      (by rwa [SendState.prepare_srcId])
    rw [forall_wireId_eq hhead, hiff, SendState.cuts, if_pos hon]
    refine forall₂_congr fun k _ => ?_
    rw [SendState.place, if_pos hon, Nat.zero_add]

/-- A transfer under `--safe`, at its start. -/
def SendConfig.safe : SendConfig := { SendConfig.tcp 1500 with optSafe := true }

/-- Twenty bytes of a transfer are cut into two fragments of different datagrams. -/
theorem different_ids_safe : ∃ sent st', AcceptedState true { SendState.mtu 16 with srcId := 1 } ∧
    sendIpHandler .safe .quiet 21 { SendState.mtu 16 with srcId := 1 } (List.replicate 20 0) =
      some (sent, st') ∧ sent.map (fun s => wireId s.wire) = [1, 2] := by
  refine ⟨_, _, .start (by decide) (Or.inr ⟨by decide, by decide⟩) (fun _ => rfl), rfl, ?_⟩
  decide

/-- Without `--safe` the two fragments share their id. -/
theorem same_id_twenty : ∃ sent st',
    sendIpHandler (.tcp 1500) .quiet 21 (.mtu 16) (List.replicate 20 0) = some (sent, st') ∧
      ∀ s ∈ sent, ∀ t ∈ sent, wireId s.wire = wireId t.wire := by
  have hst : AcceptedState false (.mtu 16) :=
    .start (by decide) (Or.inl rfl) (fun h => absurd h Bool.false_ne_true)
  have hfuel : (List.replicate 20 (0 : UInt8)).length < 21 := by decide
  obtain ⟨sent, st', hsend, hid⟩ :=
    @same_id_iff false _ hst (.tcp 1500) rfl (Or.inr (by decide)) .quiet _ _ hfuel
  exact ⟨sent, st', hsend, hid.mpr (Or.inl rfl)⟩

end StyxWire.Hping.Fragments
