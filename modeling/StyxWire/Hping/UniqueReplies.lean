import StyxWire.Hping.Lookup
import StyxWire.Lib.Events

/-!
# Unique replies and probes

`hping_stats_unique` counts the replies that were the first to their probe: it is what
`--count` stops at, and what the loss is computed from. A probe that is recorded may be
answered once, so there should never be more of them than probes.

What is kept along a run is that the unique replies and the probes of the table that were
not answered are together no more than the probes that were recorded
(`StyxWire.Hping.Counted`). A step breaks it only if it takes a slot that was never used for
a probe. Such a slot has source port zero and the status of a probe that was sent; so a
reply that is looked up by port zero is counted as unique although there is no probe that it
answers (`StyxWire.Hping.unique_reply_without_probe`). Where no reply does that, the claim
of the table holds (`StyxWire.Hping.unique_le_probes`).
-/

namespace StyxWire.Hping

/-! ### Events -/

/-- What happens in a run, as far as the table is concerned. -/
inductive Event
  /-- A probe is recorded. -/
  | probe (seq src now : ℤ)
  /-- The port and the addresses that are probed change. -/
  | target (dstPort : ℤ) (localAddr remoteAddr : List UInt8)
  /-- A frame is received. -/
  | frame (f : Frame) (now : ℤ)

/-- What becomes of the context. -/
def Event.step (cfg : Config) (ctx : Context) : Event → Option Context
  | .probe seq src now =>
    (ctx.table.add seq src .sent now).map fun table => { ctx with table := table }
  | .target dstPort localAddr remoteAddr =>
    some { ctx with dstPort := dstPort, localAddr := localAddr, remoteAddr := remoteAddr }
  | .frame f now => some (f.receive cfg ctx now).2

/-- Whether a probe is recorded. -/
def Event.isProbe : Event → Bool
  | .probe _ _ _ => true
  | _ => false

/-- The probes that were recorded. -/
def probes (es : List Event) : ℕ := es.countP Event.isProbe

/-! ### What is kept -/

/-- The slots of the first `n` probes that were not answered. -/
def outstanding (t : Delaytable) (n : ℕ) : Finset (Fin tablesize) :=
  Finset.univ.filter fun i => i.val < n ∧ (t.slot i).status = .sent

theorem mem_outstanding {t : Delaytable} {n : ℕ} {i : Fin tablesize} :
    i ∈ outstanding t n ↔ i.val < n ∧ (t.slot i).status = .sent := by
  rw [outstanding, Finset.mem_filter]
  exact ⟨fun h => h.2, fun h => ⟨Finset.mem_univ i, h⟩⟩

/-- The slots of a table that is not full are still as they were initialised, and every probe
that was recorded was either answered uniquely, or not at all, or forgotten. -/
structure Counted (n : ℕ) (l : Ledger) : Prop where
  index : l.1.index = n
  filler : ∀ i : Fin tablesize, n ≤ i → l.1.slot i = filler
  consistent : l.2.Consistent
  le : l.2.unique + (outstanding l.1 n).card ≤ n

theorem counted_init : Counted 0 (Delaytable.init, HpingStats.init) where
  index := rfl
  filler _ _ := rfl
  consistent := HpingStats.consistent_init
  le := by
    have hempty : outstanding Delaytable.init 0 = ∅ := by
      ext i
      simp [mem_outstanding]
    rw [hempty]
    exact Nat.le_refl 0

/-- A probe takes one slot. -/
theorem Counted.add {n : ℕ} {l : Ledger} (h : Counted n l) (hn : n < 2 ^ 31 - 1) (seq src now : ℤ) :
    ∃ t, l.1.add seq src .sent now = some t ∧ Counted (n + 1) (t, l.2) := by
  refine ⟨_, Delaytable.add_eq h.index hn seq src .sent now, rfl, ?_, h.consistent, ?_⟩
  · intro i hi
    have hne : i ≠ ⟨n % tablesize, Nat.mod_lt n (by decide)⟩ := by
      rintro rfl
      exact absurd (Nat.mod_le n tablesize) (Nat.not_le.mpr hi)
    simp only [Function.update_of_ne hne]
    exact h.filler i (by omega)
  · have hsub : outstanding
        { slot := Function.update l.1.slot ⟨n % tablesize, Nat.mod_lt n (by decide)⟩
            ⟨seq, src, now, .sent⟩
          index := (n + 1 : ℕ) } (n + 1) ⊆
        insert ⟨n % tablesize, Nat.mod_lt n (by decide)⟩ (outstanding l.1 n) := by
      intro i hi
      rw [Finset.mem_insert]
      by_cases heq : i = ⟨n % tablesize, Nat.mod_lt n (by decide)⟩
      · exact Or.inl heq
      · obtain ⟨hlt, hstatus⟩ := mem_outstanding.mp hi
        simp only [Function.update_of_ne heq] at hstatus
        -- the slot with the number of the probe is the one that is written
        have hne : i.val ≠ n := by
          rintro rfl
          exact heq (Fin.ext (Nat.mod_eq_of_lt i.isLt).symm)
        exact Or.inr (mem_outstanding.mpr ⟨by omega, hstatus⟩)
    have hcard := (Finset.card_le_card hsub).trans (Finset.card_insert_le _ _)
    have hle := h.le
    dsimp only
    omega

/-- A slot that is found by a key that is not the port zero is that of a probe. -/
theorem Counted.lt_of_search {n : ℕ} {l : Ledger} (h : Counted n l) {seq port : ℕ}
    (hkey : seq = 0 ∧ port = 0 →
      tablesize ≤ n ∨ ∃ i : Fin tablesize, i.val < n ∧ (l.1.slot i).src = 0)
    {i : Fin tablesize} (hi : l.1.search seq port = some i) : i.val < n := by
  by_contra hlt
  have hslot : l.1.slot i = Hping.filler := h.filler i (by omega)
  by_cases hseq : seq = 0
  · subst hseq
    obtain ⟨hsrc, hfirst⟩ := (Delaytable.search_src _).mp hi
    rw [hslot, Hping.filler] at hsrc
    rcases hkey ⟨rfl, Int.ofNat_eq_zero.mp hsrc.symm⟩ with hfull | ⟨j, hj, hzero⟩
    · exact hlt (Nat.lt_of_lt_of_le i.isLt hfull)
    · exact hfirst j (Fin.lt_def.mpr (by omega)) (hzero.trans hsrc)
  · obtain ⟨hfound, -⟩ := (Delaytable.search_seq (Int.ofNat_ne_zero.mpr hseq) _).mp hi
    rw [hslot, Hping.filler] at hfound
    simp only at hfound
    omega

/-- A reply takes its probe from those that were not answered. -/
theorem Counted.tally {n : ℕ} {l : Ledger} (h : Counted n l) {k : Lookup}
    (hkey : k = .key 0 0 →
      tablesize ≤ n ∨ ∃ i : Fin tablesize, i.val < n ∧ (l.1.slot i).src = 0) (now : ℤ) :
    Counted n (k.tally now l).2 := by
  have hle := h.le
  cases k with
  | ignored => exact h
  | unmatched =>
    refine ⟨h.index, h.filler, h.consistent.onReply .unknown, ?_⟩
    simpa [Lookup.tally, h.consistent.unique_onReply] using hle
  | key seq port =>
    rcases hsearch : l.1.search seq port with _ | i
    · simp only [Lookup.tally, Delaytable.rtt_of_none hsearch]
      refine ⟨h.index, h.filler, h.consistent.onReply .unknown, ?_⟩
      simpa [h.consistent.unique_onReply] using hle
    · have hlt : i.val < n := h.lt_of_search (fun hzero => hkey (by rw [hzero.1, hzero.2])) hsearch
      simp only [Lookup.tally, Delaytable.rtt_of_some hsearch]
      refine ⟨h.index, ?_, h.consistent.onReply _, ?_⟩
      · intro j hj
        have hne : j ≠ i := by
          rintro rfl
          omega
        simp only [Function.update_of_ne hne]
        exact h.filler j hj
      · have hsub : outstanding
            { l.1 with slot := Function.update l.1.slot i { l.1.slot i with status := .recv } } n =
            (outstanding l.1 n).erase i := by
          ext j
          rw [Finset.mem_erase, mem_outstanding, mem_outstanding]
          by_cases heq : j = i
          · subst heq
            simp
          · simp [heq]
        rw [h.consistent.unique_onReply, hsub]
        by_cases hstatus : (l.1.slot i).status = .sent
        · have hmem : i ∈ outstanding l.1 n := mem_outstanding.mpr ⟨hlt, hstatus⟩
          have hcard := Finset.card_erase_add_one hmem
          rw [if_pos hstatus]
          omega
        · have hcard := Finset.card_erase_le (s := outstanding l.1 n) (a := i)
          rw [if_neg hstatus]
          omega

/-! ### Runs -/

/-- The step takes no slot that was never used for a probe: a reply that is looked up by the
port zero finds a probe from that port, or all the slots are used. And the index of the table
does not overflow. -/
def Event.TakesProbe (cfg : Config) (ctx : Context) : Event → Prop
  | .probe _ _ _ => ctx.table.index < 2 ^ 31 - 1
  | .target _ _ _ => True
  | .frame f _ => f.lookup cfg ctx = .key 0 0 → (tablesize : ℤ) ≤ ctx.table.index ∨
      ∃ i : Fin tablesize, (i : ℤ) < ctx.table.index ∧ (ctx.table.slot i).src = 0

theorem Event.step_counted (cfg : Config) (es : List Event) (ctx : Context) (e : Event)
    (h : Counted (probes es) ctx.ledger) (htakes : e.TakesProbe cfg ctx) :
    ∃ ctx', e.step cfg ctx = some ctx' ∧ Counted (probes (es ++ [e])) ctx'.ledger := by
  have hindex : ctx.table.index = (probes es : ℕ) := h.index
  rw [probes, List.countP_append, List.countP_singleton]
  cases e with
  | probe seq src now =>
    rw [Event.TakesProbe] at htakes
    obtain ⟨t, hadd, hcounted⟩ := h.add (by omega) seq src now
    exact ⟨{ ctx with table := t }, Option.map_eq_some_iff.mpr ⟨t, hadd, rfl⟩, hcounted⟩
  | target dstPort localAddr remoteAddr => exact ⟨_, rfl, h⟩
  | frame f now =>
    refine ⟨_, rfl, ?_⟩
    rw [f.ledger_receive]
    refine h.tally (fun hkey => ?_) now
    rcases htakes hkey with hfull | ⟨i, hi, hsrc⟩
    · exact Or.inl (by omega)
    · exact Or.inr ⟨i, by omega, hsrc⟩

/-- **The unique replies never outnumber the probes**, at any moment of a run in which no reply
takes a slot that was never used for a probe. -/
theorem unique_le_probes (cfg : Config) {ctx : Context} (htable : ctx.table = Delaytable.init)
    (hstats : ctx.stats = HpingStats.init) {es : List Event}
    (htakes : Events.Meets (Event.step cfg) (Event.TakesProbe cfg) ctx es) {before : List Event}
    (hpre : before <+: es) :
    ∃ ctx', Events.run (Event.step cfg) ctx before = some ctx' ∧
      ctx'.stats.unique ≤ probes before := by
  have hinit : Counted (probes []) ctx.ledger := by
    rw [Context.ledger, htable, hstats]
    exact counted_init
  obtain ⟨ctx', hrun, hcounted⟩ :=
    Events.run_invariant (Event.step_counted cfg) hinit (htakes.of_isPrefix hpre)
  exact ⟨ctx', hrun, (Nat.le_add_right _ _).trans hcounted.le⟩

/-- A header of a TCP segment between two ports that fit a byte. -/
def tcpSegment (src dst : UInt8) : List UInt8 := [0, src, 0, dst] ++ List.replicate 16 0

theorem unique_le_probes_once :
    ∃ ctx', Events.run (Event.step Config.plain) (Context.start 80)
        [.probe 0 1 0, .frame (.tcp (tcpSegment 80 1)) 5] = some ctx' ∧
      ctx'.stats.unique ≤ probes [.probe 0 1 0, .frame (.tcp (tcpSegment 80 1)) 5] := by
  have htakes : Events.Meets (Event.step Config.plain) (Event.TakesProbe Config.plain)
      (Context.start 80) [.probe 0 1 0, .frame (.tcp (tcpSegment 80 1)) 5] := by
    refine ⟨show (0 : ℤ) < 2 ^ 31 - 1 by decide, fun ctx h => ⟨fun hkey => ?_, fun _ _ => trivial⟩⟩
    rw [Event.step, Option.map_eq_some_iff] at h
    obtain ⟨table, -, rfl⟩ := h
    exact absurd (show Lookup.key 0 1 = .key 0 0 from hkey) (by decide)
  exact unique_le_probes Config.plain rfl rfl htakes (List.prefix_refl _)

/-- **A segment to port zero that comes before any probe** is a unique reply. -/
theorem unique_reply_without_probe :
    ∃ ctx', Events.run (Event.step Config.plain) (Context.start 80)
        [.frame (.tcp (tcpSegment 80 0)) 0] = some ctx' ∧
      ctx'.stats.unique = 1 ∧ probes [.frame (.tcp (tcpSegment 80 0)) 0] = 0 :=
  ⟨_, rfl, by decide +kernel, rfl⟩

end StyxWire.Hping
