import StyxWire.Hping.Lookup
import StyxWire.Hping.Send
import StyxWire.Lib.Events

/-!
# Probes and the replies to them

The delay table remembers the last probes of a run. This module says what that means for
any way to send probes, and for any way to tell which probe a frame answers: the probes are
numbered from zero, and the slot of each of the last of them holds what was recorded of that
probe, when it was sent, and whether it was answered since (`StyxWire.Hping.Logged`).

That is kept by a run as long as every frame is looked up rightly: one that answers one of
the last probes finds its slot, and one that finds a slot answers the probe in it, unless the
slot is marked already (`StyxWire.Hping.LooksUp`).
-/

namespace StyxWire.Hping

/-! ### Runs -/

/-- What happens in a run. -/
inductive Traffic
  /-- A probe is sent. -/
  | send (now : ℤ)
  /-- A frame is received. -/
  | frame (f : Frame) (now : ℤ)

/-- What becomes of the context. -/
def Traffic.step (send : Context → ℤ → Option Context) (cfg : Config) (ctx : Context) :
    Traffic → Option Context
  | .send now => send ctx now
  | .frame f now => some (f.receive cfg ctx now).2

/-- When a probe is sent. -/
def Traffic.sendTime : Traffic → Option ℤ
  | .send now => some now
  | .frame _ _ => none

/-- When the probes were sent. -/
def sendTimes (es : List Traffic) : List ℤ := es.filterMap Traffic.sendTime

/-- How many there were. -/
def sends (es : List Traffic) : ℕ := (sendTimes es).length

@[simp]
theorem sends_append_send (es : List Traffic) (now : ℤ) :
    sends (es ++ [.send now]) = sends es + 1 := by
  simp [sends, sendTimes, Traffic.sendTime]

@[simp]
theorem sends_append_frame (es : List Traffic) (f : Frame) (now : ℤ) :
    sends (es ++ [.frame f now]) = sends es := by
  simp [sends, sendTimes, Traffic.sendTime]

@[simp]
theorem sendTimes_append_frame (es : List Traffic) (f : Frame) (now : ℤ) :
    sendTimes (es ++ [.frame f now]) = sendTimes es := by
  simp [sendTimes, Traffic.sendTime]

theorem sendTimes_append_send (es : List Traffic) (now : ℤ) :
    sendTimes (es ++ [.send now]) = sendTimes es ++ [now] := by
  simp [sendTimes, Traffic.sendTime]

theorem sends_le_of_isPrefix {es fs : List Traffic} (h : es <+: fs) : sends es ≤ sends fs := by
  obtain ⟨gs, rfl⟩ := h
  simp [sends, sendTimes]

/-- The probe `k` is one of the last of `n`. -/
def Recent (n k : ℕ) : Prop := k < n ∧ n ≤ k + tablesize

/-- Where it is. -/
def slotOf (k : ℕ) : Fin tablesize := ⟨k % tablesize, Nat.mod_lt k (by decide)⟩

/-- Two of the last probes are not in one slot. -/
theorem Recent.eq_of_slotOf {n k l : ℕ} (hk : Recent n k) (hl : Recent n l)
    (h : slotOf k = slotOf l) : k = l := by
  have hmod : k ≡ l [MOD tablesize] := Fin.ext_iff.mp h
  refine hmod.eq_of_abs_lt (abs_lt.mpr ?_)
  have := hk.1
  have := hk.2
  have := hl.1
  have := hl.2
  omega

/-- A slot that was written has one of the last probes. -/
theorem exists_recent {n : ℕ} {i : Fin tablesize} (hi : i.val < n) :
    ∃ k, Recent n k ∧ slotOf k = i := by
  have hlt : (n - 1 - i) % tablesize < tablesize := Nat.mod_lt _ (by decide)
  have hle : (n - 1 - i) % tablesize ≤ n - 1 - i := Nat.mod_le _ _
  have hdiv := Nat.mod_add_div (n - 1 - i) tablesize
  refine ⟨n - 1 - (n - 1 - i) % tablesize, ⟨by omega, by omega⟩, Fin.ext ?_⟩
  change (n - 1 - (n - 1 - i) % tablesize) % tablesize = i
  have heq : n - 1 - (n - 1 - i) % tablesize = i + tablesize * ((n - 1 - i) / tablesize) := by
    omega
  rw [heq, Nat.add_mul_mod_self_left, Nat.mod_eq_of_lt i.isLt]

/-! ### Answers -/

section Answers

variable (send : Context → ℤ → Option Context) (cfg : Config) (start : Context)
variable (answers : Lookup → ℕ → Prop)

/-- A frame that answers the probe `k` was received after it was sent. -/
def Answered (es : List Traffic) (k : ℕ) : Prop :=
  ∃ before f now ctx, before ++ [.frame f now] <+: es ∧ k < sends before ∧
    Events.run (Traffic.step send cfg) start before = some ctx ∧ answers (f.lookup cfg ctx) k

variable {send cfg start answers}

theorem Answered.lt {es : List Traffic} {k : ℕ} (h : Answered send cfg start answers es k) :
    k < sends es := by
  obtain ⟨before, f, now, ctx, hpre, hlt, -⟩ := h
  have hle := sends_le_of_isPrefix hpre
  rw [sends_append_frame] at hle
  omega

/-- Sending a probe answers none. -/
theorem answered_append_send {es : List Traffic} {now : ℤ} {k : ℕ} :
    Answered send cfg start answers (es ++ [.send now]) k ↔
      Answered send cfg start answers es k := by
  constructor
  · rintro ⟨before, f, t, ctx, hpre, h⟩
    rcases List.prefix_concat_iff.mp hpre with heq | hshort
    · have := List.append_inj_right' heq rfl
      simp at this
    · exact ⟨before, f, t, ctx, hshort, h⟩
  · rintro ⟨before, f, t, ctx, hpre, h⟩
    exact ⟨before, f, t, ctx, hpre.trans (List.prefix_append es _), h⟩

/-- A frame answers the probes that it answers. -/
theorem answered_append_frame {es : List Traffic} {ctx : Context}
    (hrun : Events.run (Traffic.step send cfg) start es = some ctx) {f : Frame} {now : ℤ} {k : ℕ} :
    Answered send cfg start answers (es ++ [.frame f now]) k ↔
      Answered send cfg start answers es k ∨ (k < sends es ∧ answers (f.lookup cfg ctx) k) := by
  constructor
  · rintro ⟨before, g, t, ctx', hpre, hlt, hrun', hanswers⟩
    rcases List.prefix_concat_iff.mp hpre with heq | hshort
    · obtain ⟨rfl, hlast⟩ := List.append_inj' heq rfl
      simp only [List.cons.injEq, Traffic.frame.injEq, and_true] at hlast
      obtain ⟨rfl, rfl⟩ := hlast
      rw [hrun, Option.some.injEq] at hrun'
      exact Or.inr ⟨hlt, hrun' ▸ hanswers⟩
    · exact Or.inl ⟨before, g, t, ctx', hshort, hlt, hrun', hanswers⟩
  · rintro (⟨before, g, t, ctx', hpre, h⟩ | ⟨hlt, hanswers⟩)
    · exact ⟨before, g, t, ctx', hpre.trans (List.prefix_append es _), h⟩
    · exact ⟨es, f, now, ctx, List.prefix_refl _, hlt, hrun, hanswers⟩

/-! ### The table -/

variable (send cfg start answers)
variable (seqAt srcAt : ℕ → ℤ)

/-- **The table after some events**: it holds the last probes, and the other slots are as they
were, or marked. -/
structure Logged (es : List Traffic) (ctx : Context) : Prop where
  run : Events.run (Traffic.step send cfg) start es = some ctx
  index : ctx.table.index = sends es
  seq : ∀ k, Recent (sends es) k → (ctx.table.slot (slotOf k)).seq = seqAt k
  src : ∀ k, Recent (sends es) k → (ctx.table.slot (slotOf k)).src = srcAt k
  sentUs : ∀ k, Recent (sends es) k →
    (sendTimes es)[k]? = some (ctx.table.slot (slotOf k)).sentUs
  answered : ∀ k, Recent (sends es) k → Answered send cfg start answers es k →
    (ctx.table.slot (slotOf k)).status = .recv
  unanswered : ∀ k, Recent (sends es) k → ¬Answered send cfg start answers es k →
    (ctx.table.slot (slotOf k)).status = .sent
  filler : ∀ i : Fin tablesize, sends es ≤ i →
    (ctx.table.slot i).seq = -1 ∧ (ctx.table.slot i).src = 0

/-- The slot that a lookup finds. -/
def Lookup.find (t : Delaytable) : Lookup → Option (Fin tablesize)
  | .ignored | .unmatched => none
  | .key seq port => t.search seq port

/-- A frame is looked up rightly. -/
structure LooksUp (n : ℕ) (t : Delaytable) (l : Lookup) : Prop where
  /-- One that answers one of the last probes finds its slot. -/
  finds : ∀ k, Recent n k → answers l k → l.find t = some (slotOf k)
  /-- One that finds a slot does not mark another probe. -/
  answers : ∀ i, l.find t = some i →
    (∃ k, Recent n k ∧ slotOf k = i ∧ answers l k) ∨ (t.slot i).status = .recv ∨ n ≤ i

variable {send cfg start answers seqAt srcAt}

/-- What a lookup leaves in the table. -/
theorem Lookup.tally_table (l : Lookup) (now : ℤ) (t : Delaytable) (stats : HpingStats) :
    (l.tally now (t, stats)).2.1 =
      match l.find t with
      | some i =>
        { t with slot := Function.update t.slot i { t.slot i with status := .recv } }
      | none => t := by
  cases l with
  | ignored => rfl
  | unmatched => rfl
  | key seq port =>
    rcases hfind : t.search seq port with _ | i
    · simp [Lookup.find, hfind, Lookup.tally, Delaytable.rtt_of_none]
    · simp [Lookup.find, hfind, Lookup.tally, Delaytable.rtt_of_some]

/-- What a lookup tells, when it finds a slot: what is in it. -/
theorem Lookup.tally_of_find {l : Lookup} {t : Delaytable} {i : Fin tablesize}
    (h : l.find t = some i) (now : ℤ) (stats : HpingStats) :
    (l.tally now (t, stats)).1 =
      some ⟨(t.slot i).status, (t.slot i).seq, max 0 (now - (t.slot i).sentUs)⟩ := by
  cases l with
  | ignored => exact absurd h (by simp [Lookup.find])
  | unmatched => exact absurd h (by simp [Lookup.find])
  | key seq port =>
    rw [Lookup.find] at h
    simp only [Lookup.tally, Delaytable.rtt_of_some h]
    split_ifs with hseq
    · rw [((Delaytable.search_seq hseq port).mp h).1]
    · rfl

/-- What a lookup tells, when it finds none. -/
theorem Lookup.tally_of_not_find {seq port : ℕ} {t : Delaytable}
    (h : (Lookup.key seq port).find t = none) (now : ℤ) (stats : HpingStats) :
    ((Lookup.key seq port).tally now (t, stats)).1 = some ⟨.unknown, seq, 0⟩ := by
  rw [Lookup.find] at h
  simp only [Lookup.tally, Delaytable.rtt_of_none h]

/-- What a frame leaves in the table. -/
theorem Frame.receive_table (f : Frame) (cfg : Config) (ctx : Context) (now : ℤ) :
    (f.receive cfg ctx now).2.table =
      match (f.lookup cfg ctx).find ctx.table with
      | some i =>
        { ctx.table with
          slot := Function.update ctx.table.slot i { ctx.table.slot i with status := .recv } }
      | none => ctx.table := by
  rw [← Lookup.tally_table _ now _ ctx.stats]
  exact congrArg Prod.fst (f.ledger_receive cfg ctx now)

/-- A slot of a new context is unlike those of a run. -/
theorem logged_init (htable : start.table = Delaytable.init) :
    Logged send cfg start answers seqAt srcAt [] start where
  run := rfl
  index := by rw [htable]; rfl
  seq k hk := absurd hk.1 (Nat.not_lt_zero k)
  src k hk := absurd hk.1 (Nat.not_lt_zero k)
  sentUs k hk := absurd hk.1 (Nat.not_lt_zero k)
  answered k hk := absurd hk.1 (Nat.not_lt_zero k)
  unanswered k hk := absurd hk.1 (Nat.not_lt_zero k)
  filler i _ := by rw [htable]; exact ⟨rfl, rfl⟩

variable {es : List Traffic} {ctx : Context}

/-- **A probe is recorded in its slot**, in place of one that is no longer among the last. -/
theorem Logged.append_send (h : Logged send cfg start answers seqAt srcAt es ctx)
    (hn : sends es < 2 ^ 31 - 1) {now : ℤ} {ctx' : Context}
    (hadd : ctx.table.add (seqAt (sends es)) (srcAt (sends es)) .sent now = some ctx'.table)
    (hsend : send ctx now = some ctx') :
    Logged send cfg start answers seqAt srcAt (es ++ [.send now]) ctx' := by
  rw [Delaytable.add_eq h.index hn, Option.some.injEq] at hadd
  have hslot : ∀ i, ctx'.table.slot i = Function.update ctx.table.slot (slotOf (sends es))
      ⟨seqAt (sends es), srcAt (sends es), now, .sent⟩ i := fun i => by rw [← hadd]; rfl
  -- one of the last is the new one, or it was one of the last before
  have hrecent : ∀ k, Recent (sends es + 1) k → k = sends es ∨
      (Recent (sends es) k ∧ ctx'.table.slot (slotOf k) = ctx.table.slot (slotOf k)) := by
    rintro k ⟨hlt, hle⟩
    by_cases heq : k = sends es
    · exact Or.inl heq
    · have hk : Recent (sends es + 1) k := ⟨hlt, hle⟩
      have hself : Recent (sends es + 1) (sends es) := ⟨by omega, by rw [tablesize]; omega⟩
      refine Or.inr ⟨⟨by omega, by omega⟩, ?_⟩
      rw [hslot, Function.update_of_ne fun h => heq (hk.eq_of_slotOf hself h)]
  have hnew : ctx'.table.slot (slotOf (sends es)) =
      ⟨seqAt (sends es), srcAt (sends es), now, .sent⟩ := by
    rw [hslot, Function.update_self]
  constructor
  · rw [Events.run_append, h.run, Option.bind_some, Events.run_cons, Traffic.step, hsend]
    rfl
  · rw [← hadd, sends_append_send]
  · intro k hk
    rw [sends_append_send] at hk
    rcases hrecent k hk with rfl | ⟨hold, heq⟩
    · rw [hnew]
    · rw [heq, h.seq k hold]
  · intro k hk
    rw [sends_append_send] at hk
    rcases hrecent k hk with rfl | ⟨hold, heq⟩
    · rw [hnew]
    · rw [heq, h.src k hold]
  · intro k hk
    rw [sends_append_send] at hk
    rw [sendTimes_append_send]
    rcases hrecent k hk with rfl | ⟨hold, heq⟩
    · rw [hnew, sends, List.getElem?_concat_length]
    · rw [heq, List.getElem?_append_left hold.1, h.sentUs k hold]
  · intro k hk hanswered
    rw [sends_append_send] at hk
    rw [answered_append_send] at hanswered
    rcases hrecent k hk with rfl | ⟨hold, heq⟩
    · exact absurd hanswered.lt (Nat.lt_irrefl _)
    · rw [heq, h.answered k hold hanswered]
  · intro k hk hanswered
    rw [sends_append_send] at hk
    rw [answered_append_send] at hanswered
    rcases hrecent k hk with rfl | ⟨hold, heq⟩
    · rw [hnew]
    · rw [heq, h.unanswered k hold hanswered]
  · intro i hi
    rw [sends_append_send] at hi
    have hne : i ≠ slotOf (sends es) := by
      rintro rfl
      exact absurd (Nat.mod_le (sends es) tablesize) (Nat.not_le.mpr hi)
    rw [hslot, Function.update_of_ne hne]
    exact h.filler i (by omega)

/-- **A frame that is looked up rightly** marks the probe that it answers. -/
theorem Logged.append_frame (h : Logged send cfg start answers seqAt srcAt es ctx) {f : Frame}
    (now : ℤ) (hlooks : LooksUp answers (sends es) ctx.table (f.lookup cfg ctx)) :
    Logged send cfg start answers seqAt srcAt (es ++ [.frame f now])
      (f.receive cfg ctx now).2 := by
  have htable := f.receive_table cfg ctx now
  -- a slot keeps what was recorded; its status is kept, or it is found
  have hslot : ∀ i, ((f.receive cfg ctx now).2.table.slot i).seq = (ctx.table.slot i).seq ∧
      ((f.receive cfg ctx now).2.table.slot i).src = (ctx.table.slot i).src ∧
      ((f.receive cfg ctx now).2.table.slot i).sentUs = (ctx.table.slot i).sentUs ∧
      ((f.receive cfg ctx now).2.table.slot i).status =
        if (f.lookup cfg ctx).find ctx.table = some i then .recv
        else (ctx.table.slot i).status := by
    intro i
    rw [htable]
    rcases (f.lookup cfg ctx).find ctx.table with _ | j
    · simp
    · by_cases heq : i = j
      · subst heq
        simp
      · simp [Ne.symm heq, heq]
  have hindex : (f.receive cfg ctx now).2.table.index = ctx.table.index := by
    rw [htable]
    cases (f.lookup cfg ctx).find ctx.table <;> rfl
  constructor
  · rw [Events.run_append, h.run]
    rfl
  · rw [hindex, h.index, sends_append_frame]
  · intro k hk
    rw [sends_append_frame] at hk
    rw [(hslot _).1, h.seq k hk]
  · intro k hk
    rw [sends_append_frame] at hk
    rw [(hslot _).2.1, h.src k hk]
  · intro k hk
    rw [sends_append_frame] at hk
    rw [(hslot _).2.2.1, sendTimes_append_frame, h.sentUs k hk]
  · intro k hk hanswered
    rw [sends_append_frame] at hk
    rw [answered_append_frame h.run] at hanswered
    rw [(hslot _).2.2.2]
    rcases hanswered with hbefore | ⟨-, hnow⟩
    · rw [h.answered k hk hbefore, ite_self]
    · rw [if_pos (hlooks.finds k hk hnow)]
  · intro k hk hunanswered
    rw [sends_append_frame] at hk
    rw [answered_append_frame h.run, not_or] at hunanswered
    have hsent := h.unanswered k hk hunanswered.1
    rw [(hslot _).2.2.2, if_neg, hsent]
    intro hfind
    rcases hlooks.answers _ hfind with ⟨l, hl, hslots, hanswers⟩ | hrecv | hfiller
    · rw [hl.eq_of_slotOf hk hslots] at hanswers
      exact hunanswered.2 ⟨hk.1, hanswers⟩
    · rw [hsent] at hrecv
      exact Status.noConfusion hrecv
    · exact absurd (Nat.mod_le k tablesize) (Nat.not_le.mpr (Nat.lt_of_lt_of_le hk.1 hfiller))
  · intro i hi
    rw [sends_append_frame] at hi
    rw [(hslot i).1, (hslot i).2.1]
    exact h.filler i hi

/-- **A frame that does not answer a probe** leaves its slot alone. -/
theorem LooksUp.slot_eq {f : Frame} {n : ℕ}
    (hlooks : LooksUp answers n ctx.table (f.lookup cfg ctx)) (now : ℤ) {k : ℕ}
    (hk : Recent n k) (hanswers : ¬answers (f.lookup cfg ctx) k) :
    (f.receive cfg ctx now).2.table.slot (slotOf k) = ctx.table.slot (slotOf k) := by
  rw [f.receive_table]
  rcases hfind : (f.lookup cfg ctx).find ctx.table with _ | i
  · rfl
  · by_cases heq : slotOf k = i
    · subst heq
      dsimp only
      rw [Function.update_self]
      rcases hlooks.answers _ hfind with ⟨l, hl, hslots, hl'⟩ | hrecv | hfiller
      · exact absurd (hl.eq_of_slotOf hk hslots ▸ hl') hanswers
      · rw [← hrecv]
      · exact absurd (Nat.mod_le k tablesize) (Nat.not_le.mpr (Nat.lt_of_lt_of_le hk.1 hfiller))
    · dsimp only
      rw [Function.update_of_ne heq]

/-- **A frame that answers one of the last probes** is told from what was recorded of it: its
number, its time, and whether it was answered before. -/
theorem Logged.reply (h : Logged send cfg start answers seqAt srcAt es ctx) {f : Frame} (now : ℤ)
    (hlooks : LooksUp answers (sends es) ctx.table (f.lookup cfg ctx)) {k : ℕ}
    (hk : Recent (sends es) k) (hanswers : answers (f.lookup cfg ctx) k) :
    ∃ r sentUs, (f.receive cfg ctx now).1 = some r ∧ r.seq = seqAt k ∧
      (Answered send cfg start answers es k → r.status = .recv) ∧
      (¬Answered send cfg start answers es k → r.status = .sent) ∧
      (sendTimes es)[k]? = some sentUs ∧ r.elapsedUs = max 0 (now - sentUs) := by
  have hreply := f.receive_reply cfg ctx now
  rw [Context.ledger, Lookup.tally_of_find (hlooks.finds k hk hanswers)] at hreply
  exact ⟨_, _, hreply, h.seq k hk, h.answered k hk, h.unanswered k hk, h.sentUs k hk, rfl⟩

end Answers

end StyxWire.Hping
