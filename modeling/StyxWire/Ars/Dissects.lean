import StyxWire.Ars.Conservation

/-!
# Dissecting what is known

The dissector on bytes of which one knows what they are. `StyxWire.Dissects` is the
big-step meaning of the machine: from a state and a packet, the bytes `d` give the layers
`ls`. It is sound (`StyxWire.arsSplitPacket_of_dissects`) and complete
(`StyxWire.dissects_of_arsSplitPacket`), and there is one rule for each handler
(`StyxWire.handles_udp` and so on), which says which layer a complete header becomes and what
is left to be dissected.

The rules leave open whether a checksum is right: the flags of the layer are those of the
comparison. A run of well formed options is one rule (`StyxWire.dissects_opts`).
-/

namespace StyxWire

open Mem Text ArsLayer

/-! ### The relation -/

/-- **From a state and a packet, the bytes give the layers.** -/
inductive Dissects : SplitState → ArsPacket → List UInt8 → List ArsLayer → Prop
  /-- Nothing is left: the machine is done. -/
  | done (st : SplitState) (pkt : ArsPacket) : Dissects st pkt [] []
  /-- A handler appends one layer, and leaves a state and some bytes. -/
  | step {st : SplitState} {pkt : ArsPacket} {d : List UInt8} {out : SplitOut} {l : ArsLayer}
      {ls : List ArsLayer} (hd : d ≠ []) (hok : arsSplitStateHandler st pkt d = .ok out)
      (hl : out.pkt.pLayer = pkt.pLayer ++ [l]) (hlen : out.len ≤ d.length)
      (hrest : Dissects out.state out.pkt (d.drop out.len) ls) : Dissects st pkt d (l :: ls)

/-- A run behind the first layer: the machine is in the state `st`, unless nothing is left, with
the packet `pkt` and the bytes `d`. -/
structure SplitRun.At (packet : List UInt8) (r : SplitRun) (st : SplitState) (pkt : ArsPacket)
    (d : List UInt8) : Prop where
  state : r.state = if r.size = 0 then .done else st
  pkt : r.pkt = pkt
  rest : (packet.drop r.offset).take r.size = d
  error : r.error = none
  layers : r.pkt.pLayer ≠ []
  fit : r.offset + r.size ≤ packet.length

section Runs

variable {packet d : List UInt8} {r : SplitRun} {st : SplitState} {pkt : ArsPacket}

theorem SplitRun.At.length (h : r.At packet st pkt d) : d.length = r.size := by
  have hfit := h.fit
  rw [← h.rest, List.length_take, List.length_drop]
  omega

/-- The handler of the state is called. -/
theorem SplitRun.At.call (h : r.At packet st pkt d) (hd : d ≠ []) (hst : st ≠ .done) :
    r.state = st ∧ ¬r.Stopped ∧
      arsSplitStateHandler r.state r.pkt ((packet.drop r.offset).take r.size) =
        arsSplitStateHandler st pkt d := by
  have hstate := h.state
  have hsize : r.size ≠ 0 := fun h0 => hd (List.length_eq_zero_iff.mp (h.length.trans h0))
  rw [if_neg hsize] at hstate
  refine ⟨hstate, ?_, by rw [hstate, h.pkt, h.rest]⟩
  rintro (hdone | he)
  · exact hst (hstate.symm.trans hdone)
  · exact he h.error

/-- **A layer more.** -/
theorem SplitRun.At.step (h : r.At packet st pkt d) (hd : d ≠ []) {out : SplitOut} {l : ArsLayer}
    (hok : arsSplitStateHandler st pkt d = .ok out) (hl : out.pkt.pLayer = pkt.pLayer ++ [l])
    (hle : out.len ≤ d.length) :
    (splitStep packet r).At packet out.state out.pkt (d.drop out.len) := by
  have hfit := h.fit
  have hlen := h.length
  have hst : st ≠ .done := by
    -- the state `done` has no handler
    rintro rfl
    cases hok
  obtain ⟨-, hstop, hcall⟩ := h.call hd hst
  obtain rfl := h.pkt
  have hstep : splitStep packet r =
      { pkt := out.pkt
        state := if r.size - out.len = 0 then .done else out.state
        offset := r.offset + out.len
        size := r.size - out.len
        calls := r.calls ++ [⟨r.offset, out.len, r.size⟩]
        error := none } := by
    rw [splitStep, if_neg hstop, hcall, hok]
    simp only [arsCutSize_later h.layers hl]
  rw [hstep]
  refine ⟨rfl, rfl, ?_, rfl, ?_, ?_⟩
  · rw [← h.rest, List.drop_take, List.drop_drop]
  · dsimp only
    rw [hl]
    exact List.append_ne_nil_of_right_ne_nil _ (List.cons_ne_nil _ _)
  · dsimp only
    omega

/-- A handler that fails. -/
theorem SplitRun.At.step_error (h : r.At packet st pkt d) (hd : d ≠ []) (hst : st ≠ .done)
    {e : ArsErr} (herr : arsSplitStateHandler st pkt d = .error e) :
    (splitStep packet r).error = some e := by
  obtain ⟨-, hstop, hcall⟩ := h.call hd hst
  rw [splitStep, if_neg hstop, hcall, herr]

/-- The machine goes where the relation says. -/
theorem Dissects.reaches {ls : List ArsLayer} (h : Dissects st pkt d ls) (hr : r.At packet st pkt d) :
    ∃ r', Machine.Reaches (splitStep packet) r r' ∧ r'.Stopped ∧ r'.error = none ∧
      r'.pkt.pLayer = pkt.pLayer ++ ls := by
  induction h generalizing r with
  | done st pkt =>
    have hstate := hr.state
    have hsize : r.size = 0 := hr.length.symm
    rw [if_pos hsize] at hstate
    refine ⟨r, .refl r, Or.inl hstate, hr.error, ?_⟩
    rw [hr.pkt, List.append_nil]
  | @step st pkt d out l ls hd hok hl hle _ ih =>
    obtain ⟨r', hreach, hstopped, herr, hlayers⟩ := ih (hr.step hd hok hl hle)
    refine ⟨r', .head rfl hreach, hstopped, herr, ?_⟩
    rw [hlayers, hl, List.append_assoc, List.singleton_append]

/-- Where the relation says nothing, the machine fails. -/
theorem SplitRun.At.dissects_or_fails (hr : r.At packet st pkt d) (hdef : pkt.NoDefault)
    (hst : d ≠ [] → StateOk st pkt) : (∃ ls, Dissects st pkt d ls) ∨
      ∃ r', Machine.Reaches (splitStep packet) r r' ∧ r'.error ≠ none := by
  induction hn : d.length using Nat.strong_induction_on generalizing r st pkt d with
  | _ n ih =>
    by_cases hd : d = []
    · exact Or.inl ⟨[], hd ▸ .done st pkt⟩
    · have hok := hst hd
      have hdone : st ≠ .done := by
        rintro rfl
        exact hok
      rcases arsSplitStateHandler_spec hdef hok (Or.inl hd) with
        ⟨-, code, herr⟩ | ⟨out, l, hout, htook⟩
      · refine Or.inr ⟨_, .head rfl (.refl _), ?_⟩
        rw [hr.step_error hd hdone herr]
        exact Option.some_ne_none _
      · have hpos := htook.pos hd
        have hle := htook.le
        have hrest : (d.drop out.len).length = d.length - out.len := List.length_drop
        have hnext : d.drop out.len ≠ [] → StateOk out.state out.pkt := fun hne => by
          have := List.length_pos_of_ne_nil hne
          exact htook.next (by omega)
        have hdef' : out.pkt.NoDefault := fun t => by rw [htook.default, hdef t]
        rcases ih (d.drop out.len).length (by omega) (hr.step hd hout htook.layers hle) hdef' hnext
          rfl with ⟨ls, hls⟩ | ⟨r', hreach, hfails⟩
        · exact Or.inl ⟨l :: ls, .step hd hout htook.layers hle hls⟩
        · exact Or.inr ⟨r', .head rfl hreach, hfails⟩

end Runs

section Packet

variable {buf : List UInt8} {pkt : ArsPacket} {out : SplitOut} {l : ArsLayer}

/-- The run behind the first layer: what is left is cut to the datagram. -/
theorem splitStart_step (hpkt : pkt.Fresh)
    (hok : arsSplitStateHandler (splitFirstState buf 0) pkt buf = .ok out)
    (hl : out.pkt.pLayer = [l]) :
    (splitStep buf (splitStart buf 0 pkt)).At buf out.state out.pkt
        ((buf.take (arsDatagramSize buf)).drop out.len) ∧
      out.pkt.NoDefault ∧ (out.len < arsDatagramSize buf → StateOk out.state out.pkt) := by
  have hst : StateOk (splitFirstState buf 0) pkt := by
    rcases splitFirstState_ne_done buf 0 with hf | hf <;> rw [hf] <;> trivial
  have hne : buf ≠ [] ∨ splitFirstState buf 0 = .getIp := by
    by_cases hbuf : buf = []
    · rw [hbuf]
      exact Or.inr rfl
    · exact Or.inl hbuf
  -- what the first handler took
  rcases arsSplitStateHandler_spec hpkt.noDefault hst hne with ⟨-, code, herr⟩ | ⟨out', l', hok', htook⟩
  · rw [hok] at herr
    cases herr
  obtain rfl : out = out' := Except.ok.inj (hok.symm.trans hok')
  obtain rfl : l = l' := by
    have h := htook.layers
    rw [hpkt.pLayer, hl] at h
    exact List.singleton_injective h
  have hpos : 0 < l.lType.hdrSize := by
    rw [htook.type]
    rcases splitFirstState_ne_done buf 0 with hf | hf <;> rw [hf] <;> decide
  obtain ⟨hcut, hle⟩ := arsCutSize_first hl htook.type
    (htook.type ▸ htook.hdr (htook.type ▸ hpos)) htook.copied
  have hsize := arsDatagramSize_le buf
  have hstart : ¬(splitStart buf 0 pkt).Stopped := by
    rintro (hdone | he)
    · change splitFirstState buf 0 = .done at hdone
      rw [hdone] at hst
      exact hst
    · exact he rfl
  have hbuf : (buf.drop (splitStart buf 0 pkt).offset).take (splitStart buf 0 pkt).size = buf := by
    simp [splitStart]
  have hcut' : arsCutSize out.pkt (splitStart buf 0 pkt).size out.len = arsDatagramSize buf := hcut
  have hstep : splitStep buf (splitStart buf 0 pkt) =
      { pkt := out.pkt
        state := if arsDatagramSize buf - out.len = 0 then .done else out.state
        offset := 0 + out.len
        size := arsDatagramSize buf - out.len
        calls := [⟨0, out.len, arsDatagramSize buf⟩]
        error := none } := by
    have hok'' : arsSplitStateHandler (splitStart buf 0 pkt).state (splitStart buf 0 pkt).pkt buf =
        .ok out := hok
    rw [splitStep, if_neg hstart, hbuf, hok'']
    simp only [hcut']
    rfl
  refine ⟨?_, fun t => by rw [htook.default, hpkt.noDefault t], fun hlt => htook.next (by omega)⟩
  rw [hstep]
  refine ⟨rfl, rfl, ?_, rfl, ?_, ?_⟩
  · dsimp only
    rw [List.drop_take, Nat.zero_add]
  · dsimp only
    rw [hl]
    exact List.cons_ne_nil _ _
  · dsimp only
    omega

/-- **The relation is sound**: the first handler, and then the relation on what is left of
the datagram, give the layers of the packet. -/
theorem arsSplitPacket_of_dissects {ls : List ArsLayer} (hpkt : pkt.Fresh)
    (hok : arsSplitStateHandler (splitFirstState buf 0) pkt buf = .ok out)
    (hl : out.pkt.pLayer = [l])
    (hrest : Dissects out.state out.pkt ((buf.take (arsDatagramSize buf)).drop out.len) ls) :
    ∃ pkt', arsSplitPacket buf 0 pkt = .ok pkt' ∧ pkt'.pLayer = l :: ls ∧ pkt'.NoDefault ∧
      pkt'.pOptions = pkt.pOptions := by
  obtain ⟨hrun, -, -⟩ := splitStart_step hpkt hok hl
  obtain ⟨r', hreach, hstopped, herr, hlayers⟩ := hrest.reaches hrun
  have hloop : splitLoop buf 0 pkt = r' :=
    Machine.eq_of_reaches (fun _ => splitStep_of_stopped) (.head rfl hreach) hstopped
      (splitLoop_stopped hpkt (Nat.zero_le _))
  have hinv := splitLoop_inv hpkt (Nat.zero_le buf.length)
  have hsplit := arsSplitPacket_eq (Nat.zero_le buf.length) pkt
  rw [hloop] at hinv hsplit
  rw [herr] at hsplit
  refine ⟨r'.pkt, hsplit, ?_, hinv.noDefault, hinv.options⟩
  rw [hlayers, hl, List.singleton_append]

/-- **The relation is complete**: a packet that was dissected is one the relation gives. -/
theorem dissects_of_arsSplitPacket {res : ArsPacket} (hpkt : pkt.Fresh)
    (hok : arsSplitStateHandler (splitFirstState buf 0) pkt buf = .ok out)
    (hl : out.pkt.pLayer = [l]) (hres : arsSplitPacket buf 0 pkt = .ok res) :
    ∃ ls, Dissects out.state out.pkt ((buf.take (arsDatagramSize buf)).drop out.len) ls ∧
      res.pLayer = l :: ls := by
  obtain ⟨hrun, hdef, hnext⟩ := splitStart_step hpkt hok hl
  have hst : (buf.take (arsDatagramSize buf)).drop out.len ≠ [] → StateOk out.state out.pkt := by
    intro hne
    have hpos := List.length_pos_of_ne_nil hne
    rw [List.length_drop, List.length_take] at hpos
    exact hnext (by omega)
  rcases hrun.dissects_or_fails hdef hst with ⟨ls, hls⟩ | ⟨r', hreach, hfails⟩
  · obtain ⟨pkt', hsplit, hlayers, -⟩ := arsSplitPacket_of_dissects hpkt hok hl hls
    obtain rfl : pkt' = res := Except.ok.inj (hsplit.symm.trans hres)
    exact ⟨ls, hls, hlayers⟩
  · have hloop : splitLoop buf 0 pkt = r' :=
      Machine.eq_of_reaches (fun _ => splitStep_of_stopped) (.head rfl hreach) (Or.inr hfails)
        (splitLoop_stopped hpkt (Nat.zero_le _))
    have hsplit := arsSplitPacket_eq (Nat.zero_le buf.length) pkt
    obtain ⟨e, he⟩ := Option.ne_none_iff_exists'.mp hfails
    rw [Nat.cast_zero, hres, hloop, he] at hsplit
    cases hsplit

end Packet

/-! ### Parents and pseudo headers -/

/-- The addresses for a pseudo header are `addrs`: those of the IPv6 header just before, or
of the IP header found behind the IP options. -/
def Parent (v6 : Bool) (addrs : List UInt8) (before : List ArsLayer) : Prop :=
  if v6 then ∃ h r, before = h :: r ∧ h.lType = .ip6 ∧ (h.lData.drop 8).take 32 = addrs
  else ∃ h r, before.dropWhile isIpopt = h :: r ∧ h.lType = .ip ∧
    (h.lData.drop 12).take 8 = addrs

/-- The bytes of the pseudo header. -/
def pseudohdr (v6 : Bool) (addrs : List UInt8) (protocol len : ℕ) : List UInt8 :=
  if v6 then addrs ++ putBe32 len ++ [0, 0, 0, UInt8.ofNat protocol]
  else addrs ++ [0, UInt8.ofNat protocol] ++ putBe16 len

/-- **The checksum under a pseudo header**, of the bytes `d` of an upper-layer packet. -/
def pseudoCksum (v6 : Bool) (addrs : List UInt8) (protocol : ℕ) (d : List UInt8) : ℕ :=
  arsCksum (pseudohdr v6 addrs protocol d.length ++ d)

theorem arsIp6PseudoCksum_of_parent {addrs : List UInt8} {before : List ArsLayer}
    (h : Parent true addrs before) (ls : List ArsLayer) (nexthdr : ℕ) :
    arsIp6PseudoCksum before ls nexthdr = .ok (pseudoCksum true addrs nexthdr (layersBytes ls)) := by
  obtain ⟨ip6, r, rfl, htype, rfl⟩ := h
  rw [arsIp6PseudoCksum_cons htype, arsMultiCksum_eq, pseudoCksum, length_layersBytes]
  rfl

theorem arsUdptcpCksum_of_parent {v6 : Bool} {addrs : List UInt8} {before : List ArsLayer}
    (h : Parent v6 addrs before) (l : ArsLayer) (after : List ArsLayer) :
    arsUdptcpCksum before l after =
      .ok (pseudoCksum v6 addrs (arsUdptcpProtocol l) (layersBytes (l :: after))) := by
  cases v6 with
  | false =>
    obtain ⟨ip, r, hdrop, htype, rfl⟩ := h
    rw [arsUdptcpCksum_ip hdrop htype, arsMultiCksum_eq, pseudoCksum, length_layersBytes]
    rfl
  | true =>
    obtain ⟨ip6, r, rfl, htype, haddrs⟩ := h
    rw [arsUdptcpCksum_ip6 htype]
    exact arsIp6PseudoCksum_of_parent ⟨ip6, r, rfl, htype, haddrs⟩ _ _

/-! ### The handlers, one rule each -/

/-- The handler of a state appends the layer `l`, having taken its bytes. -/
structure Handles (st : SplitState) (pkt : ArsPacket) (d : List UInt8) (l : ArsLayer)
    (st' : SplitState) (pkt' : ArsPacket) : Prop where
  ok : arsSplitStateHandler st pkt d = .ok ⟨pkt', st', l.lSize⟩
  extends_ : Extends pkt [l] pkt'

theorem Handles.dissects {st st' : SplitState} {pkt pkt' : ArsPacket} {h rest : List UInt8}
    {l : ArsLayer} {ls : List ArsLayer} (hh : Handles st pkt (h ++ rest) l st' pkt')
    (hl : l.lSize = h.length) (hpos : 0 < h.length) (hrest : Dissects st' pkt' rest ls) :
    Dissects st pkt (h ++ rest) (l :: ls) := by
  refine .step (fun hnil => ?_) hh.ok hh.extends_.layers (by simp [hl]) ?_
  · have hlen := congrArg List.length hnil
    simp only [List.length_append, List.length_nil] at hlen
    omega
  · rw [hl, List.drop_left]
    exact hrest

/-- The same for the first header: what is left is cut to the datagram. -/
theorem arsSplitPacket_of_handles {buf h rest : List UInt8} {pkt pkt' : ArsPacket}
    (hpkt : pkt.Fresh) {l : ArsLayer} {st' : SplitState} {ls : List ArsLayer}
    (hh : Handles (splitFirstState buf 0) pkt buf l st' pkt') (hl : l.lSize = h.length)
    (hbuf : buf.take (arsDatagramSize buf) = h ++ rest) (hrest : Dissects st' pkt' rest ls) :
    ∃ res, arsSplitPacket buf 0 pkt = .ok res ∧ res.pLayer = l :: ls ∧ res.NoDefault ∧
      res.pOptions = pkt.pOptions := by
  refine arsSplitPacket_of_dissects hpkt hh.ok ?_ ?_
  · rw [hh.extends_.layers, hpkt.pLayer]
    rfl
  · rw [hbuf, hl, List.drop_left]
    exact hrest

/-- What the relation says where a handler is known. -/
theorem Handles.of_dissects {st st' : SplitState} {pkt pkt' : ArsPacket} {h rest : List UInt8}
    {l : ArsLayer} {ls : List ArsLayer} (hh : Handles st pkt (h ++ rest) l st' pkt')
    (hl : l.lSize = h.length) (hpos : 0 < h.length) (hdis : Dissects st pkt (h ++ rest) ls) :
    ∃ ms, ls = l :: ms ∧ Dissects st' pkt' rest ms := by
  generalize hd : h ++ rest = d at hdis
  cases hdis with
  | done =>
    have hlen := congrArg List.length hd
    simp only [List.length_append, List.length_nil] at hlen
    omega
  | @step _ _ _ out m ms _ hok hm _ hrest =>
    subst hd
    obtain rfl : ⟨pkt', st', l.lSize⟩ = out := Except.ok.inj (hh.ok.symm.trans hok)
    have hlast := List.append_cancel_left (hh.extends_.layers.symm.trans hm)
    obtain rfl : l = m := List.singleton_injective hlast
    dsimp only at hrest
    rw [hl, List.drop_left] at hrest
    exact ⟨ms, rfl, hrest⟩

/-- The same for a packet whose first header is known. -/
theorem dissects_of_handles {buf h rest : List UInt8} {pkt pkt' res : ArsPacket}
    (hpkt : pkt.Fresh) {l : ArsLayer} {st' : SplitState}
    (hh : Handles (splitFirstState buf 0) pkt buf l st' pkt') (hl : l.lSize = h.length)
    (hbuf : buf.take (arsDatagramSize buf) = h ++ rest)
    (hres : arsSplitPacket buf 0 pkt = .ok res) :
    ∃ ls, Dissects st' pkt' rest ls ∧ res.pLayer = l :: ls := by
  have hlayers := hh.extends_.layers
  rw [hpkt.pLayer, List.nil_append] at hlayers
  have hdis := dissects_of_arsSplitPacket hpkt hh.ok hlayers hres
  dsimp only at hdis
  rwa [hbuf, hl, List.drop_left] at hdis

/-- The flags of a header, by the comparison of its checksum. -/
def cksumFlags (ok : Prop) [Decidable ok] : ℕ := if ok then 0 else arsSplitFbadcksum

theorem cksumFlags_and (ok : Prop) [Decidable ok] : cksumFlags ok &&& arsSplitFtrunc = 0 := by
  unfold cksumFlags
  split_ifs <;> decide

theorem arsSplitAdd_eq {code : ArsCode} {t : ArsType} {n : ℕ}
    {add : ArsPacket → Except ArsErr ArsPacket} (hadd : Adds code t n add) {pkt : ArsPacket}
    (hdef : pkt.NoDefault) (hroom : pkt.pLayer.length < arsMaxLayer) {h : List UInt8}
    (hh : h.length = n) (ht : t.hdrSize ≤ h.length) (rest : List UInt8) (flags : ℕ) :
    arsSplitAdd add pkt (h ++ rest) n flags = .ok (pkt.push (full t flags h ht) hroom) := by
  subst hh
  have hle : h.length ≤ (h ++ rest).length := by simp
  rcases arsSplitAdd_spec hadd hdef (Nat.le_refl _) hle flags with ⟨hfull, -⟩ | ⟨_, l, hl, hok⟩
  · omega
  · have hdata : l.lData = h := by rw [hl.lData_eq, List.take_left]
    obtain rfl : l = full t flags h ht := ext_data hl.lType hl.lSize hl.lFlags hdata
    exact hok

section Rules

variable {pkt : ArsPacket} (hdef : pkt.NoDefault) (hroom : pkt.pLayer.length < arsMaxLayer)
  {h rest : List UInt8}

include hdef hroom

theorem arsTempLayer_eq {t : ArsType} {d : List UInt8} (ht : t.hdrSize ≤ d.length) :
    arsTempLayer t pkt d ht = .ok (full t 0 d ht) :=
  (arsTempLayer_spec hdef ht).resolve_left fun hfull => by omega

omit hdef hroom in
/-- The temporary layer with a zeroed checksum. -/
theorem layersBytes_temp {t : ArsType} {d : List UInt8} (ht : t.hdrSize ≤ d.length) (off : ℕ)
    (src : List UInt8) : layersBytes [(full t 0 d ht).write off src] = writeAt d off src := by
  rw [layersBytes_cons, layersBytes_nil, List.append_nil, full_write]
  exact List.take_length

omit hdef hroom in
theorem ite_ne_eq_cksumFlags (a b : ℕ) :
    (if a ≠ b then arsSplitFbadcksum else 0) = cksumFlags (a = b) := by
  by_cases h : a = b <;> simp [cksumFlags, h]

/-- **UDP**: the checksum covers all there is. -/
theorem handles_udp (hh : h.length = ArsType.udp.hdrSize) {v6 : Bool} {addrs : List UInt8}
    (hparent : Parent v6 addrs pkt.pLayer.reverse) :
    ∃ pkt', Handles .getUdp pkt (h ++ rest) (full .udp (cksumFlags
      (le16 (h.getD 6 0) (h.getD 7 0) =
        pseudoCksum v6 addrs arsIpprotoUdp (writeAt (h ++ rest) 6 [0, 0]))) h hh.ge)
      .getData pkt' := by
  have h8 : h.length = 8 := hh
  have hlen : 8 ≤ (h ++ rest).length := by
    rw [List.length_append]
    omega
  have hhdr : ((h ++ rest).drop 0).take (min (h ++ rest).length 8) = h := by
    rw [Nat.min_eq_right hlen, List.drop_zero, ← h8, List.take_left]
  refine ⟨pkt.push _ hroom, ?_, extends_push hroom⟩
  rw [arsSplitStateHandler, arsSplitUdp, rdBytes_eq (by omega), bind_ok, hhdr,
    dif_neg (by omega), arsTempLayer_eq hdef hroom, bind_ok, arsUdptcpCksum_of_parent hparent,
    bind_ok, layersBytes_temp]
  dsimp only
  rw [arsSplitHdr, arsSplitAdd_eq (adds_udphdr.recode .nomem) hdef hroom h8 hh.ge, bind_ok,
    ite_ne_eq_cksumFlags]
  exact congrArg _ (congrArg _ h8.symm)

/-- **TCP**: the checksum covers all there is, the options are next if there are any. -/
theorem handles_tcp (hh : h.length = ArsType.tcp.hdrSize) {v6 : Bool} {addrs : List UInt8}
    (hparent : Parent v6 addrs pkt.pLayer.reverse) (hoff : 5 ≤ (h.getD 12 0).toNat / 16)
    (hfit : (h.getD 12 0).toNat / 16 * 4 ≤ (h ++ rest).length) :
    ∃ pkt', Handles .getTcp pkt (h ++ rest) (full .tcp (cksumFlags
      (le16 (h.getD 16 0) (h.getD 17 0) =
        pseudoCksum v6 addrs arsIpprotoTcp (writeAt (h ++ rest) 16 [0, 0]))) h hh.ge)
      (if 5 < (h.getD 12 0).toNat / 16 then .getTcpopt else .getData) pkt' ∧
      (5 < (h.getD 12 0).toNat / 16 → pkt'.aux = ((h.getD 12 0).toNat / 16 - 5) * 4) := by
  have h20 : h.length = 20 := hh
  have hlen : 20 ≤ (h ++ rest).length := by
    rw [List.length_append]
    omega
  have hhdr : ((h ++ rest).drop 0).take 20 = h := by
    rw [List.drop_zero, ← h20, List.take_left]
  generalize hflags : cksumFlags (le16 (h.getD 16 0) (h.getD 17 0) =
    pseudoCksum v6 addrs arsIpprotoTcp (writeAt (h ++ rest) 16 [0, 0])) = flags
  generalize hthoff : (h.getD 12 0).toNat / 16 = thOff at hoff hfit
  have hok : arsSplitHdr arsAddTcphdr pkt (h ++ rest) (min (thOff * 4) 20) flags =
      .ok (pkt.push (full .tcp flags h hh.ge) hroom) := by
    rw [Nat.min_eq_right (by omega), arsSplitHdr]
    exact arsSplitAdd_eq (adds_tcphdr.recode .nomem) hdef hroom h20 hh.ge rest flags
  have hcases : (if thOff < 5 then (arsSplitFbadcksum, 20)
      else if (h ++ rest).length < thOff * 4 then (arsSplitFtrunc, (h ++ rest).length)
      else if le16 (h.getD 16 0) (h.getD 17 0) ≠ pseudoCksum v6 addrs arsIpprotoTcp
          (writeAt (h ++ rest) 16 [0, 0]) then (arsSplitFbadcksum, thOff * 4)
      else (0, thOff * 4)) = (flags, thOff * 4) := by
    rw [if_neg (by omega), if_neg (by omega), ← hflags, ← ite_ne_eq_cksumFlags]
    split_ifs <;> rfl
  have hrun : arsSplitTcp pkt (h ++ rest) =
      .ok (if 5 < thOff then ⟨{ pkt.push (full .tcp flags h hh.ge) hroom with
            aux := (thOff - 5) * 4 }, .getTcpopt, 20⟩
        else ⟨pkt.push (full .tcp flags h hh.ge) hroom, .getData, 20⟩) := by
    rw [arsSplitTcp]
    dsimp only
    rw [dif_neg (by omega), rdBytes_eq (by omega), bind_ok, hhdr, arsTempLayer_eq hdef hroom,
      bind_ok, arsUdptcpCksum_of_parent hparent, bind_ok, layersBytes_temp, hthoff]
    have hproto : arsUdptcpProtocol ((full .tcp 0 (h ++ rest) hlen).write 16 [0, 0]) =
        arsIpprotoTcp := rfl
    rw [hproto, hcases, hok, bind_ok, Nat.min_eq_right (by omega)]
    split_ifs <;> rfl
  by_cases h5 : 5 < thOff
  · rw [if_pos h5] at hrun
    refine ⟨{ pkt.push (full .tcp flags h hh.ge) hroom with aux := (thOff - 5) * 4 },
      ⟨hrun.trans ?_, ⟨rfl, rfl⟩⟩, fun _ => rfl⟩
    rw [if_pos h5]
    exact congrArg _ (congrArg _ h20.symm)
  · rw [if_neg h5] at hrun
    refine ⟨_, ⟨hrun.trans ?_, extends_push hroom⟩, fun h => absurd h h5⟩
    rw [if_neg h5]
    exact congrArg _ (congrArg _ h20.symm)

omit hdef hroom in
theorem arsCheckIcmpCksum_eq {d : List UInt8} (hd : 4 ≤ d.length) :
    arsCheckIcmpCksum d d.length =
      .ok (le16 (d.getD 2 0) (d.getD 3 0) == arsCksum (writeAt d 2 [0, 0])) := by
  rw [arsCheckIcmpCksum, if_neg (by omega), rdBytes_eq (by omega), bind_ok, List.drop_zero,
    List.take_length]
  rfl

/-- **ICMP**: the checksum covers all there is, and the type says what it is. -/
theorem handles_icmp (hh : h.length = ArsType.icmp.hdrSize) :
    ∃ pkt', Handles .getIcmp pkt (h ++ rest) (full .icmp (cksumFlags
      (le16 (h.getD 2 0) (h.getD 3 0) = arsCksum (writeAt (h ++ rest) 2 [0, 0]))) h hh.ge)
      (arsIcmpNextState (h.getD 0 0).toNat) pkt' := by
  have h8 : h.length = 8 := hh
  have hlen : 8 ≤ (h ++ rest).length := by
    rw [List.length_append]
    omega
  have hhdr : ((h ++ rest).drop 0).take (min (h ++ rest).length 8) = h := by
    rw [Nat.min_eq_right hlen, List.drop_zero, ← h8, List.take_left]
  have hflags : (if (le16 (h.getD 2 0) (h.getD 3 0) == arsCksum (writeAt (h ++ rest) 2 [0, 0]))
      then 0 else arsSplitFbadcksum) =
      cksumFlags (le16 (h.getD 2 0) (h.getD 3 0) = arsCksum (writeAt (h ++ rest) 2 [0, 0])) := by
    simp only [cksumFlags, beq_iff_eq]
  refine ⟨pkt.push _ hroom, ?_, extends_push hroom⟩
  rw [arsSplitStateHandler, arsSplitIcmp, rdBytes_eq (by omega), bind_ok, hhdr, if_neg (by omega),
    arsCheckIcmpCksum_eq (by omega), bind_ok, getD_append_left _ (by omega),
    getD_append_left _ (by omega), hflags, arsSplitHdr,
    arsSplitAdd_eq (adds_icmphdr.recode .nomem) hdef hroom h8 hh.ge, bind_ok]
  exact congrArg _ (congrArg _ h8.symm)

/-- **ICMPv6**: the checksum covers all there is. -/
theorem handles_icmp6 (hh : h.length = ArsType.icmp6.hdrSize) {addrs : List UInt8}
    (hparent : Parent true addrs pkt.pLayer.reverse) :
    ∃ pkt', Handles .getIcmp6 pkt (h ++ rest) (full .icmp6 (cksumFlags
      (le16 (h.getD 2 0) (h.getD 3 0) =
        pseudoCksum true addrs arsIpprotoIcmpv6 (writeAt (h ++ rest) 2 [0, 0]))) h hh.ge)
      .getData pkt' := by
  have h8 : h.length = 8 := hh
  have hlen : 8 ≤ (h ++ rest).length := by
    rw [List.length_append]
    omega
  have hbyte : ∀ i, i < 8 → (full .icmp6 0 (h ++ rest) (Nat.not_lt.mp (by omega))).byte i =
      h.getD i 0 := fun i hi => getD_append_left rest (by omega)
  refine ⟨pkt.push _ hroom, ?_, extends_push hroom⟩
  rw [arsSplitStateHandler, arsSplitIcmp6, dif_neg (by omega), arsTempLayer_eq hdef hroom, bind_ok]
  simp only [arsIp6PseudoCksum_of_parent hparent, layersBytes_temp, hbyte 2 (by omega),
    hbyte 3 (by omega)]
  rw [arsSplitHdr, arsSplitAdd_eq (adds_icmp6hdr.recode .nomem) hdef hroom h8 hh.ge, bind_ok,
    ite_ne_eq_cksumFlags]
  exact congrArg _ (congrArg _ h8.symm)

/-- **IPv6**: the next header says what is next. -/
theorem handles_ip6 (hh : h.length = ArsType.ip6.hdrSize) :
    ∃ pkt', Handles .getIp6 pkt (h ++ rest) (full .ip6 0 h hh.ge)
      (arsIp6NextState (h.getD 6 0).toNat) pkt' := by
  have h40 : h.length = 40 := hh
  have hlen : 40 ≤ (h ++ rest).length := by
    rw [List.length_append]
    omega
  have hhdr : ((h ++ rest).drop 0).take (min (h ++ rest).length 40) = h := by
    rw [Nat.min_eq_right hlen, List.drop_zero, ← h40, List.take_left]
  refine ⟨pkt.push _ hroom, ?_, extends_push hroom⟩
  rw [arsSplitStateHandler, arsSplitIp6, rdBytes_eq (by omega), bind_ok, hhdr]
  dsimp only
  rw [if_neg (by omega), if_neg (by omega), if_neg (by omega), arsSplitHdr,
    arsSplitAdd_eq (adds_ip6hdr.recode .nomem) hdef hroom h40 hh.ge, bind_ok]
  exact congrArg _ (congrArg _ h40.symm)

omit hdef hroom in
theorem arsCheckIpCksum_eq {d : List UInt8} (h5 : 5 ≤ (d.getD 0 0).toNat % 16)
    (hd : (d.getD 0 0).toNat % 16 * 4 ≤ d.length) :
    arsCheckIpCksum d = .ok (le16 (d.getD 10 0) (d.getD 11 0) ==
      arsCksum (writeAt (d.take ((d.getD 0 0).toNat % 16 * 4)) 10 [0, 0])) := by
  have hget : ∀ i, i < 20 → (d.take ((d.getD 0 0).toNat % 16 * 4)).getD i 0 = d.getD i 0 := by
    intro i hi
    rw [List.getD_eq_getElem?_getD, List.getElem?_take_of_lt (by omega), List.getD_eq_getElem?_getD]
  rw [arsCheckIpCksum, rdByte_eq (by omega), bind_ok]
  dsimp only
  rw [if_neg (by omega), rdBytes_eq (by omega), bind_ok, List.drop_zero, hget 10 (by omega),
    hget 11 (by omega)]
  rfl

/-- **IPv4**: the checksum covers the header and the options; the options are next if there
are any, and else what the protocol says. -/
theorem handles_ip (hh : h.length = ArsType.ip.hdrSize) (h5 : 5 ≤ (h.getD 0 0).toNat % 16)
    (hfit : (h.getD 0 0).toNat % 16 * 4 ≤ (h ++ rest).length) :
    ∃ pkt', Handles .getIp pkt (h ++ rest) (full .ip (cksumFlags
      (le16 (h.getD 10 0) (h.getD 11 0) = arsCksum
        (writeAt ((h ++ rest).take ((h.getD 0 0).toNat % 16 * 4)) 10 [0, 0]))) h hh.ge)
      (if 5 < (h.getD 0 0).toNat % 16 then .getIpopt else arsIpNextState (h.getD 9 0).toNat) pkt' ∧
      (5 < (h.getD 0 0).toNat % 16 → pkt'.aux = ((h.getD 0 0).toNat % 16 - 5) * 4 ∧
        pkt'.auxIpproto = (h.getD 9 0).toNat) := by
  have h20 : h.length = 20 := hh
  have hlen : 20 ≤ (h ++ rest).length := by
    rw [List.length_append]
    omega
  have hhdr : ((h ++ rest).drop 0).take (min (h ++ rest).length 20) = h := by
    rw [Nat.min_eq_right hlen, List.drop_zero, ← h20, List.take_left]
  have h0 : (h ++ rest).getD 0 0 = h.getD 0 0 := getD_append_left _ (by omega)
  have hck := @arsCheckIpCksum_eq (h ++ rest) (by rw [h0]; exact h5) (by rw [h0]; exact hfit)
  rw [h0, getD_append_left _ (by omega), getD_append_left _ (by omega)] at hck
  have hflags : arsSplitIpFlags (h ++ rest) h = .ok (cksumFlags
      (le16 (h.getD 10 0) (h.getD 11 0) = arsCksum
        (writeAt ((h ++ rest).take ((h.getD 0 0).toNat % 16 * 4)) 10 [0, 0])), 20) := by
    rw [arsSplitIpFlags, if_neg (by omega), if_neg (by omega), if_neg (by omega), hck, bind_ok,
      Nat.min_eq_right (by omega)]
    simp only [cksumFlags, beq_iff_eq]
    rfl
  generalize hf : cksumFlags (le16 (h.getD 10 0) (h.getD 11 0) = arsCksum
    (writeAt ((h ++ rest).take ((h.getD 0 0).toNat % 16 * 4)) 10 [0, 0])) = flags at hflags
  have hand : flags &&& arsSplitFtrunc = 0 := hf ▸ cksumFlags_and _
  have hrun : arsSplitIp pkt (h ++ rest) =
      .ok (if 5 < (h.getD 0 0).toNat % 16 then
          ⟨{ pkt.push (full .ip flags h hh.ge) hroom with
              auxIpproto := (h.getD 9 0).toNat
              aux := ((h.getD 0 0).toNat % 16 - 5) * 4 }, .getIpopt, 20⟩
        else ⟨pkt.push (full .ip flags h hh.ge) hroom, arsIpNextState (h.getD 9 0).toNat, 20⟩) := by
    rw [arsSplitIp, rdBytes_eq (by omega), bind_ok, hhdr, hflags, bind_ok]
    dsimp only
    rw [arsSplitHdr, arsSplitAdd_eq (adds_iphdr.recode .nomem) hdef hroom h20 hh.ge, bind_ok,
      if_neg (not_not.mpr hand)]
    rfl
  by_cases h5' : 5 < (h.getD 0 0).toNat % 16
  · rw [if_pos h5'] at hrun
    refine ⟨{ pkt.push (full .ip flags h hh.ge) hroom with
      auxIpproto := (h.getD 9 0).toNat
      aux := ((h.getD 0 0).toNat % 16 - 5) * 4 }, ⟨hrun.trans ?_, ⟨rfl, rfl⟩⟩, fun _ => ⟨rfl, rfl⟩⟩
    rw [if_pos h5']
    exact congrArg _ (congrArg _ h20.symm)
  · rw [if_neg h5'] at hrun
    refine ⟨_, ⟨hrun.trans ?_, extends_push hroom⟩, fun h => absurd h h5'⟩
    rw [if_neg h5']
    exact congrArg _ (congrArg _ h20.symm)

/-- **Data**: all there is. -/
theorem handles_data (d : List UInt8) :
    ∃ pkt', Handles .getData pkt d (full .data 0 d (Nat.zero_le _)) .done pkt' := by
  refine ⟨pkt.push _ hroom, ?_, extends_push hroom⟩
  rw [arsSplitStateHandler, arsSplitData_eq hdef]
  have hadd : Adds .nospace .data d.length (arsAddData · d.length) := adds_generic _
  have h := arsSplitAdd_eq (hadd.recode .nomem) hdef hroom rfl (Nat.zero_le _) [] 0
  rw [List.append_nil] at h
  rw [h]
  rfl

end Rules

/-! ### Runs of options -/

/-- **A well formed option**: an end or a no-operation of one byte, or an option that holds its
length in its second byte. -/
def WellFormedOpt (o : List UInt8) : Prop :=
  o ≠ [] ∧ if (o.getD 0 0).toNat = 0 ∨ (o.getD 0 0).toNat = 1 then o.length = 1
    else 2 ≤ o.length ∧ (o.getD 1 0).toNat = o.length

instance (o : List UInt8) : Decidable (WellFormedOpt o) :=
  inferInstanceAs (Decidable (_ ∧ ite _ _ _))

theorem WellFormedOpt.pos {o : List UInt8} (h : WellFormedOpt o) : 0 < o.length :=
  List.length_pos_of_ne_nil h.1

theorem arsOptsize_eq {o rest : List UInt8} (ho : WellFormedOpt o) {size : ℕ}
    (hsize : o.length ≤ size) : arsOptsize (o ++ rest) size = .ok (o.length, 0) := by
  obtain ⟨hne, hlen⟩ := ho
  have hpos := List.length_pos_of_ne_nil hne
  have happ : (o ++ rest).length = o.length + rest.length := List.length_append
  rw [arsOptsize, rdByte_eq (by omega), bind_ok, getD_append_left _ hpos]
  split_ifs at hlen ⊢ with hkind h2
  · simp only [pure, Except.pure, bind_ok, Nat.one_ne_zero, if_false, hlen]
    rw [if_neg (by omega)]
  · omega
  · rw [rdByte_eq (by omega), bind_ok, getD_append_left _ (by omega), hlen.2]
    simp only [pure, Except.pure, bind_ok]
    rw [if_neg (show ¬o.length = 0 by omega), if_neg (by omega)]

/-- One option of a run. -/
theorem arsSplitOpt_eq {t : ArsType} (ht : t.hdrSize = 0) {again : SplitState}
    {next : ArsPacket → SplitState} {pkt : ArsPacket} (hdef : pkt.NoDefault)
    (hroom : pkt.pLayer.length < arsMaxLayer) {o : List UInt8} (ho : WellFormedOpt o)
    (haux : o.length ≤ pkt.aux) (rest : List UInt8) :
    ∃ pkt' : ArsPacket, Extends pkt [full t 0 o (by omega)] pkt' ∧
      pkt'.aux = pkt.aux - o.length ∧ pkt'.auxIpproto = pkt.auxIpproto ∧
      arsSplitOpt t ht again next pkt (o ++ rest) =
        .ok ⟨pkt', if 0 < pkt'.aux then again else next pkt', o.length⟩ := by
  have hpos := ho.pos
  have happ : (o ++ rest).length = o.length + rest.length := List.length_append
  have hadd : Adds .nospace t o.length fun pkt => arsAddGeneric pkt o.length t (by omega) :=
    adds_generic _
  refine ⟨ArsPacket.push { pkt with aux := pkt.aux - o.length } (full t 0 o (by omega)) hroom,
    ⟨rfl, rfl⟩, rfl, rfl, ?_⟩
  rw [arsSplitOpt]
  dsimp only
  rw [if_neg (by omega), arsOptsize_eq ho (by omega), bind_ok]
  dsimp only
  have hdef' : ArsPacket.NoDefault { pkt with aux := pkt.aux - o.length } := hdef
  rw [arsSplitGeneric, arsSplitAdd_eq hadd hdef' hroom rfl]
  rfl

/-- The options of a type as layers. -/
def optLayers (t : ArsType) (ht : t.hdrSize = 0) (os : List (List UInt8)) : List ArsLayer :=
  os.map fun o => full t 0 o (ht ▸ Nat.zero_le _)

@[simp] theorem length_optLayers {t : ArsType} (ht : t.hdrSize = 0) (os : List (List UInt8)) :
    (optLayers t ht os).length = os.length :=
  List.length_map _

/-- **A run of well formed options** that fills the option area: one layer each, and then
what follows. -/
theorem dissects_opts {t : ArsType} (ht : t.hdrSize = 0) {again : SplitState}
    {next : ArsPacket → SplitState}
    (hagain : ∀ pkt d, arsSplitStateHandler again pkt d = arsSplitOpt t ht again next pkt d)
    {rest : List UInt8} {ls : List ArsLayer} {os : List (List UInt8)} :
    ∀ {pkt : ArsPacket}, pkt.NoDefault → os ≠ [] → (∀ o ∈ os, WellFormedOpt o) →
      pkt.pLayer.length + os.length ≤ arsMaxLayer → pkt.aux = os.flatten.length →
      (∀ pkt', Extends pkt (optLayers t ht os) pkt' → pkt'.auxIpproto = pkt.auxIpproto →
        Dissects (next pkt') pkt' rest ls) →
      Dissects again pkt (os.flatten ++ rest) (optLayers t ht os ++ ls) := by
  induction os with
  | nil => exact fun _ hne => absurd rfl hne
  | cons o os ih =>
    intro pkt hdef _ hos hroom haux hrest
    have ho := hos o List.mem_cons_self
    rw [List.length_cons] at hroom
    rw [List.flatten_cons, List.length_append] at haux
    obtain ⟨pkt', hext, haux', hproto, hok⟩ :=
      @arsSplitOpt_eq t ht again next pkt hdef (by omega) o ho (by omega) (os.flatten ++ rest)
    have hhandles : Handles again pkt (o ++ (os.flatten ++ rest)) (full t 0 o (ht ▸ Nat.zero_le _))
        (if 0 < pkt'.aux then again else next pkt') pkt' := ⟨(hagain _ _).trans hok, hext⟩
    rw [List.flatten_cons, List.append_assoc]
    refine hhandles.dissects rfl ho.pos ?_
    by_cases hnil : os = []
    · -- the area is used up
      subst hnil
      rw [if_neg (by rw [haux', haux]; simp)]
      exact hrest pkt' hext hproto
    · obtain ⟨o', os', rfl⟩ := List.exists_cons_of_ne_nil hnil
      have hpos := (hos o' (by simp)).pos
      have haux'' : pkt'.aux = (o' :: os').flatten.length := by omega
      have hdef' : pkt'.NoDefault := fun t => by rw [hext.default, hdef t]
      rw [if_pos (by rw [haux'', List.flatten_cons, List.length_append]; omega)]
      refine ih hdef' hnil (fun o ho => hos o (List.mem_cons_of_mem _ ho)) ?_ haux'' ?_
      · rw [hext.layers, List.length_append, List.length_singleton]
        omega
      · intro pkt'' hext' hproto'
        refine hrest pkt'' ⟨?_, hext'.default.trans hext.default⟩ (hproto'.trans hproto)
        rw [hext'.layers, hext.layers, List.append_assoc]
        rfl

theorem flatten_eq_nil {os : List (List UInt8)} (hos : ∀ o ∈ os, WellFormedOpt o) :
    os.flatten = [] ↔ os = [] := by
  constructor
  · rintro h
    cases os with
    | nil => rfl
    | cons o os =>
      rw [List.flatten_cons, List.append_eq_nil_iff] at h
      exact absurd h.1 (hos o List.mem_cons_self).1
  · rintro rfl
    rfl

/-- **An option area**, which may be empty: its options, and then what follows. -/
theorem dissects_area {t : ArsType} (ht : t.hdrSize = 0) {again st : SplitState}
    {next : ArsPacket → SplitState}
    (hagain : ∀ pkt d, arsSplitStateHandler again pkt d = arsSplitOpt t ht again next pkt d)
    {rest : List UInt8} {ls : List ArsLayer} {os : List (List UInt8)} {pkt : ArsPacket}
    (hdef : pkt.NoDefault) (hos : ∀ o ∈ os, WellFormedOpt o)
    (hroom : pkt.pLayer.length + os.length ≤ arsMaxLayer)
    (haux : os ≠ [] → pkt.aux = os.flatten.length)
    (hnext : ∀ pkt' : ArsPacket, os ≠ [] → pkt'.auxIpproto = pkt.auxIpproto → next pkt' = st)
    (hrest : ∀ pkt', Extends pkt (optLayers t ht os) pkt' → Dissects st pkt' rest ls) :
    Dissects (if os = [] then st else again) pkt (os.flatten ++ rest)
      (optLayers t ht os ++ ls) := by
  split_ifs with hnil
  · subst hnil
    exact hrest pkt ⟨(List.append_nil _).symm, rfl⟩
  · refine dissects_opts ht hagain hdef hnil hos hroom (haux hnil) fun pkt' hext hproto => ?_
    rw [hnext pkt' hnil hproto]
    exact hrest pkt' hext

end StyxWire
