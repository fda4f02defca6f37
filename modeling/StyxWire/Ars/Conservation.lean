import Mathlib.Data.List.Forall2
import StyxWire.Lib.Machine
import StyxWire.Lib.Tiling
import StyxWire.Ars.SplitSpec

/-!
# Conservation of the bytes

What the handlers of one run take is a gap-free, in-order partition of the datagram:
`StyxWire.conserves`. The datagram is the buffer from the IP offset on, less the link
layer padding, which the length of the first header cuts off
(`StyxWire.arsDatagramSize`).

## The invariant

`StyxWire.SplitInv` is kept by every turn of the loop: what was taken so far tiles the
buffer up to the current offset, each layer holds what its handler took, and – once
there is a first layer – what was taken and what is left make up the datagram. As
every turn but the first takes something, the loop ends
(`StyxWire.splitLoop_stopped`).
-/

namespace StyxWire

open Mem Text Tiling ArsLayer

/-- The size of the datagram at the start of a buffer: the whole buffer, or less if the
length of its first header says so. -/
def arsDatagramSize (buf : List UInt8) : ℕ :=
  if splitFirstState buf 0 = .getIp6 then
    if buf.length < 40 then buf.length
    else min buf.length (be16 (buf.getD 4 0) (buf.getD 5 0) + 40)
  else if buf.length < 20 then buf.length
  else min buf.length (max (be16 (buf.getD 2 0) (buf.getD 3 0)) 20)

theorem arsDatagramSize_le (buf : List UInt8) : arsDatagramSize buf ≤ buf.length := by
  unfold arsDatagramSize
  split_ifs <;> omega

/-- A packet that is ready to be split: no layers, no defaults. -/
structure ArsPacket.Fresh (pkt : ArsPacket) : Prop where
  pLayer : pkt.pLayer = []
  noDefault : pkt.NoDefault

theorem arsInit_fresh : arsInit.Fresh := ⟨rfl, fun _ => rfl⟩

/-- The segment a handler took. -/
def SplitCall.seg (c : SplitCall) : ℕ × ℕ := (c.offset, c.len)

/-- A layer holds what its handler took of the buffer. -/
structure Holds (packet : List UInt8) (l : ArsLayer) (c : SplitCall) : Prop where
  /-- No more was taken than there was. -/
  le : c.len ≤ c.size
  /-- All the block of the layer belongs to the packet. -/
  full : l.lData.length = l.lSize
  /-- The bytes taken are in the layer. -/
  copied : l.lData.take c.len = slice packet c.seg
  /-- Unless the layer is truncated, nothing else is. -/
  trunc : l.lFlags &&& arsSplitFtrunc = 0 → l.lSize = c.len
  /-- Of a header no more was taken than there is in the structure. -/
  hdr : 0 < l.lType.hdrSize → c.len ≤ l.lType.hdrSize
  /-- Only a header can be empty. -/
  pos : l.lType.hdrSize = 0 → 0 < c.len

/-- A layer that is not truncated is the bytes its handler took. -/
theorem Holds.lData_eq {packet : List UInt8} {l : ArsLayer} {c : SplitCall} (h : Holds packet l c)
    (hl : l.lFlags &&& arsSplitFtrunc = 0) : l.lData = slice packet c.seg := by
  rw [← h.copied, List.take_of_length_le]
  rw [h.full, h.trunc hl]

/-- **The invariant of the loop**, at IP offset `ipoff`, from the packet `pkt` on. -/
structure SplitInv (packet : List UInt8) (ipoff : ℕ) (pkt : ArsPacket) (r : SplitRun) : Prop where
  /-- The defaults are those of the start: none. -/
  noDefault : r.pkt.NoDefault
  /-- The options are those of the start. -/
  options : r.pkt.pOptions = pkt.pOptions
  /-- What was taken tiles the buffer up to the offset. -/
  tiles : Tiles ipoff r.offset (r.calls.map SplitCall.seg)
  /-- The layers hold it. -/
  holds : List.Forall₂ (Holds packet) r.pkt.pLayer r.calls
  /-- The machine can go on, or is done with nothing left. -/
  state : StateOk r.state r.pkt ∨ r.state = .done ∧ r.size = 0
  /-- Before the first layer, all the buffer is left. -/
  start : r.calls = [] → r.state = splitFirstState packet ipoff ∧ r.size = packet.length - ipoff
  /-- After it, the datagram is what was taken and what is left; the machine is done if
  nothing is. -/
  rest : r.calls ≠ [] → r.offset + r.size = ipoff + arsDatagramSize (packet.drop ipoff) ∧
    (r.state = .done ∨ 0 < r.size)
  /-- The only failure is that a layer more is needed than there are. -/
  full : ∀ e, r.error = some e → r.state ≠ .done ∧ r.pkt.pLayer.length = arsMaxLayer ∧
    ∃ code, e = .ars code (lit "No space for the next layer")

theorem splitFirstState_ne_done (packet : List UInt8) (ipoff : ℕ) :
    splitFirstState packet ipoff = .getIp ∨ splitFirstState packet ipoff = .getIp6 := by
  unfold splitFirstState
  split
  · split_ifs
    · exact Or.inr rfl
    · exact Or.inl rfl
  · exact Or.inl rfl

theorem splitInv_start (packet : List UInt8) (ipoff : ℕ) {pkt : ArsPacket} (h : pkt.Fresh) :
    SplitInv packet ipoff pkt (splitStart packet ipoff pkt) where
  noDefault := h.noDefault
  options := rfl
  tiles := rfl
  holds := by
    change List.Forall₂ _ pkt.pLayer []
    rw [h.pLayer]
    exact .nil
  state := by
    refine Or.inl ?_
    change StateOk (splitFirstState packet ipoff) pkt
    rcases splitFirstState_ne_done packet ipoff with hst | hst <;> rw [hst] <;> trivial
  start := fun _ => ⟨rfl, rfl⟩
  rest := fun hcalls => absurd rfl hcalls
  full := fun _ he => by simp [splitStart] at he

/-! ### The size of the datagram -/

theorem getD_eq_of_take {a b : List UInt8} {n i : ℕ} (h : a.take n = b.take n) (hi : i < n) :
    a.getD i 0 = b.getD i 0 := by
  have hget := congrArg (fun s => s[i]?) h
  simp only [List.getElem?_take_of_lt hi] at hget
  rw [List.getD_eq_getElem?_getD, List.getD_eq_getElem?_getD, hget]

theorem splitFirstState_drop (packet : List UInt8) (ipoff : ℕ) :
    splitFirstState (packet.drop ipoff) 0 = splitFirstState packet ipoff := by
  rw [splitFirstState, splitFirstState, List.getElem?_drop, Nat.add_zero]

/-- The size is cut to the datagram by the first layer, whatever there is of it. -/
theorem arsCutSize_first {buf : List UInt8} {pkt : ArsPacket} {l : ArsLayer} {len : ℕ}
    (hpkt : pkt.pLayer = [l]) (htype : l.lType = (splitFirstState buf 0).layerType)
    (hlen : len = min buf.length l.lType.hdrSize) (htake : l.lData.take len = buf.take len) :
    arsCutSize pkt buf.length len = arsDatagramSize buf ∧ len ≤ arsDatagramSize buf := by
  have hbyte : ∀ i, i < len → l.byte i = buf.getD i 0 := fun i hi => getD_eq_of_take htake hi
  rcases splitFirstState_ne_done buf 0 with hst | hst
  · have ht : l.lType = .ip := by rw [htype, hst]; rfl
    have hhdr : l.lType.hdrSize = 20 := by rw [ht]; rfl
    rw [hhdr] at hlen
    simp only [arsCutSize, hpkt, ht, if_true, arsDatagramSize, hst, reduceCtorEq, if_false]
    split_ifs with hlt
    · omega
    · rw [hbyte 2 (by omega), hbyte 3 (by omega)]
      omega
  · have ht : l.lType = .ip6 := by rw [htype, hst]; rfl
    have hhdr : l.lType.hdrSize = 40 := by rw [ht]; rfl
    rw [hhdr] at hlen
    simp only [arsCutSize, hpkt, ht, if_true, arsDatagramSize, hst, reduceCtorEq, if_false]
    split_ifs with hlt
    · omega
    · rw [hbyte 4 (by omega), hbyte 5 (by omega)]
      omega

/-- The later layers cut nothing. -/
theorem arsCutSize_later {pkt pkt' : ArsPacket} {l : ArsLayer} (hne : pkt.pLayer ≠ [])
    (hpkt : pkt'.pLayer = pkt.pLayer ++ [l]) (size len : ℕ) : arsCutSize pkt' size len = size := by
  obtain ⟨m, ms, hms⟩ := List.exists_cons_of_ne_nil hne
  rw [arsCutSize, hpkt, hms]
  cases ms <;> rfl

theorem arsCutSize_le (pkt : ArsPacket) (size len : ℕ) : arsCutSize pkt size len ≤ size := by
  unfold arsCutSize
  split
  · split_ifs <;> omega
  · exact Nat.le_refl size

/-! ### The steps -/

section Steps

variable {packet : List UInt8} {ipoff : ℕ} {pkt : ArsPacket} {r : SplitRun}

theorem SplitInv.pLayer_eq_nil (h : SplitInv packet ipoff pkt r) (hcalls : r.calls = []) :
    r.pkt.pLayer = [] := by
  have hlen := h.holds.length_eq
  rw [hcalls] at hlen
  exact List.length_eq_zero_iff.mp hlen

theorem SplitInv.pLayer_ne_nil (h : SplitInv packet ipoff pkt r) (hcalls : r.calls ≠ []) :
    r.pkt.pLayer ≠ [] := by
  intro hnil
  have hlen := h.holds.length_eq
  rw [hnil] at hlen
  exact hcalls (List.length_eq_zero_iff.mp hlen.symm)

/-- What is left is inside the buffer. -/
theorem SplitInv.offset_add_size_le (h : SplitInv packet ipoff pkt r) (hoff : ipoff ≤ packet.length) :
    r.offset + r.size ≤ packet.length := by
  by_cases hcalls : r.calls = []
  · have htiles := h.tiles
    rw [hcalls] at htiles
    obtain rfl : ipoff = r.offset := htiles
    have := (h.start hcalls).2
    omega
  · have hle := arsDatagramSize_le (packet.drop ipoff)
    rw [List.length_drop] at hle
    have := (h.rest hcalls).1
    omega

/-- What a handler is given, unless the machine is stopped. -/
theorem SplitInv.handlerSpec (h : SplitInv packet ipoff pkt r) (hoff : ipoff ≤ packet.length)
    (hstop : ¬r.Stopped) :
    ((packet.drop r.offset).take r.size).length = r.size ∧ StateOk r.state r.pkt ∧
      HandlerSpec r.state.layerType r.pkt ((packet.drop r.offset).take r.size)
        (arsSplitStateHandler r.state r.pkt ((packet.drop r.offset).take r.size)) := by
  rw [SplitRun.Stopped, not_or] at hstop
  have hfit := h.offset_add_size_le hoff
  have hlen : ((packet.drop r.offset).take r.size).length = r.size := by
    rw [List.length_take, List.length_drop]
    omega
  have hst : StateOk r.state r.pkt := h.state.resolve_right fun hd => hstop.1 hd.1
  refine ⟨hlen, hst, arsSplitStateHandler_spec h.noDefault hst ?_⟩
  by_cases hsize : r.size = 0
  · -- only the first handler can be given nothing, and it is then that of IPv4
    have hcalls : r.calls = [] := by
      by_contra hne
      rcases (h.rest hne).2 with hdone | hpos
      · exact hstop.1 hdone
      · omega
    obtain ⟨hstate, hsz⟩ := h.start hcalls
    refine Or.inr ?_
    rw [hstate, splitFirstState, List.getElem?_eq_none (by omega)]
  · refine Or.inl fun hnil => hsize ?_
    rw [← hlen, hnil]
    rfl

theorem splitStep_of_stopped (h : r.Stopped) : splitStep packet r = r := if_pos h

/-- **One turn**: a handler fails for want of a layer, or takes some bytes. -/
theorem SplitInv.step (h : SplitInv packet ipoff pkt r) (hoff : ipoff ≤ packet.length) :
    SplitInv packet ipoff pkt (splitStep packet r) ∧
      (¬r.Stopped → (splitStep packet r).Stopped ∨ (splitStep packet r).size < r.size) := by
  by_cases hstop : r.Stopped
  · rw [splitStep_of_stopped hstop]
    exact ⟨h, fun hn => absurd hstop hn⟩
  obtain ⟨hlen, hst, hspec⟩ := h.handlerSpec hoff hstop
  rw [splitStep, if_neg hstop]
  rcases hspec with ⟨hfull, code, herr⟩ | ⟨out, l, hok, htook⟩
  · rw [herr]
    have hdone : r.state ≠ .done := fun hd => hstop (Or.inl hd)
    refine ⟨{ h with full := fun e he => ⟨hdone, hfull, code, ?_⟩ }, fun _ => Or.inl (Or.inr ?_)⟩
    · exact (Option.some.inj he).symm
    · simp
  · -- what is cut off is cut before the length is subtracted
    have hcut : out.len ≤ arsCutSize out.pkt r.size out.len ∧
        r.offset + arsCutSize out.pkt r.size out.len =
          ipoff + arsDatagramSize (packet.drop ipoff) := by
      by_cases hcalls : r.calls = []
      · have htiles := h.tiles
        rw [hcalls] at htiles
        have hipoff : r.offset = ipoff := Eq.symm htiles
        obtain ⟨hstate, hsize⟩ := h.start hcalls
        rw [hipoff] at htook ⊢
        have hbuf : (packet.drop ipoff).take r.size = packet.drop ipoff :=
          List.take_of_length_le (by rw [List.length_drop, hsize])
        have hpos : 0 < l.lType.hdrSize := by
          rw [htook.type, hstate]
          rcases splitFirstState_ne_done packet ipoff with hf | hf <;> rw [hf] <;> decide
        rw [hbuf] at htook
        have hsize' : r.size = (packet.drop ipoff).length := by rw [List.length_drop, hsize]
        have hfirst := arsCutSize_first (by rw [htook.layers, h.pLayer_eq_nil hcalls]; rfl)
          (by rw [htook.type, splitFirstState_drop, hstate]) (htook.type ▸ htook.hdr (htook.type ▸ hpos))
          htook.copied
        rw [hsize', hfirst.1]
        exact ⟨hfirst.2, rfl⟩
      · rw [arsCutSize_later (h.pLayer_ne_nil hcalls) htook.layers]
        exact ⟨hlen ▸ htook.le, (h.rest hcalls).1⟩
    have hsize := arsCutSize_le out.pkt r.size out.len
    rw [hok]
    dsimp only
    generalize arsCutSize out.pkt r.size out.len = size at hcut hsize
    have hcopied : l.lData.take out.len = slice packet (r.offset, out.len) := by
      rw [htook.copied, Tiling.slice, List.take_take, Nat.min_eq_left (hlen ▸ htook.le)]
    have hnonempty : l.lType.hdrSize = 0 → (packet.drop r.offset).take r.size ≠ [] := by
      rintro hzero hnil
      rw [hnil] at hlen
      have hcalls : r.calls ≠ [] := fun hcalls => by
        rw [htook.type, (h.start hcalls).1] at hzero
        rcases splitFirstState_ne_done packet ipoff with hf | hf <;> rw [hf] at hzero <;> cases hzero
      rcases (h.rest hcalls).2 with hdone | hpos
      · exact hstop (Or.inl hdone)
      · exact hpos.ne hlen
    refine ⟨?_, fun _ => ?_⟩
    · exact
        { noDefault := fun t => by rw [htook.default]; exact h.noDefault t
          options := htook.options.trans h.options
          tiles := by
            rw [List.map_append]
            exact h.tiles.snoc out.len
          holds := by
            rw [htook.layers]
            refine List.rel_append h.holds (.cons ?_ .nil)
            exact
              { le := hcut.1
                full := htook.full
                copied := hcopied
                trunc := htook.trunc
                hdr := fun hpos => by
                  rw [htook.type] at hpos ⊢
                  exact (htook.hdr hpos).le.trans (Nat.min_le_right _ _)
                pos := fun hzero => htook.pos (hnonempty hzero) }
          state := by
            by_cases hdone : size - out.len = 0
            · exact Or.inr ⟨if_pos hdone, hdone⟩
            · rw [if_neg hdone]
              exact Or.inl (htook.next (by omega))
          start := fun hcalls => by simp at hcalls
          rest := fun _ => by
            refine ⟨by dsimp only; omega, ?_⟩
            by_cases hdone : size - out.len = 0
            · exact Or.inl (if_pos hdone)
            · exact Or.inr (Nat.pos_of_ne_zero hdone)
          full := fun e he => by simp at he }
    · by_cases hdone : size - out.len = 0
      · exact Or.inl (Or.inl (if_pos hdone))
      · refine Or.inr ?_
        have hne : (packet.drop r.offset).take r.size ≠ [] := by
          intro hnil
          rw [hnil] at hlen
          simp only [List.length_nil] at hlen
          omega
        have := htook.pos hne
        omega

end Steps

/-! ### The runs -/

/-- The invariant holds at the end of the loop. -/
theorem splitLoop_inv {packet : List UInt8} {ipoff : ℕ} {pkt : ArsPacket} (hpkt : pkt.Fresh)
    (hoff : ipoff ≤ packet.length) : SplitInv packet ipoff pkt (splitLoop packet ipoff pkt) :=
  Machine.invariant_iterate (fun _ h => (h.step hoff).1) (splitInv_start packet ipoff hpkt) _

/-- **The loop ends.** -/
theorem splitLoop_stopped {packet : List UInt8} {ipoff : ℕ} {pkt : ArsPacket} (hpkt : pkt.Fresh)
    (hoff : ipoff ≤ packet.length) : (splitLoop packet ipoff pkt).Stopped :=
  Machine.stopped_iterate (fun _ => splitStep_of_stopped) SplitRun.size
    (fun _ h => (h.step hoff).1) (fun _ h hstop => (h.step hoff).2 hstop)
    (splitInv_start packet ipoff hpkt) (Nat.lt_succ_self _)

theorem arsSplitPacket_eq {packet : List UInt8} {ipoff : ℕ} (hoff : ipoff ≤ packet.length)
    (pkt : ArsPacket) :
    arsSplitPacket packet ipoff pkt =
      match (splitLoop packet ipoff pkt).error with
      | some e => .error e
      | none => .ok (splitLoop packet ipoff pkt).pkt := by
  have hneg : ¬((ipoff : ℤ) = -1) := by omega
  have hin : ¬((ipoff : ℤ) < 0 ∨ packet.length < ipoff) := by omega
  rw [arsSplitPacket, if_neg hneg]
  simp only [pure, Except.pure, bind_ok, Int.toNat_natCast]
  refine (if_neg hin).trans ?_
  rcases (splitLoop packet ipoff pkt).error with _ | e
  · rfl
  · rfl

theorem SplitInv.calls_ne_nil {packet : List UInt8} {ipoff : ℕ} {pkt : ArsPacket} {r : SplitRun}
    (h : SplitInv packet ipoff pkt r) (hdone : r.state = .done) : r.calls ≠ [] := fun hnil => by
  rcases splitFirstState_ne_done packet ipoff with hf | hf <;>
    rw [(h.start hnil).1, hf] at hdone <;> cases hdone

/-- When all went well nothing of the datagram is left. -/
theorem SplitInv.partition {packet : List UInt8} {ipoff : ℕ} {pkt : ArsPacket} {r : SplitRun}
    (h : SplitInv packet ipoff pkt r) (hstop : r.Stopped) (hok : r.error = none) :
    Tiles ipoff (ipoff + arsDatagramSize (packet.drop ipoff)) (r.calls.map SplitCall.seg) := by
  have hdone : r.state = .done := hstop.resolve_right fun herr => herr hok
  have hcalls := h.calls_ne_nil hdone
  have hsize : r.size = 0 := by
    rcases h.state with hst | hst
    · rw [hdone] at hst
      exact hst.elim
    · exact hst.2
  rw [← (h.rest hcalls).1, hsize]
  exact h.tiles

theorem exists_of_forall₂_of_mem {α β : Type} {R : α → β → Prop} {as : List α} {bs : List β}
    (h : List.Forall₂ R as bs) {b : β} (hb : b ∈ bs) : ∃ a, R a b := by
  induction h with
  | nil => cases hb
  | cons hab _ ih =>
    rcases List.mem_cons.mp hb with rfl | hb
    · exact ⟨_, hab⟩
    · exact ih hb

/-- Where each member of a list belongs to something, the list does. -/
theorem exists_forall₂ {α β : Type*} {R : α → β → Prop} {as : List α} (h : ∀ a ∈ as, ∃ b, R a b) :
    ∃ bs, List.Forall₂ R as bs := by
  induction as with
  | nil => exact ⟨[], .nil⟩
  | cons a as ih =>
    obtain ⟨⟨b, hb⟩, has⟩ := List.forall_mem_cons.mp h
    obtain ⟨bs, hbs⟩ := ih has
    exact ⟨b :: bs, .cons hb hbs⟩

/-- What belongs to two lists is two lists. -/
theorem exists_append_of_forall₂ {α β : Type*} {R : α → β → Prop} {as bs : List α} {cs : List β}
    (h : List.Forall₂ R (as ++ bs) cs) :
    ∃ ds es, List.Forall₂ R as ds ∧ List.Forall₂ R bs es ∧ cs = ds ++ es := by
  refine ⟨cs.take as.length, cs.drop as.length, ?_, ?_, (List.take_append_drop _ _).symm⟩
  · exact (List.forall₂_take_append _ _ _ h.flip).flip
  · exact (List.forall₂_drop_append _ _ _ h.flip).flip

/-- **Conservation**: the dissection `r` of the buffer from the offset `ipoff` on. -/
structure Conserves (packet : List UInt8) (ipoff : ℕ) (r : SplitRun) : Prop where
  /-- The loop ended, and its outcome is that of the function. -/
  stopped : r.Stopped
  outcome : arsSplitPacket packet ipoff arsInit =
    match r.error with
    | some e => .error e
    | none => .ok r.pkt
  /-- The running size never underflows. -/
  noUnderflow : ∀ c ∈ r.calls, c.len ≤ c.size
  /-- On success, what the handlers took is a partition of the datagram. -/
  partition : r.error = none →
    Tiles ipoff (ipoff + arsDatagramSize (packet.drop ipoff)) (r.calls.map SplitCall.seg)
  /-- Each handler made one layer, and a layer that is not truncated is what it took. -/
  layers : r.error = none → List.Forall₂ (fun l c => l.lFlags &&& arsSplitFtrunc = 0 →
    l.lSize = c.len ∧ l.lData = slice packet c.seg) r.pkt.pLayer r.calls
  /-- On failure all the layers of a packet are used, and some of the datagram is left. -/
  full : ∀ e, r.error = some e → r.pkt.pLayer.length = arsMaxLayer ∧
    Tiles ipoff r.offset (r.calls.map SplitCall.seg) ∧
      r.offset < ipoff + arsDatagramSize (packet.drop ipoff) ∧
        ∃ code, e = .ars code (lit "No space for the next layer")

/-- **Conservation and termination of the dissector**, for every buffer and every offset in
it. -/
theorem conserves (packet : List UInt8) (ipoff : ℕ) (hoff : ipoff ≤ packet.length) :
    Conserves packet ipoff (splitLoop packet ipoff arsInit) := by
  have h := splitLoop_inv arsInit_fresh hoff
  have hstop := splitLoop_stopped arsInit_fresh hoff
  have houtcome := arsSplitPacket_eq hoff arsInit
  generalize splitLoop packet ipoff arsInit = r at h hstop houtcome
  refine ⟨hstop, houtcome, fun c hc => ?_, fun hok => ?_, fun _ => ?_, fun e he => ?_⟩
  · obtain ⟨l, hl⟩ := exists_of_forall₂_of_mem h.holds hc
    exact hl.le
  · exact h.partition hstop hok
  · exact h.holds.imp fun l c hlc hflags => ⟨hlc.trunc hflags, hlc.lData_eq hflags⟩
  · obtain ⟨hdone, hfull, hcode⟩ := h.full e he
    have hcalls : r.calls ≠ [] := fun hnil => by
      rw [h.pLayer_eq_nil hnil] at hfull
      exact absurd hfull (by decide)
    obtain ⟨hsum, hrest⟩ := h.rest hcalls
    have hpos := hrest.resolve_left hdone
    exact ⟨hfull, h.tiles, by omega, hcode⟩

theorem conserves_short : Conserves [0x45, 0, 0] 1 (splitLoop [0x45, 0, 0] 1 arsInit) :=
  conserves [0x45, 0, 0] 1 (by decide)

/-! ### Packets without truncated layers -/

/-- A layer that is there as a whole: of a header just the structure, of anything else at
least a byte. -/
structure Complete (l : ArsLayer) : Prop where
  length : l.lData.length = l.lSize
  hdr : 0 < l.lType.hdrSize → l.lSize = l.lType.hdrSize
  pos : 0 < l.lSize

theorem Holds.complete {packet : List UInt8} {l : ArsLayer} {c : SplitCall} (h : Holds packet l c)
    (hl : l.lFlags &&& arsSplitFtrunc = 0) : Complete l := by
  have hsize := h.trunc hl
  have hfull := h.full
  have hle := l.hdr_le
  refine ⟨h.full, fun hpos => ?_, ?_⟩
  · have := h.hdr hpos
    omega
  · by_cases hzero : l.lType.hdrSize = 0
    · have := h.pos hzero
      omega
    · omega

theorem layersBytes_eq_flatten {packet : List UInt8} {ls : List ArsLayer} {cs : List SplitCall}
    (h : List.Forall₂ (Holds packet) ls cs) (htrunc : ∀ l ∈ ls, l.lFlags &&& arsSplitFtrunc = 0) :
    layersBytes ls = (cs.map fun c => slice packet c.seg).flatten ∧ ∀ l ∈ ls, Complete l := by
  induction h with
  | nil => exact ⟨rfl, fun _ hl => absurd hl List.not_mem_nil⟩
  | @cons l c ls cs hl _ ih =>
    obtain ⟨hbytes, hall⟩ := ih fun m hm => htrunc m (List.mem_cons_of_mem _ hm)
    have hflags := htrunc l List.mem_cons_self
    refine ⟨?_, List.forall_mem_cons.mpr ⟨hl.complete hflags, hall⟩⟩
    rw [layersBytes_cons, hbytes, List.map_cons, List.flatten_cons, bytes, ← hl.full,
      List.take_length, hl.lData_eq hflags]

/-- **A packet without truncated layers is the datagram.** -/
theorem arsSplitPacket_complete {buf : List UInt8} {pkt res : ArsPacket} (hpkt : pkt.Fresh)
    (hres : arsSplitPacket buf 0 pkt = .ok res)
    (htrunc : ∀ l ∈ res.pLayer, l.lFlags &&& arsSplitFtrunc = 0) :
    res.pLayer ≠ [] ∧ layersBytes res.pLayer = buf.take (arsDatagramSize buf) ∧
      (∀ l ∈ res.pLayer, Complete l) ∧ res.NoDefault ∧ res.pOptions = pkt.pOptions := by
  have h := splitLoop_inv hpkt (Nat.zero_le buf.length)
  have hstop := splitLoop_stopped hpkt (Nat.zero_le buf.length)
  have houtcome := arsSplitPacket_eq (Nat.zero_le buf.length) pkt
  generalize splitLoop buf 0 pkt = r at h hstop houtcome
  rw [Nat.cast_zero, hres] at houtcome
  cases herr : r.error with
  | some e =>
    rw [herr] at houtcome
    cases houtcome
  | none =>
    rw [herr] at houtcome
    obtain rfl : res = r.pkt := Except.ok.inj houtcome
    obtain ⟨hbytes, hall⟩ := layersBytes_eq_flatten h.holds htrunc
    have htiles := (h.partition hstop herr).flatten_slice buf
    rw [List.map_map, List.drop_zero, Nat.zero_add, Nat.sub_zero] at htiles
    have hdone : r.state = .done := hstop.resolve_right fun hne => hne herr
    exact ⟨h.pLayer_ne_nil (h.calls_ne_nil hdone), hbytes.trans htiles, hall, h.noDefault,
      h.options⟩

end StyxWire
