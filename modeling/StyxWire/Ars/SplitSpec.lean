import StyxWire.Ars.Split

/-!
# What the state handlers do

One theorem for each handler of the dissector, all of the same form
(`StyxWire.HandlerSpec`): on a packet without defaults, in a state that fits what has been
dissected (`StyxWire.StateOk`), a handler either finds the packet full, or appends one
layer, takes some of the bytes it was given – at least one, if there is any – and leaves
a state that fits again. No other failure is possible: in particular no read outside the
bytes given, and no checksum asked for without a header to compute it from.
-/

namespace StyxWire

open Mem Text ArsLayer

/-! ### Adding a layer -/

/-- The packet has no default contents for its layers, as after `ars_init`. -/
def ArsPacket.NoDefault (pkt : ArsPacket) : Prop := ∀ t, pkt.pDefault t = none

/-- The packet `pkt'` is `pkt` with the layers `ls` appended. -/
structure Extends (pkt : ArsPacket) (ls : List ArsLayer) (pkt' : ArsPacket) : Prop where
  layers : pkt'.pLayer = pkt.pLayer ++ ls
  default : pkt'.pDefault = pkt.pDefault

theorem extends_push {pkt : ArsPacket} {l : ArsLayer} (h : pkt.pLayer.length < arsMaxLayer) :
    Extends pkt [l] (pkt.push l h) := ⟨rfl, rfl⟩

theorem Extends.noDefault {pkt pkt' : ArsPacket} {ls : List ArsLayer} (h : Extends pkt ls pkt')
    (hdef : pkt.NoDefault) : pkt'.NoDefault := fun t => by rw [h.default, hdef t]

theorem Extends.length {pkt pkt' : ArsPacket} {ls : List ArsLayer} (h : Extends pkt ls pkt') :
    pkt'.pLayer.length = pkt.pLayer.length + ls.length := by
  rw [h.layers, List.length_append]

theorem Extends.trans {p q r : ArsPacket} {ls ms : List ArsLayer} (h : Extends p ls q)
    (h' : Extends q ms r) : Extends p (ls ++ ms) r :=
  ⟨by rw [h'.layers, h.layers, List.append_assoc], h'.default.trans h.default⟩

/-- `add` appends a layer of type `t` and of that size, or fails with that code. -/
def Adds (code : ArsCode) (t : ArsType) (size : ℕ) (add : ArsPacket → Except ArsErr ArsPacket) :
    Prop :=
  ∀ pkt : ArsPacket, pkt.NoDefault → ∃ (d : List UInt8) (hd : t.hdrSize ≤ d.length),
    d.length = size ∧ add pkt = if h : pkt.pLayer.length < arsMaxLayer then
        .ok (pkt.push (.full t 0 d hd) h)
      else .error (.ars code (lit "No space for the next layer"))

theorem arsAddGeneric_eq {pkt : ArsPacket} (hdef : pkt.NoDefault) {size : ℕ} {t : ArsType}
    (h : t.hdrSize ≤ size) :
    arsAddGeneric pkt size t h =
      if hroom : pkt.pLayer.length < arsMaxLayer then
        .ok (pkt.push (.full t 0 (List.replicate size 0) (by simpa using h)) hroom)
      else .error (.ars .nospace (lit "No space for the next layer")) := by
  rw [arsAddGeneric]
  simp only [hdef t]
  rfl

theorem adds_generic {size : ℕ} {t : ArsType} (h : t.hdrSize ≤ size) :
    Adds .nospace t size fun pkt => arsAddGeneric pkt size t h :=
  fun _ hdef => ⟨_, by simpa using h, List.length_replicate, arsAddGeneric_eq hdef h⟩

theorem mapLast_push {pkt : ArsPacket} {l : ArsLayer} (h : pkt.pLayer.length < arsMaxLayer)
    (f : ArsLayer → ArsLayer) : (pkt.push l h).mapLast f = pkt.push (f l) h := by
  simp [ArsPacket.mapLast, ArsPacket.push]

theorem writeLast_push {pkt : ArsPacket} {l : ArsLayer} (h : pkt.pLayer.length < arsMaxLayer)
    (off : ℕ) (src : List UInt8) : (pkt.push l h).writeLast off src = pkt.push (l.write off src) h :=
  mapLast_push h _

theorem arsSetFlags_push {pkt : ArsPacket} {l : ArsLayer} (h : pkt.pLayer.length < arsMaxLayer)
    (flags : ℕ) : arsSetFlags (pkt.push l h) flags = pkt.push (l.setFlags flags) h :=
  mapLast_push h _

theorem full_write {t : ArsType} {f : ℕ} {d : List UInt8} (h : t.hdrSize ≤ d.length) (off : ℕ)
    (src : List UInt8) :
    (full t f d h).write off src = full t f (writeAt d off src) (by simpa using h) :=
  ext_data rfl (length_writeAt d off src).symm rfl rfl

namespace Adds

variable {code : ArsCode} {t : ArsType} {size : ℕ} {add : ArsPacket → Except ArsErr ArsPacket}

/-- Overwriting the new layer does not change what an addition is. -/
theorem writeLast (h : Adds code t size add) (off : ℕ) (src : List UInt8) :
    Adds code t size fun pkt => (add pkt).map (·.writeLast off src) := by
  intro pkt hdef
  obtain ⟨d, hd, hsize, hadd⟩ := h pkt hdef
  refine ⟨writeAt d off src, by simpa using hd, by simpa using hsize, ?_⟩
  dsimp only
  rw [hadd]
  split_ifs with hroom
  · rw [Except.map, writeLast_push, full_write]
  · rfl

/-- A function that returns `NULL` when it fails reports one code. -/
theorem recode (h : Adds code t size add) (c : ArsCode) :
    Adds c t size fun pkt => (add pkt).mapError (ArsErr.recode c) := by
  intro pkt hdef
  obtain ⟨d, hd, hsize, hadd⟩ := h pkt hdef
  refine ⟨d, hd, hsize, ?_⟩
  dsimp only
  rw [hadd]
  split_ifs <;> rfl

end Adds

theorem adds_iphdr : Adds .nospace .ip 20 arsAddIphdr := adds_generic _

theorem adds_udphdr : Adds .nospace .udp 8 arsAddUdphdr := adds_generic _

theorem adds_tcphdr : Adds .nospace .tcp 20 arsAddTcphdr := adds_generic _

theorem adds_icmphdr : Adds .nospace .icmp 8 arsAddIcmphdr := (adds_generic _).writeLast 0 [8, 0]

theorem adds_icmp6hdr : Adds .nospace .icmp6 8 arsAddIcmp6hdr :=
  (adds_generic _).writeLast 0 [128, 0]

theorem adds_ip6hdr : Adds .nospace .ip6 40 arsAddIp6hdr := by
  have h : arsAddIp6hdr = fun pkt =>
      ((arsAddGeneric pkt 40 .ip6 (by decide)).map (·.writeLast 0 [0x60, 0, 0, 0])).map
        (·.writeLast 7 [64]) := by
    funext pkt
    rw [arsAddIp6hdr]
    cases arsAddGeneric pkt 40 .ip6 (by decide) <;> rfl
  rw [h]
  exact ((adds_generic _).writeLast 0 [0x60, 0, 0, 0]).writeLast 7 [64]

/-- The layer `l`, of type `t` and size `size`, is what is left when the first `n` bytes of
a packet are copied over a new layer. -/
structure Copied (t : ArsType) (size n flags : ℕ) (packet : List UInt8) (l : ArsLayer) : Prop where
  lType : l.lType = t
  lSize : l.lSize = size
  length : l.lData.length = size
  lFlags : l.lFlags = flags
  take : l.lData.take n = packet.take n

/-- A layer that was filled to the last byte is those bytes. -/
theorem Copied.lData_eq {t : ArsType} {n flags : ℕ} {packet : List UInt8} {l : ArsLayer}
    (h : Copied t n n flags packet l) : l.lData = packet.take n := by
  rw [← h.take, List.take_of_length_le h.length.le]

/-- **Adding and filling a layer** succeeds unless the packet is full. -/
theorem arsSplitAdd_spec {code : ArsCode} {t : ArsType} {size : ℕ}
    {add : ArsPacket → Except ArsErr ArsPacket} (hadd : Adds code t size add) {pkt : ArsPacket}
    (hdef : pkt.NoDefault) {packet : List UInt8} {n : ℕ} (hn : n ≤ size)
    (hnp : n ≤ packet.length) (flags : ℕ) :
    (pkt.pLayer.length = arsMaxLayer ∧ arsSplitAdd add pkt packet n flags =
        .error (.ars code (lit "No space for the next layer"))) ∨
      ∃ (hroom : pkt.pLayer.length < arsMaxLayer) (l : ArsLayer),
        Copied t size n flags packet l ∧
          arsSplitAdd add pkt packet n flags = .ok (pkt.push l hroom) := by
  obtain ⟨d, hd, rfl, hok⟩ := hadd pkt hdef
  have hlen : (packet.take n).length = n := by simp [hnp]
  rw [arsSplitAdd, hok, rdBytes_eq (by omega), List.drop_zero]
  by_cases hroom : pkt.pLayer.length < arsMaxLayer
  · refine Or.inr ⟨hroom, ((full t 0 d hd).write 0 (packet.take n)).setFlags flags, ?_, ?_⟩
    · refine ⟨rfl, rfl, by simp [full], rfl, ?_⟩
      have h := @drop_take_writeAt_self UInt8 d 0 (packet.take n) (by omega)
      rwa [hlen, List.drop_zero] at h
    · rw [dif_pos hroom]
      simp only [bind, Except.bind, pure, Except.pure, writeLast_push, arsSetFlags_push]
  · refine Or.inl ⟨Nat.le_antisymm pkt.nr_le (Nat.not_lt.mp hroom), ?_⟩
    rw [dif_neg hroom]
    rfl

/-! ### The form of the specifications -/

/-- An IP header is found on the left, behind IP options only. -/
def ParentIp (pkt : ArsPacket) : Prop :=
  ∃ ip rest, pkt.pLayer.reverse.dropWhile isIpopt = ip :: rest ∧ ip.lType = .ip

/-- The last layer is an IPv6 header. -/
def ParentIp6 (pkt : ArsPacket) : Prop :=
  ∃ ip6 rest, pkt.pLayer.reverse = ip6 :: rest ∧ ip6.lType = .ip6

/-- The machine can go on in the state: it is not done, inside an option area something of
it is left, and where a pseudo header will be asked for it can be found. -/
def StateOk : SplitState → ArsPacket → Prop
  | .done, _ => False
  | .getIpopt, pkt => 0 < pkt.aux ∧ ParentIp pkt
  | .getTcpopt, pkt => 0 < pkt.aux
  | .getUdp, pkt | .getTcp, pkt => ParentIp pkt ∨ ParentIp6 pkt
  | _, _ => True

/-- The type of the layers that the handler of a state appends. -/
def SplitState.layerType : SplitState → ArsType
  | .done | .getData => .data
  | .getIp => .ip
  | .getIpopt => .ipopt
  | .getIcmp => .icmp
  | .getUdp => .udp
  | .getTcp => .tcp
  | .getTcpopt => .tcpopt
  | .getIgrp => .igrp
  | .getIgrpentry => .igrpentry
  | .getIp6 => .ip6
  | .getIcmp6 => .icmp6

/-- A handler that was given `packet` appended the layer `l`, of type `t`, to `pkt`. -/
structure Took (t : ArsType) (pkt : ArsPacket) (packet : List UInt8) (out : SplitOut)
    (l : ArsLayer) : Prop where
  /-- The layer is appended. -/
  layers : out.pkt.pLayer = pkt.pLayer ++ [l]
  /-- The defaults are left alone. -/
  default : out.pkt.pDefault = pkt.pDefault
  /-- The options are left alone. -/
  options : out.pkt.pOptions = pkt.pOptions
  /-- The type of the layer. -/
  type : l.lType = t
  /-- No more is taken than there is. -/
  le : out.len ≤ packet.length
  /-- Something is taken, if there is anything. -/
  pos : packet ≠ [] → 0 < out.len
  /-- Of a header all is taken that is there. -/
  hdr : 0 < t.hdrSize → out.len = min packet.length t.hdrSize
  /-- All the block of the layer belongs to the packet. -/
  full : l.lData.length = l.lSize
  /-- The bytes taken are in the layer. -/
  copied : l.lData.take out.len = packet.take out.len
  /-- Unless the layer is truncated, nothing else is. -/
  trunc : l.lFlags &&& arsSplitFtrunc = 0 → l.lSize = out.len
  /-- The next state fits. -/
  next : out.len < packet.length → StateOk out.state out.pkt

/-- **The specification of a handler**: the packet is full, or a layer is appended. -/
def HandlerSpec (t : ArsType) (pkt : ArsPacket) (packet : List UInt8)
    (r : Except ArsErr SplitOut) : Prop :=
  (pkt.pLayer.length = arsMaxLayer ∧
    ∃ code, r = .error (.ars code (lit "No space for the next layer"))) ∨
  ∃ out l, r = .ok out ∧ Took t pkt packet out l

/-- A layer that is not truncated is what was taken. -/
theorem Took.bytes {t : ArsType} {pkt : ArsPacket} {packet : List UInt8} {out : SplitOut}
    {l : ArsLayer} (h : Took t pkt packet out l) (hl : l.lFlags &&& arsSplitFtrunc = 0) :
    l.lData = packet.take out.len := by
  rw [← h.copied, List.take_of_length_le]
  rw [h.full, h.trunc hl]

/-- Only the layers, the defaults and the options of the packet matter. -/
theorem HandlerSpec.of_eq {t : ArsType} {p pkt : ArsPacket} {packet : List UInt8}
    {r : Except ArsErr SplitOut} (h : HandlerSpec t p packet r) (hlayer : p.pLayer = pkt.pLayer)
    (hdefault : p.pDefault = pkt.pDefault) (hoptions : p.pOptions = pkt.pOptions) :
    HandlerSpec t pkt packet r := by
  rcases h with ⟨hfull, herr⟩ | ⟨out, l, hok, htook⟩
  · exact Or.inl ⟨hlayer ▸ hfull, herr⟩
  · exact Or.inr ⟨out, l, hok, { htook with
      layers := hlayer ▸ htook.layers
      default := hdefault ▸ htook.default
      options := hoptions ▸ htook.options }⟩

/-! ### The states after a header -/

theorem parentIp_of_last {pkt : ArsPacket} {ls : List ArsLayer} {l : ArsLayer}
    (h : pkt.pLayer = ls ++ [l]) (hl : l.lType = .ip) : ParentIp pkt := by
  refine ⟨l, ls.reverse, ?_, hl⟩
  rw [h, List.reverse_append, List.reverse_singleton, List.singleton_append,
    List.dropWhile_cons_of_neg (by simp [isIpopt, hl])]

theorem parentIp6_of_last {pkt : ArsPacket} {ls : List ArsLayer} {l : ArsLayer}
    (h : pkt.pLayer = ls ++ [l]) (hl : l.lType = .ip6) : ParentIp6 pkt :=
  ⟨l, ls.reverse, by simp [h], hl⟩

theorem ParentIp.ipopt {pkt pkt' : ArsPacket} (h : ParentIp pkt) {l : ArsLayer}
    (hl : l.lType = .ipopt) (hpkt : pkt'.pLayer = pkt.pLayer ++ [l]) : ParentIp pkt' := by
  obtain ⟨ip, rest, hrev, hip⟩ := h
  refine ⟨ip, rest, ?_, hip⟩
  rw [hpkt, List.reverse_append, List.reverse_singleton, List.singleton_append,
    List.dropWhile_cons_of_pos (by simp [isIpopt, hl]), hrev]

theorem stateOk_arsIpNextState {pkt : ArsPacket} (h : ParentIp pkt) (p : ℕ) :
    StateOk (arsIpNextState p) pkt := by
  unfold arsIpNextState
  split_ifs <;> first | trivial | exact Or.inl h

theorem stateOk_arsIp6NextState {pkt : ArsPacket} (h : ParentIp6 pkt) (p : ℕ) :
    StateOk (arsIp6NextState p) pkt := by
  unfold arsIp6NextState
  split_ifs <;> first | trivial | exact Or.inr h

/-- **Where the state fits, the checksum can be computed.** -/
theorem exists_arsUdptcpCksum {pkt : ArsPacket} (h : ParentIp pkt ∨ ParentIp6 pkt) (l : ArsLayer) :
    ∃ sum, arsUdptcpCksum pkt.pLayer.reverse l [] = .ok sum := by
  rcases h with ⟨ip, rest, hrev, hip⟩ | ⟨ip6, rest, hrev, hip6⟩
  · exact ⟨_, arsUdptcpCksum_ip hrev hip l []⟩
  · rw [hrev]
    exact ⟨_, (arsUdptcpCksum_ip6 hip6 rest l []).trans (arsIp6PseudoCksum_cons hip6 rest _ _)⟩

/-! ### The handlers -/

theorem bind_ok {α β : Type} (a : α) (f : α → Except ArsErr β) : (Except.ok a >>= f) = f a := rfl

theorem bind_error {α β : Type} (e : ArsErr) (f : α → Except ArsErr β) :
    (Except.error e >>= f) = .error e := rfl

/-- A handler that adds one layer and then goes on: its specification, from what the
layer, the length and the next state have to satisfy. -/
theorem handlerSpec_add {code : ArsCode} {t : ArsType} {size : ℕ}
    {add : ArsPacket → Except ArsErr ArsPacket} (hadd : Adds code t size add) {pkt : ArsPacket}
    (hdef : pkt.NoDefault) {packet : List UInt8} {n flags : ℕ} (hn : n ≤ size)
    (hnp : n ≤ packet.length) (hpos : packet ≠ [] → 0 < n)
    (hhdr : 0 < t.hdrSize → n = min packet.length t.hdrSize)
    (htrunc : flags &&& arsSplitFtrunc = 0 → size = n) {k : ArsPacket → SplitOut}
    (hk : ∀ p, (k p).len = n ∧ (k p).pkt.pLayer = p.pLayer ∧ (k p).pkt.pDefault = p.pDefault ∧
      (k p).pkt.pOptions = p.pOptions)
    (hnext : ∀ p l, p.pLayer = pkt.pLayer ++ [l] → l.lType = t → p.aux = pkt.aux →
      p.auxIpproto = pkt.auxIpproto → n < packet.length → StateOk (k p).state (k p).pkt) :
    HandlerSpec t pkt packet (do return k (← arsSplitAdd add pkt packet n flags)) := by
  rcases arsSplitAdd_spec hadd hdef hn hnp flags with ⟨hfull, herr⟩ | ⟨hroom, l, hl, hok⟩
  · refine Or.inl ⟨hfull, code, ?_⟩
    rw [herr]
    rfl
  · obtain ⟨hlen, hlayer, hdefault, hoptions⟩ := hk (pkt.push l hroom)
    refine Or.inr ⟨k (pkt.push l hroom), l, ?_, ?_⟩
    · rw [hok]
      rfl
    · exact
        { layers := hlayer
          default := hdefault
          options := hoptions
          type := hl.lType
          le := hlen.symm ▸ hnp
          pos := hlen.symm ▸ hpos
          hdr := hlen.symm ▸ hhdr
          full := hl.length.trans hl.lSize.symm
          copied := hlen.symm ▸ hl.take
          trunc := fun hflags => hl.lSize.trans ((htrunc (hl.lFlags ▸ hflags)).trans hlen.symm)
          next := fun hlt => hnext _ l rfl hl.lType rfl rfl (hlen ▸ hlt) }

/-- The same for a header of fixed size, of which all is taken that is there. -/
theorem handlerSpec_hdr {code : ArsCode} {t : ArsType} (ht : 0 < t.hdrSize)
    {add : ArsPacket → Except ArsErr ArsPacket} (hadd : Adds code t t.hdrSize add)
    {pkt : ArsPacket} (hdef : pkt.NoDefault) {packet : List UInt8} {n flags : ℕ}
    (hn : n = min packet.length t.hdrSize)
    (htrunc : packet.length < t.hdrSize → flags &&& arsSplitFtrunc ≠ 0) {k : ArsPacket → SplitOut}
    (hk : ∀ p, (k p).len = n ∧ (k p).pkt.pLayer = p.pLayer ∧ (k p).pkt.pDefault = p.pDefault ∧
      (k p).pkt.pOptions = p.pOptions)
    (hnext : ∀ p l, p.pLayer = pkt.pLayer ++ [l] → l.lType = t →
      StateOk (k p).state (k p).pkt) :
    HandlerSpec t pkt packet (do return k (← arsSplitAdd add pkt packet n flags)) := by
  refine handlerSpec_add hadd hdef (by omega) (by omega) (fun hne => ?_) (fun _ => hn)
    (fun hflags => ?_) hk fun p l hp hl _ _ _ => hnext p l hp hl
  · have hpos := List.length_pos_of_ne_nil hne
    omega
  · have hge : ¬packet.length < t.hdrSize := fun hlt => htrunc hlt hflags
    omega

theorem arsSplitIp6_spec {pkt : ArsPacket} (hdef : pkt.NoDefault) (packet : List UInt8) :
    HandlerSpec .ip6 pkt packet (arsSplitIp6 pkt packet) := by
  rw [arsSplitIp6, rdBytes_eq (by omega), bind_ok]
  refine handlerSpec_hdr (by decide) (adds_ip6hdr.recode .nomem) hdef ?_ ?_
    (fun _ => ⟨rfl, rfl, rfl, rfl⟩) fun p l hp hl => ?_
  · change (if packet.length < 40 then packet.length else 40) = min packet.length 40
    split_ifs <;> omega
  · intro hlt
    rw [if_pos (show packet.length < 40 from hlt)]
    decide
  · dsimp only
    split_ifs
    · trivial
    · exact stateOk_arsIp6NextState (parentIp6_of_last hp hl) _

theorem arsTempLayer_spec {t : ArsType} {pkt : ArsPacket} (hdef : pkt.NoDefault)
    {packet : List UInt8} (h : t.hdrSize ≤ packet.length) :
    (pkt.pLayer.length = arsMaxLayer ∧ arsTempLayer t pkt packet h =
        .error (.ars .nospace (lit "No space for the next layer"))) ∨
      arsTempLayer t pkt packet h = .ok (.full t 0 packet h) := by
  rw [arsTempLayer, arsAddGeneric_eq hdef]
  by_cases hroom : pkt.pLayer.length < arsMaxLayer
  · rw [dif_pos hroom]
    exact Or.inr rfl
  · rw [dif_neg hroom]
    exact Or.inl ⟨Nat.le_antisymm pkt.nr_le (Nat.not_lt.mp hroom), rfl⟩

theorem arsSplitIcmp6_spec {pkt : ArsPacket} (hdef : pkt.NoDefault) (packet : List UInt8) :
    HandlerSpec .icmp6 pkt packet (arsSplitIcmp6 pkt packet) := by
  rw [arsSplitIcmp6]
  split
  · next hlt =>
    exact handlerSpec_hdr (by decide) (adds_icmp6hdr.recode .nomem) hdef
      (Nat.min_eq_left hlt.le).symm (fun _ => by decide) (fun _ => ⟨rfl, rfl, rfl, rfl⟩)
      fun _ _ _ _ => trivial
  · next hge =>
    rcases arsTempLayer_spec (t := .icmp6) hdef (Nat.not_lt.mp hge) with ⟨hfull, herr⟩ | hok
    · rw [herr]
      exact Or.inl ⟨hfull, _, rfl⟩
    · rw [hok, bind_ok]
      exact handlerSpec_hdr (by decide) (adds_icmp6hdr.recode .nomem) hdef
        (Nat.min_eq_right (Nat.not_lt.mp hge)).symm (fun hlt => absurd hlt hge)
        (fun _ => ⟨rfl, rfl, rfl, rfl⟩) fun _ _ _ _ => trivial

/-- **The checksum of an IP header reads no more than the header.** -/
theorem arsCheckIpCksum_ok {ip : List UInt8} (h0 : 0 < ip.length)
    (h : (ip.getD 0 0).toNat % 16 * 4 ≤ ip.length) : ∃ b, arsCheckIpCksum ip = .ok b := by
  rw [arsCheckIpCksum, rdByte_eq h0, bind_ok]
  dsimp only
  split_ifs
  · exact ⟨false, rfl⟩
  · rw [rdBytes_eq (by omega)]
    exact ⟨_, rfl⟩

theorem arsCheckIcmpCksum_ok {icmp : List UInt8} {size : ℕ} (h : size ≤ icmp.length) :
    ∃ b, arsCheckIcmpCksum icmp size = .ok b := by
  rw [arsCheckIcmpCksum]
  split_ifs
  · exact ⟨false, rfl⟩
  · rw [rdBytes_eq (by omega)]
    exact ⟨_, rfl⟩

/-- The flags say whether the header is there, and the size is what there is of it. -/
theorem arsSplitIpFlags_ok {packet ip : List UInt8} (hip : ip = packet.take 20) :
    ∃ flags, arsSplitIpFlags packet ip = .ok (flags, min packet.length 20) ∧
      (packet.length < 20 → flags &&& arsSplitFtrunc ≠ 0) := by
  have h0 : ip.getD 0 0 = packet.getD 0 0 := by
    rw [hip]
    simp [List.getD_eq_getElem?_getD]
  rw [arsSplitIpFlags, h0]
  by_cases hlt : packet.length < 20
  · rw [if_pos hlt, Nat.min_eq_left hlt.le]
    exact ⟨_, rfl, fun _ => by decide⟩
  · rw [if_neg hlt, Nat.min_eq_right (Nat.not_lt.mp hlt)]
    by_cases hihl : (packet.getD 0 0).toNat % 16 < 5
    · rw [if_pos hihl]
      exact ⟨_, rfl, fun h => absurd h hlt⟩
    · rw [if_neg hihl]
      by_cases hsize : packet.length < (packet.getD 0 0).toNat % 16 * 4
      · rw [if_pos hsize]
        exact ⟨_, by rfl, fun h => absurd h hlt⟩
      · have h0 : 0 < packet.length := by omega
        obtain ⟨b, hb⟩ := arsCheckIpCksum_ok h0 (Nat.not_lt.mp hsize)
        rw [if_neg hsize, hb, Nat.min_eq_right (by omega)]
        exact ⟨_, rfl, fun h => absurd h hlt⟩

theorem arsSplitIp_spec {pkt : ArsPacket} (hdef : pkt.NoDefault) (packet : List UInt8) :
    HandlerSpec .ip pkt packet (arsSplitIp pkt packet) := by
  have htake : (packet.drop 0).take (min packet.length 20) = packet.take 20 := by
    rcases Nat.le_total packet.length 20 with hle | hle
    · rw [Nat.min_eq_left hle, List.drop_zero, List.take_length, List.take_of_length_le hle]
    · rw [Nat.min_eq_right hle, List.drop_zero]
  rw [arsSplitIp, rdBytes_eq (by omega), bind_ok, htake]
  obtain ⟨flags, hflags, htrunc⟩ := @arsSplitIpFlags_ok packet _ rfl
  rw [hflags, bind_ok]
  refine handlerSpec_hdr (by decide) (adds_iphdr.recode .nomem) hdef rfl htrunc (fun p => ?_)
    fun p l hp hl => ?_
  · split_ifs <;> exact ⟨rfl, rfl, rfl, rfl⟩
  · have hparent := parentIp_of_last hp hl
    split_ifs with hf hihl
    · trivial
    · exact ⟨by dsimp only; omega, hparent⟩
    · exact stateOk_arsIpNextState hparent _

theorem arsSplitUdp_spec {pkt : ArsPacket} (hdef : pkt.NoDefault)
    (hok : ParentIp pkt ∨ ParentIp6 pkt) (packet : List UInt8) :
    HandlerSpec .udp pkt packet (arsSplitUdp pkt packet) := by
  rw [arsSplitUdp, rdBytes_eq (by omega), bind_ok]
  split
  · next hlt =>
    exact handlerSpec_hdr (by decide) (adds_udphdr.recode .nomem) hdef
      (Nat.min_eq_left hlt.le).symm (fun _ => by decide) (fun _ => ⟨rfl, rfl, rfl, rfl⟩)
      fun _ _ _ _ => trivial
  · next hge =>
    rcases arsTempLayer_spec (t := .udp) hdef (Nat.not_lt.mp hge) with ⟨hfull, herr⟩ | htemp
    · rw [herr]
      exact Or.inl ⟨hfull, _, rfl⟩
    · obtain ⟨sum, hsum⟩ := exists_arsUdptcpCksum hok
        ((full .udp 0 packet (Nat.not_lt.mp hge)).write 6 [0, 0])
      rw [htemp, bind_ok, hsum, bind_ok]
      exact handlerSpec_hdr (by decide) (adds_udphdr.recode .nomem) hdef
        (Nat.min_eq_right (Nat.not_lt.mp hge)).symm (fun hlt => absurd hlt hge)
        (fun _ => ⟨rfl, rfl, rfl, rfl⟩) fun _ _ _ _ => trivial

theorem arsSplitTcp_spec {pkt : ArsPacket} (hdef : pkt.NoDefault)
    (hok : ParentIp pkt ∨ ParentIp6 pkt) (packet : List UInt8) :
    HandlerSpec .tcp pkt packet (arsSplitTcp pkt packet) := by
  rw [arsSplitTcp]
  dsimp only
  split
  · next hlt =>
    exact handlerSpec_hdr (by decide) (adds_tcphdr.recode .nomem) hdef
      (Nat.min_eq_left hlt.le).symm (fun _ => by decide) (fun _ => ⟨rfl, rfl, rfl, rfl⟩)
      fun _ _ _ _ => trivial
  · next hge =>
    rw [rdBytes_eq (by omega), bind_ok]
    rcases arsTempLayer_spec (t := .tcp) hdef (Nat.not_lt.mp hge) with ⟨hfull, herr⟩ | htemp
    · rw [herr]
      exact Or.inl ⟨hfull, _, rfl⟩
    · obtain ⟨sum, hsum⟩ := exists_arsUdptcpCksum hok
        ((full .tcp 0 packet (Nat.not_lt.mp hge)).write 16 [0, 0])
      rw [htemp, bind_ok, hsum, bind_ok]
      generalize (((packet.drop 0).take 20).getD 12 0).toNat / 16 = thOff
      refine handlerSpec_hdr (by decide) (adds_tcphdr.recode .nomem) hdef ?_
        (fun hlt => absurd hlt hge) (fun p => ?_) fun p l _ _ => ?_
      · change min _ 20 = min packet.length 20
        split_ifs <;> dsimp only <;> omega
      · by_cases hoff : 5 < thOff
        · rw [if_pos hoff]
          exact ⟨rfl, rfl, rfl, rfl⟩
        · rw [if_neg hoff]
          exact ⟨rfl, rfl, rfl, rfl⟩
      · by_cases hoff : 5 < thOff
        · rw [if_pos hoff]
          exact Nat.mul_pos (Nat.sub_pos_of_lt hoff) (by omega)
        · rw [if_neg hoff]
          trivial

theorem arsSplitIcmp_spec {pkt : ArsPacket} (hdef : pkt.NoDefault) (packet : List UInt8) :
    HandlerSpec .icmp pkt packet (arsSplitIcmp pkt packet) := by
  rw [arsSplitIcmp, rdBytes_eq (by omega), bind_ok]
  split
  · next hlt =>
    exact handlerSpec_hdr (by decide) (adds_icmphdr.recode .nomem) hdef
      (Nat.min_eq_left hlt.le).symm (fun _ => by decide) (fun _ => ⟨rfl, rfl, rfl, rfl⟩)
      fun _ _ _ _ => trivial
  · next hge =>
    obtain ⟨b, hb⟩ := @arsCheckIcmpCksum_ok packet _ (Nat.le_refl _)
    rw [hb, bind_ok]
    refine handlerSpec_hdr (by decide) (adds_icmphdr.recode .nomem) hdef
      (Nat.min_eq_right (Nat.not_lt.mp hge)).symm (fun hlt => absurd hlt hge)
      (fun _ => ⟨rfl, rfl, rfl, rfl⟩) fun p l _ _ => ?_
    dsimp only [arsIcmpNextState]
    split_ifs <;> trivial

theorem arsSplitFixed_spec {t : ArsType} (ht : 0 < t.hdrSize) {pkt : ArsPacket}
    (hdef : pkt.NoDefault) (packet : List UInt8) :
    HandlerSpec t pkt packet (arsSplitFixed t pkt packet) := by
  rw [arsSplitFixed]
  refine handlerSpec_hdr ht (adds_generic (Nat.le_refl _)) hdef ?_ (fun hlt => ?_)
    (fun _ => ⟨rfl, rfl, rfl, rfl⟩) fun _ _ _ _ => trivial
  · split_ifs <;> omega
  · rw [if_pos hlt]
    decide

/-- A data layer is added and filled like the others; its flags are zero already. -/
theorem arsSplitData_eq {pkt : ArsPacket} (hdef : pkt.NoDefault) (packet : List UInt8) :
    arsSplitData pkt packet = do
      return ⟨← arsSplitAdd (fun pkt => (arsAddData pkt packet.length).mapError
        (ArsErr.recode .nomem)) pkt packet packet.length 0, .done, packet.length⟩ := by
  rw [arsSplitData, arsSplitAdd, arsAddData, arsAddGeneric_eq hdef, rdBytes_eq (by omega)]
  by_cases hroom : pkt.pLayer.length < arsMaxLayer
  · simp only [dif_pos hroom, Except.mapError, bind_ok, writeLast_push, arsSetFlags_push]
    rfl
  · simp only [dif_neg hroom, Except.mapError, bind_error]

theorem arsSplitData_spec {pkt : ArsPacket} (hdef : pkt.NoDefault) (packet : List UInt8) :
    HandlerSpec .data pkt packet (arsSplitData pkt packet) := by
  rw [arsSplitData_eq hdef]
  have hadd : Adds .nospace .data packet.length (arsAddData · packet.length) := adds_generic _
  exact handlerSpec_add (hadd.recode .nomem) hdef (Nat.le_refl _) (Nat.le_refl _)
    List.length_pos_of_ne_nil (fun h => absurd h (by decide)) (fun _ => rfl)
    (fun _ => ⟨rfl, rfl, rfl, rfl⟩) fun _ _ _ _ _ _ hlt => absurd hlt (Nat.lt_irrefl _)

/-- The size of an option is positive and inside the area. -/
theorem arsOptsize_ok {packet : List UInt8} {size : ℕ} (hpos : 0 < size)
    (hsize : size ≤ packet.length) :
    ∃ optsize flags, arsOptsize packet size = .ok (optsize, flags) ∧ 0 < optsize ∧
      optsize ≤ size := by
  have key : ∀ n flags : ℕ, ∃ optsize flags',
      (let n := if n = 0 then 1 else n
      if size < n then (return (size, flags ||| arsSplitFtrunc) : Except ArsErr (ℕ × ℕ))
      else return (n, flags)) = .ok (optsize, flags') ∧ 0 < optsize ∧ optsize ≤ size := by
    intro n flags
    dsimp only
    split_ifs with hn hlt hlt
    · exact ⟨_, _, rfl, by omega, by omega⟩
    · exact ⟨_, _, rfl, by omega, by omega⟩
    · exact ⟨_, _, rfl, by omega, by omega⟩
    · exact ⟨_, _, rfl, by omega, by omega⟩
  rw [arsOptsize, rdByte_eq (by omega), bind_ok]
  by_cases hkind : (packet.getD 0 0).toNat = 0 ∨ (packet.getD 0 0).toNat = 1
  · rw [if_pos hkind]
    exact key 1 0
  · rw [if_neg hkind]
    by_cases hlt : size < 2
    · rw [if_pos hlt]
      exact key 1 arsSplitFtrunc
    · rw [if_neg hlt, rdByte_eq (by omega), bind_ok]
      exact key _ 0

theorem arsSplitOpt_spec {t : ArsType} (ht : t.hdrSize = 0) {again : SplitState}
    {next : ArsPacket → SplitState} {pkt : ArsPacket} (hdef : pkt.NoDefault)
    (hagain : ∀ p l, p.pLayer = pkt.pLayer ++ [l] → l.lType = t → 0 < p.aux → StateOk again p)
    (hnext : ∀ p l, p.pLayer = pkt.pLayer ++ [l] → l.lType = t → StateOk (next p) p)
    (haux : 0 < pkt.aux) {packet : List UInt8} (hne : packet ≠ []) :
    HandlerSpec t pkt packet (arsSplitOpt t ht again next pkt packet) := by
  have hlen := List.length_pos_of_ne_nil hne
  obtain ⟨optsize, flags, hok, hpos, hle⟩ :=
    @arsOptsize_ok packet (min packet.length pkt.aux) (by omega) (by omega)
  rw [arsSplitOpt]
  dsimp only
  rw [if_neg (by omega), hok, bind_ok]
  have hdef' : ArsPacket.NoDefault { pkt with aux := pkt.aux - optsize } := hdef
  refine HandlerSpec.of_eq (p := { pkt with aux := pkt.aux - optsize }) ?_ rfl rfl rfl
  have hadd : Adds .nospace t optsize fun pkt => arsAddGeneric pkt optsize t (by omega) :=
    adds_generic _
  refine handlerSpec_add hadd hdef' (Nat.le_refl _) (by omega) (fun _ => hpos)
    (fun h => absurd h (by omega)) (fun _ => rfl) (fun _ => ⟨rfl, rfl, rfl, rfl⟩)
    fun p l hp hl _ _ _ => ?_
  split_ifs with h
  · exact hagain p l hp hl h
  · exact hnext p l hp hl

/-- **Every handler meets its specification**, in a state that fits the packet. -/
theorem arsSplitStateHandler_spec {st : SplitState} {pkt : ArsPacket} (hdef : pkt.NoDefault)
    (hok : StateOk st pkt) {packet : List UInt8}
    (hne : packet ≠ [] ∨ st = .getIp) :
    HandlerSpec st.layerType pkt packet (arsSplitStateHandler st pkt packet) := by
  cases st with
  | done => exact hok.elim
  | getIp => exact arsSplitIp_spec hdef packet
  | getIpopt =>
    have hagain : ∀ p l, p.pLayer = pkt.pLayer ++ [l] → l.lType = .ipopt → 0 < p.aux →
        StateOk .getIpopt p := fun p l hp hl haux => ⟨haux, hok.2.ipopt hl hp⟩
    exact arsSplitOpt_spec rfl hdef hagain
      (fun p l hp hl => stateOk_arsIpNextState (hok.2.ipopt hl hp) _) hok.1 (by simpa using hne)
  | getIcmp => exact arsSplitIcmp_spec hdef packet
  | getUdp => exact arsSplitUdp_spec hdef hok packet
  | getTcp => exact arsSplitTcp_spec hdef hok packet
  | getTcpopt =>
    have hagain : ∀ p l, p.pLayer = pkt.pLayer ++ [l] → l.lType = .tcpopt → 0 < p.aux →
        StateOk .getTcpopt p := fun _ _ _ _ haux => haux
    have hnext : ∀ p l, p.pLayer = pkt.pLayer ++ [l] → l.lType = .tcpopt →
        StateOk .getData p := fun _ _ _ _ => trivial
    exact arsSplitOpt_spec rfl hdef hagain hnext hok (by simpa using hne)
  | getIgrp => exact arsSplitFixed_spec (by decide) hdef packet
  | getIgrpentry => exact arsSplitFixed_spec (by decide) hdef packet
  | getData => exact arsSplitData_spec hdef packet
  | getIp6 => exact arsSplitIp6_spec hdef packet
  | getIcmp6 => exact arsSplitIcmp6_spec hdef packet

end StyxWire
