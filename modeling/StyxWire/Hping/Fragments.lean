import StyxWire.Hping.IpOptions
import StyxWire.Lib.Reassembly

/-!
# Fragments of a probe

`send_ip_handler` (`sendip_handler.c`) cuts what it is to send into fragments, where that is
asked for or where the interface cannot take it in one piece, and `send_ip` (`sendip.c`) puts an
IP header with the options in front of each of them. What is printed along the way, and what a
dry run writes in place of the datagram, is left out. A packet is shorter than 2^31, as its
length is an `int` where it is made, so the lengths are numbers.

The slices tile the packet (`StyxWire.Hping.Fragments.fragments_tile`). Their places are told in
units of eight bytes, and a size given by the user is not rounded, so they do reassemble when the
size is a multiple of eight or one slice is all there is
(`StyxWire.Hping.Fragments.fragments_reassemble`), and not otherwise. The size that is taken from
the interface leaves room for the header without options
(`StyxWire.Hping.Fragments.auto_fragments_fit`).
-/

namespace StyxWire.Hping.Fragments

open Mem Text Tiling Reassembly

/-! ### Sending a datagram -/

/-- The configuration that sending reads, as it is given on the command line or found out of the
interface. -/
structure SendConfig where
  ipTos : ℕ
  /-- `ip_frag_offset`, for the datagrams that are not cut by `send_ip_handler`. -/
  ipFragOffset : ℕ
  srcTtl : ℕ
  optRawipmode : Bool
  rawIpProtocol : ℕ
  optIcmpmode : Bool
  optUdpmode : Bool
  optSafe : Bool
  optRandDest : Bool
  optRandSource : Bool
  /-- `local` and `remote`, four bytes each. -/
  saddr : {ip : List UInt8 // ip.length = 4}
  daddr : {ip : List UInt8 // ip.length = 4}
  /-- The MTU of the interface. -/
  hIfMtu : UInt32

/-- The part of the configuration that sending changes. The routes are as the command line leaves
them, or fewer. -/
structure SendState where
  routes : {cfg : RouteConfig // cfg.Ok}
  virtualMtu : ℕ
  optFragment : Bool
  optMf : Bool
  optDf : Bool
  /-- `src_id`; -1 is for an id of no one's choice. -/
  srcId : ℤ

/-- What the system has to tell: `getpid()`, `hping_rand()`, whether the other end is done with a
transfer, and whether `sendto()` takes the datagram that starts at some place of the packet. -/
structure SendEnv where
  pid : ℕ
  rand : ℕ
  eofReached : Bool
  sendto : ℕ → Bool

/-- A call of `send_ip`: the slice and where it is, the flags, and the bytes it writes. -/
structure Sent where
  fragoff : ℕ
  flags : ℕ
  data : List UInt8
  wire : List UInt8
  /-- It returns 0. -/
  ok : Bool

/-- `MF`. -/
def flagMf : ℕ := 0x2000
/-- `DF`. -/
def flagDf : ℕ := 0x4000
/-- `NF`. -/
def flagNf : ℕ := 0

/-- The header that `send_ip` writes. The place is passed on as an `unsigned short`. -/
def ipHeader (cfg : SendConfig) (st : SendState) (env : SendEnv) (optlen datalen : ℕ)
    (moreFragments fragoff : ℕ) : List UInt8 :=
  let id : ℕ :=
    if !st.optFragment then if st.srcId = -1 then env.rand else (st.srcId % 65536).toNat
    else if st.srcId = -1 then env.pid % 256 else (st.srcId % 65536).toNat
  let protocol : ℕ :=
    if cfg.optRawipmode then cfg.rawIpProtocol
    else if cfg.optIcmpmode then 1
    else if cfg.optUdpmode then 17
    else 6
  [UInt8.ofNat (4 * 16 + (20 + optlen + 3) / 4 % 16), UInt8.ofNat cfg.ipTos] ++
    putBe16 (20 + optlen + datalen) ++ putBe16 id ++
    putBe16 (moreFragments ||| fragoff % 65536 / 8) ++
    [UInt8.ofNat cfg.srcTtl, UInt8.ofNat protocol, 0, 0] ++ cfg.saddr ++ cfg.daddr

/-- `send_ip`. -/
def sendIp (cfg : SendConfig) (st : SendState) (env : SendEnv) (options data : List UInt8)
    (moreFragments fragoff : ℕ) : Sent × SendState :=
  let wire := ipHeader cfg st env options.length data.length moreFragments fragoff ++ options ++ data
  let ok := env.sendto fragoff || cfg.optRandDest || cfg.optRandSource
  (⟨fragoff, moreFragments, data, wire, ok⟩,
    if ok && cfg.optSafe && !env.eofReached then { st with srcId := st.srcId + 1 } else st)

/-! ### Cutting a packet -/

/-- The loop of `send_ip_handler`, and the slice that is left when it ends. It does not end if
`virtual_mtu` is 0, so it has some fuel. -/
def sendFragments (cfg : SendConfig) (env : SendEnv) (options packet : List UInt8) :
    ℕ → SendState → ℕ → ℕ → Option (List Sent × SendState)
  | 0, _, _, _ => none
  | fuel + 1, st, remainder, fragOffset =>
    if remainder ≤ st.virtualMtu then
      let r := sendIp cfg st env options (slice packet (fragOffset, remainder)) flagNf fragOffset
      some ([r.1], r.2)
    else
      let r := sendIp cfg st env options (slice packet (fragOffset, st.virtualMtu)) flagMf fragOffset
      (sendFragments cfg env options packet fuel r.2 (remainder - st.virtualMtu)
        (fragOffset + st.virtualMtu)).map fun rest => (r.1 :: rest.1, rest.2)

/-- The options are built, and fragmentation is activated where it has to be. -/
def SendState.prepare (cfg : SendConfig) (st : SendState) (size : ℕ) : SendState :=
  let b := ipOptBuild st.routes.1
  let st := { st with routes := ⟨b.cfg, st.routes.2.drops (ipOptBuild_spec st.routes.2).1⟩ }
  if !st.optFragment && decide (cfg.hIfMtu.toNat ≤ size + b.optlen + 20) then
    let virtualMtu := (cfg.hIfMtu - 20).toNat
    { st with
      virtualMtu := virtualMtu - virtualMtu % 8
      optFragment := true
      optMf := false
      optDf := false }
  else st

/-- `send_ip_handler`: the calls of `send_ip`, one behind the other. What it returns is whether
the last one is all right. -/
def sendIpHandler (cfg : SendConfig) (env : SendEnv) (fuel : ℕ) (st : SendState)
    (packet : List UInt8) : Option (List Sent × SendState) :=
  let options := (ipOptBuild st.routes.1).options
  let st := st.prepare cfg packet.length
  if !st.optFragment then
    let flags := (if st.optMf then flagMf else 0) ||| (if st.optDf then flagDf else 0)
    let r := sendIp cfg st env options packet flags cfg.ipFragOffset
    some ([r.1], r.2)
  else sendFragments cfg env options packet fuel st packet.length 0

/-! ### One datagram -/

@[simp] theorem length_ipHeader (cfg : SendConfig) (st : SendState) (env : SendEnv)
    (optlen datalen moreFragments fragoff : ℕ) :
    (ipHeader cfg st env optlen datalen moreFragments fragoff).length = 20 := by
  simp [ipHeader, putBe16, cfg.saddr.2, cfg.daddr.2]

/-- The header length of a datagram, in bytes. -/
def wireHdrlen (wire : List UInt8) : ℕ := 4 * ((wire.getD 0 0).toNat % 16)

/-- The flags and the offset of a datagram. -/
def wireFragoff (wire : List UInt8) : ℕ := be16 (wire.getD 6 0) (wire.getD 7 0)

/-- **A datagram, as the receiver takes it**: the offset field, of 13 bits, counts eight bytes
each. -/
def wireFragment (wire : List UInt8) : Fragment UInt8 where
  offset := 8 * (wireFragoff wire % 8192)
  more := decide (wireFragoff wire / 8192 % 2 = 1)
  data := wire.drop (wireHdrlen wire)

/-- The fragment of a call of `send_ip`. -/
def Sent.fragment (s : Sent) : Fragment UInt8 := wireFragment s.wire

/-- What a call of `send_ip` is, for one of the fragments. -/
structure IsSent (optlen : ℕ) (packet : List UInt8) (s : Sent) : Prop where
  data : s.data = slice packet (s.fragoff, s.data.length)
  length : s.wire.length = 20 + optlen + s.data.length
  fragment : s.fragment = ⟨8 * (s.fragoff % 65536 / 8), decide (s.flags = flagMf), s.data⟩

/-- The flag and the offset, read back. -/
theorem wireFragoff_ipHeader (cfg : SendConfig) (st : SendState) (env : SendEnv)
    (optlen datalen : ℕ) {moreFragments : ℕ} (fragoff : ℕ) (rest : List UInt8)
    (hflags : moreFragments = flagMf ∨ moreFragments = flagNf) :
    wireFragoff (ipHeader cfg st env optlen datalen moreFragments fragoff ++ rest) =
      moreFragments + fragoff % 65536 / 8 := by
  have hoff : fragoff % 65536 / 8 < 2 ^ 13 := by omega
  have hor : moreFragments ||| fragoff % 65536 / 8 = moreFragments + fragoff % 65536 / 8 := by
    rcases hflags with rfl | rfl
    · exact (Nat.two_pow_add_eq_or_of_lt hoff 1).symm
    · exact (Nat.two_pow_add_eq_or_of_lt hoff 0).symm
  have hlt : moreFragments + fragoff % 65536 / 8 < 65536 := by
    rcases hflags with rfl | rfl
    · exact Nat.lt_of_lt_of_le (Nat.add_lt_add_left hoff flagMf) (by decide)
    · exact Nat.lt_of_lt_of_le (Nat.add_lt_add_left hoff flagNf) (by decide)
  have hread : wireFragoff (ipHeader cfg st env optlen datalen moreFragments fragoff ++ rest) =
      be16 (UInt8.ofNat ((moreFragments ||| fragoff % 65536 / 8) / 256))
        (UInt8.ofNat (moreFragments ||| fragoff % 65536 / 8)) := rfl
  rw [hread, be16_putBe16, hor, Nat.mod_eq_of_lt hlt]

/-- The header length, read back. -/
theorem wireHdrlen_ipHeader (cfg : SendConfig) (st : SendState) (env : SendEnv)
    {optlen : ℕ} (hle : optlen ≤ 40) (hdvd : 4 ∣ optlen) (datalen moreFragments fragoff : ℕ)
    (rest : List UInt8) :
    wireHdrlen (ipHeader cfg st env optlen datalen moreFragments fragoff ++ rest) = 20 + optlen := by
  have hread : wireHdrlen (ipHeader cfg st env optlen datalen moreFragments fragoff ++ rest) =
      4 * ((UInt8.ofNat (4 * 16 + (20 + optlen + 3) / 4 % 16)).toNat % 16) := rfl
  rw [hread, UInt8.toNat_ofNat']
  omega

/-- A call of `send_ip` changes nothing of the fragmentation. -/
theorem sendIp_keep (cfg : SendConfig) (st : SendState) (env : SendEnv) (options data : List UInt8)
    (moreFragments fragoff : ℕ) :
    (sendIp cfg st env options data moreFragments fragoff).2.virtualMtu = st.virtualMtu ∧
      (sendIp cfg st env options data moreFragments fragoff).2.optFragment = st.optFragment := by
  rw [sendIp]
  dsimp only
  split_ifs
  · exact ⟨rfl, rfl⟩
  · exact ⟨rfl, rfl⟩

/-- **What a call of `send_ip` is**, and what it leaves as it was. -/
theorem sendIp_spec (cfg : SendConfig) (st : SendState) (env : SendEnv) {options : List UInt8}
    (hle : options.length ≤ 40) (hdvd : 4 ∣ options.length) {packet : List UInt8} {n : ℕ}
    {moreFragments fragoff : ℕ} (hn : fragoff + n ≤ packet.length)
    (hflags : moreFragments = flagMf ∨ moreFragments = flagNf) :
    let r := sendIp cfg st env options (slice packet (fragoff, n)) moreFragments fragoff
    IsSent options.length packet r.1 ∧ r.1.data.length = n ∧ r.1.fragoff = fragoff ∧
      r.1.flags = moreFragments ∧ r.2.virtualMtu = st.virtualMtu ∧
      r.2.optFragment = st.optFragment := by
  intro r
  have hlen : (slice packet (fragoff, n)).length = n := by
    rw [slice, List.length_take, List.length_drop]
    exact Nat.min_eq_left (by dsimp only; omega)
  have hwire : r.1.wire = ipHeader cfg st env options.length (slice packet (fragoff, n)).length
      moreFragments fragoff ++ (options ++ slice packet (fragoff, n)) := List.append_assoc _ _ _
  refine ⟨⟨?_, ?_, ?_⟩, hlen, rfl, rfl, sendIp_keep cfg st env options _ _ _⟩
  · exact congrArg (fun m => slice packet (fragoff, m)) hlen.symm
  · rw [hwire, List.length_append, length_ipHeader, List.length_append, Nat.add_assoc]
    rfl
  · have hmore : decide ((moreFragments + fragoff % 65536 / 8) / 8192 % 2 = 1) =
        decide (moreFragments = flagMf) := by
      rcases hflags with rfl | rfl
      · rw [decide_eq_decide, flagMf]
        omega
      · rw [decide_eq_decide, flagNf, flagMf]
        omega
    have hoff : (moreFragments + fragoff % 65536 / 8) % 8192 = fragoff % 65536 / 8 := by
      rcases hflags with rfl | rfl
      · rw [flagMf]
        omega
      · rw [flagNf]
        omega
    have hdrop : r.1.wire.drop (20 + options.length) = slice packet (fragoff, n) := by
      rw [hwire, ← List.append_assoc]
      refine List.drop_left' ?_
      rw [List.length_append, length_ipHeader]
    rw [Sent.fragment, wireFragment, hwire, wireFragoff_ipHeader cfg st env _ _ _ _ hflags,
      wireHdrlen_ipHeader cfg st env hle hdvd, hmore, hoff, ← hwire, hdrop]
    rfl

/-! ### The slices of a packet -/

/-- The place of a slice. -/
def Sent.seg (s : Sent) : ℕ × ℕ := (s.fragoff, s.data.length)

/-- A packet is cut, from some place of it to its end, in slices of one size and a last one. -/
structure IsCut (optlen virtualMtu : ℕ) (packet : List UInt8) (start : ℕ) (init : List Sent)
    (last : Sent) : Prop where
  sent : ∀ s ∈ init ++ [last], IsSent optlen packet s
  tiles : Tiles start packet.length ((init ++ [last]).map Sent.seg)
  init : ∀ s ∈ init, s.data.length = virtualMtu ∧ s.flags = flagMf
  last : last.data.length ≤ virtualMtu ∧ (start < packet.length → 1 ≤ last.data.length) ∧
    last.flags = flagNf

/-- One slice in front. -/
theorem IsCut.cons {optlen virtualMtu : ℕ} {packet : List UInt8} {init : List Sent} {s last : Sent}
    (hs : IsSent optlen packet s) (hdata : s.data.length = virtualMtu) (hflags : s.flags = flagMf)
    (hlt : s.fragoff + virtualMtu < packet.length)
    (h : IsCut optlen virtualMtu packet (s.fragoff + virtualMtu) init last) :
    IsCut optlen virtualMtu packet s.fragoff (s :: init) last where
  sent := by
    intro t ht
    rcases List.mem_cons.mp ht with rfl | ht
    · exact hs
    · exact h.sent t ht
  tiles := by
    refine ⟨rfl, ?_⟩
    rw [hdata]
    exact h.tiles
  init := by
    intro t ht
    rcases List.mem_cons.mp ht with rfl | ht
    · exact ⟨hdata, hflags⟩
    · exact h.init t ht
  last := ⟨h.last.1, fun _ => h.last.2.1 hlt, h.last.2.2⟩

/-- **The loop ends**, and what it has sent cuts the packet. -/
theorem sendFragments_spec (cfg : SendConfig) (env : SendEnv) {options packet : List UInt8}
    (hle : options.length ≤ 40) (hdvd : 4 ∣ options.length) {fuel : ℕ} {st : SendState}
    {remainder fragOffset : ℕ} (hmtu : 1 ≤ st.virtualMtu) (hfuel : remainder < fuel)
    (hsize : fragOffset + remainder = packet.length) :
    ∃ init last st', sendFragments cfg env options packet fuel st remainder fragOffset =
        some (init ++ [last], st') ∧
      IsCut options.length st.virtualMtu packet fragOffset init last ∧
      st'.virtualMtu = st.virtualMtu ∧ st'.optFragment = st.optFragment := by
  induction fuel generalizing st remainder fragOffset with
  | zero => omega
  | succ fuel ih =>
    rw [sendFragments]
    by_cases hlast : remainder ≤ st.virtualMtu
    · rw [if_pos hlast]
      obtain ⟨hsent, hdata, hoff, hflags, hkeep⟩ :=
        sendIp_spec cfg st env hle hdvd hsize.le (Or.inr rfl)
      refine ⟨[], _, _, rfl, ⟨?_, ?_, ?_, ?_⟩, hkeep⟩
      · rintro s hs
        exact List.mem_singleton.mp hs ▸ hsent
      · refine ⟨hoff, ?_⟩
        rw [hdata]
        exact hsize
      · rintro s hs
        exact absurd hs List.not_mem_nil
      · rw [hdata]
        exact ⟨hlast, fun hlt => by omega, hflags⟩
    · rw [if_neg hlast]
      have hroom : fragOffset + st.virtualMtu ≤ packet.length := by omega
      obtain ⟨hsent, hdata, hoff, hflags, hvirtual, hfragment⟩ :=
        sendIp_spec cfg st env hle hdvd hroom (Or.inl rfl)
      set r := sendIp cfg st env options (slice packet (fragOffset, st.virtualMtu)) flagMf fragOffset
      have hmtu' : 1 ≤ r.2.virtualMtu := hvirtual ▸ hmtu
      have hfuel' : remainder - st.virtualMtu < fuel := by omega
      have hsize' : fragOffset + st.virtualMtu + (remainder - st.virtualMtu) = packet.length := by
        omega
      obtain ⟨init, last, st', hrest, hcut, hvirtual', hfragment'⟩ := ih hmtu' hfuel' hsize'
      rw [hvirtual] at hcut hvirtual'
      refine ⟨r.1 :: init, last, st', ?_, hcut.cons hsent hdata hflags ?_, hvirtual',
        hfragment'.trans hfragment⟩
      · dsimp only
        rw [hrest]
        rfl
      · omega

/-- Fragmentation that is on stays as it is. -/
theorem SendState.prepare_of_on {st : SendState} (h : st.optFragment = true) (cfg : SendConfig)
    (size : ℕ) : (st.prepare cfg size).optFragment = true ∧
      (st.prepare cfg size).virtualMtu = st.virtualMtu := by
  rw [SendState.prepare, if_neg (by simp [h])]
  exact ⟨h, rfl⟩

/-- What fits is not cut. -/
theorem SendState.prepare_of_fits {cfg : SendConfig} {st : SendState} (h : st.optFragment = false)
    {size : ℕ} (hfits : size + (ipOptBuild st.routes.1).optlen + 20 < cfg.hIfMtu.toNat) :
    (st.prepare cfg size).optFragment = false := by
  rw [SendState.prepare, if_neg (by simpa [h] using hfits)]
  exact h

/-- **What does not fit is cut from now on**, into slices that take the room of the interface
less a header, rounded down to eight bytes. -/
theorem SendState.prepare_of_large {cfg : SendConfig} {st : SendState} (h : st.optFragment = false)
    {size : ℕ} (hlarge : cfg.hIfMtu.toNat ≤ size + (ipOptBuild st.routes.1).optlen + 20)
    (hmtu : 20 ≤ cfg.hIfMtu.toNat) : (st.prepare cfg size).optFragment = true ∧
      (st.prepare cfg size).virtualMtu = cfg.hIfMtu.toNat - 20 - (cfg.hIfMtu.toNat - 20) % 8 := by
  have hsub : (cfg.hIfMtu - 20).toNat = cfg.hIfMtu.toNat - 20 :=
    UInt32.toNat_sub_of_le _ _ (UInt32.le_iff_toNat_le.mpr hmtu)
  rw [SendState.prepare, if_pos (by simpa [h] using hlarge)]
  exact ⟨rfl, by dsimp only; rw [hsub]⟩

/-- With fragmentation off, the packet is sent in one piece. -/
theorem sendIpHandler_of_off {cfg : SendConfig} (env : SendEnv) {st : SendState}
    {packet : List UInt8} (fuel : ℕ) (hoff : (st.prepare cfg packet.length).optFragment = false) :
    ∃ flags, sendIpHandler cfg env fuel st packet =
      some ([(sendIp cfg (st.prepare cfg packet.length) env (ipOptBuild st.routes.1).options packet
          flags cfg.ipFragOffset).1],
        (sendIp cfg (st.prepare cfg packet.length) env (ipOptBuild st.routes.1).options packet
          flags cfg.ipFragOffset).2) := by
  rw [sendIpHandler]
  dsimp only
  rw [if_pos (by rw [hoff]; rfl)]
  exact ⟨_, rfl⟩

/-- **The handler sends one datagram, or goes through its loop.** -/
theorem sendIpHandler_cases {cfg : SendConfig} {env : SendEnv} {fuel : ℕ} {st st' : SendState}
    {packet : List UInt8} {sent : List Sent}
    (h : sendIpHandler cfg env fuel st packet = some (sent, st')) :
    ((st.prepare cfg packet.length).optFragment = false ∧ ∃ flags,
      sent = [(sendIp cfg (st.prepare cfg packet.length) env (ipOptBuild st.routes.1).options packet
        flags cfg.ipFragOffset).1] ∧
      st' = (sendIp cfg (st.prepare cfg packet.length) env (ipOptBuild st.routes.1).options packet
        flags cfg.ipFragOffset).2) ∨
    ((st.prepare cfg packet.length).optFragment = true ∧
      sendFragments cfg env (ipOptBuild st.routes.1).options packet fuel
        (st.prepare cfg packet.length) packet.length 0 = some (sent, st')) := by
  rcases Bool.eq_false_or_eq_true (st.prepare cfg packet.length).optFragment with hon | hoff
  · refine Or.inr ⟨hon, ?_⟩
    rw [sendIpHandler] at h
    dsimp only at h
    rwa [if_neg (by rw [hon]; decide)] at h
  · obtain ⟨flags, hsend⟩ := sendIpHandler_of_off env fuel hoff
    rw [h] at hsend
    obtain ⟨hsent, hst'⟩ := Prod.mk.inj (Option.some.inj hsend)
    exact Or.inl ⟨hoff, flags, hsent, hst'⟩

/-- With fragmentation on, the handler is its loop. -/
theorem sendIpHandler_spec (cfg : SendConfig) (env : SendEnv) {st : SendState}
    {packet : List UInt8} (hon : (st.prepare cfg packet.length).optFragment = true)
    (hmtu : 1 ≤ (st.prepare cfg packet.length).virtualMtu) {fuel : ℕ}
    (hfuel : packet.length < fuel) :
    ∃ init last st', sendIpHandler cfg env fuel st packet = some (init ++ [last], st') ∧
      IsCut (ipOptBuild st.routes.1).optlen st'.virtualMtu packet 0 init last ∧
      st'.virtualMtu = (st.prepare cfg packet.length).virtualMtu ∧ st'.optFragment = true := by
  obtain ⟨-, -, hle, hdvd, -, -⟩ := ipOptBuild_spec st.routes.2
  obtain ⟨init, last, st', hsend, hcut, hvirtual, hfragment⟩ :=
    sendFragments_spec cfg env hle hdvd hmtu hfuel (Nat.zero_add packet.length)
  refine ⟨init, last, st', ?_, ?_, hvirtual, hfragment.trans hon⟩
  · rw [sendIpHandler]
    dsimp only
    rw [if_neg (by rw [hon]; decide), hsend]
  · rw [hvirtual, ← length_options_ipOptBuild]
    exact hcut

/-- The whole packet in the slices. -/
theorem IsCut.flatten {optlen virtualMtu : ℕ} {packet : List UInt8} {init : List Sent} {last : Sent}
    (h : IsCut optlen virtualMtu packet 0 init last) :
    ((init ++ [last]).map Sent.data).flatten = packet := by
  have hdata : (init ++ [last]).map Sent.data =
      ((init ++ [last]).map Sent.seg).map (slice packet) := by
    rw [List.map_map]
    exact List.map_congr_left fun s hs => (h.sent s hs).data
  rw [hdata, h.tiles.flatten_slice, Nat.sub_zero, List.drop_zero, List.take_length]

/-- **The slices partition the packet.** With fragmentation on, or activated by a packet that is
too large for its interface, the loop ends; the slices tile the packet and put together they are
the packet, all of them but the last have one size, and that one is no larger and not empty; all
of them but the last say that there are more. -/
theorem fragments_tile (cfg : SendConfig) (env : SendEnv) {st : SendState} {packet : List UInt8}
    (hne : packet ≠ [])
    (hfragment : st.optFragment = true ∧ 1 ≤ st.virtualMtu ∨
      st.optFragment = false ∧ 28 ≤ cfg.hIfMtu.toNat ∧
        cfg.hIfMtu.toNat ≤ packet.length + (ipOptBuild st.routes.1).optlen + 20)
    {fuel : ℕ} (hfuel : packet.length < fuel) :
    ∃ init last st', sendIpHandler cfg env fuel st packet = some (init ++ [last], st') ∧
      Tiles 0 packet.length ((init ++ [last]).map Sent.seg) ∧
      ((init ++ [last]).map Sent.data).flatten = packet ∧
      (((init ++ [last]).map Sent.seg).map Prod.snd).sum = packet.length ∧
      (∀ s ∈ init, s.data.length = st'.virtualMtu ∧ s.flags = flagMf ∧
        s.fragment.more = true) ∧
      1 ≤ last.data.length ∧ last.data.length ≤ st'.virtualMtu ∧ last.flags = flagNf ∧
      last.fragment.more = false ∧
      (st.optFragment = true → st'.virtualMtu = st.virtualMtu) := by
  have hprepare : (st.prepare cfg packet.length).optFragment = true ∧
      1 ≤ (st.prepare cfg packet.length).virtualMtu ∧
      (st.optFragment = true → (st.prepare cfg packet.length).virtualMtu = st.virtualMtu) := by
    rcases hfragment with ⟨hon, hmtu⟩ | ⟨hoff, hmtu, hlarge⟩
    · obtain ⟨hon', hvirtual⟩ := SendState.prepare_of_on hon cfg packet.length
      exact ⟨hon', hvirtual ▸ hmtu, fun _ => hvirtual⟩
    · obtain ⟨hon', hvirtual⟩ := SendState.prepare_of_large hoff hlarge (by omega)
      refine ⟨hon', by rw [hvirtual]; omega, fun hon => ?_⟩
      rw [hoff] at hon
      exact absurd hon Bool.false_ne_true
  obtain ⟨hon, hmtu, hvirtual⟩ := hprepare
  obtain ⟨init, last, st', hsend, hcut, hvirtual', -⟩ := sendIpHandler_spec cfg env hon hmtu hfuel
  have hsum := hcut.tiles.sum_eq
  rw [Nat.zero_add] at hsum
  refine ⟨init, last, st', hsend, hcut.tiles, hcut.flatten, hsum, fun s hs => ?_,
    hcut.last.2.1 (List.length_pos_of_ne_nil hne), hcut.last.1, hcut.last.2.2, ?_,
    fun hon => hvirtual'.trans (hvirtual hon)⟩
  · obtain ⟨hlen, hflags⟩ := hcut.init s hs
    refine ⟨hlen, hflags, ?_⟩
    rw [(hcut.sent s (List.mem_append_left _ hs)).fragment]
    exact decide_eq_true hflags
  · rw [(hcut.sent last (List.mem_append_right _ List.mem_cons_self)).fragment, hcut.last.2.2]
    rfl

/-- A TCP probe from 10.0.0.1 to 10.0.0.2 over an interface of some MTU. -/
def SendConfig.tcp (hIfMtu : UInt32) : SendConfig where
  ipTos := 0
  ipFragOffset := 0
  srcTtl := 64
  optRawipmode := false
  rawIpProtocol := 0
  optIcmpmode := false
  optUdpmode := false
  optSafe := false
  optRandDest := false
  optRandSource := false
  saddr := ⟨[10, 0, 0, 1], rfl⟩
  daddr := ⟨[10, 0, 0, 2], rfl⟩
  hIfMtu := hIfMtu

/-- `--mtu`, with no options in the header. -/
def SendState.mtu (virtualMtu : ℕ) : SendState where
  routes := ⟨RouteConfig.init, RouteConfig.ok_init⟩
  virtualMtu := virtualMtu
  optFragment := true
  optMf := false
  optDf := false
  srcId := -1

/-- `--rroute`, and nothing of fragmentation. -/
def SendState.rroute : SendState where
  routes := ⟨{ RouteConfig.init with optRroute := true },
    ⟨List.length_replicate, List.length_replicate, RouteConfig.ok_init.lsr,
      RouteConfig.ok_init.ssr⟩⟩
  virtualMtu := 16
  optFragment := false
  optMf := false
  optDf := false
  srcId := -1

/-- All goes well. -/
def SendEnv.quiet : SendEnv where
  pid := 1
  rand := 1
  eofReached := false
  sendto := fun _ => true

/-- Twenty bytes are cut in a slice of 16 bytes and one of 4. -/
theorem fragments_tile_twenty : ∃ init last st',
    sendIpHandler (.tcp 1500) .quiet 21 (.mtu 16) (List.replicate 20 0) =
      some (init ++ [last], st') ∧
    ((init ++ [last]).map Sent.data).flatten = List.replicate 20 0 := by
  have hon : (SendState.mtu 16).optFragment = true ∧ 1 ≤ (SendState.mtu 16).virtualMtu :=
    ⟨rfl, by decide⟩
  have hne : List.replicate 20 (0 : UInt8) ≠ [] := by decide
  have hfuel : (List.replicate 20 (0 : UInt8)).length < 21 := by decide
  obtain ⟨init, last, st', hsend, -, hflatten, -⟩ :=
    fragments_tile (.tcp 1500) .quiet hne (Or.inl hon) hfuel
  exact ⟨init, last, st', hsend, hflatten⟩

/-! ### The fragments put together again -/

/-- The slices are at multiples of eight if their size is one, or if there is one slice only. -/
theorem IsCut.dvd_fragoff {optlen virtualMtu : ℕ} {packet : List UInt8} {init : List Sent}
    {last : Sent} (h : IsCut optlen virtualMtu packet 0 init last) (hmtu : 1 ≤ virtualMtu)
    (hsize : packet.length ≤ virtualMtu ∨ 8 ∣ virtualMtu) {s : Sent} (hs : s ∈ init ++ [last]) :
    8 ∣ s.fragoff := by
  have htiles := h.tiles
  rw [List.map_append, List.map_singleton] at htiles
  have hlen : ∀ t ∈ init.map Sent.seg, t.2 = virtualMtu := by
    intro t ht
    obtain ⟨s', hs', rfl⟩ := List.mem_map.mp ht
    exact (h.init s' hs').1
  have hseg := List.mem_map_of_mem (f := Sent.seg) hs
  rw [List.map_append, List.map_singleton] at hseg
  obtain ⟨k, hk⟩ := htiles.offset_eq hlen hseg
  have hoff : s.fragoff = virtualMtu * k := by rw [← Nat.zero_add (virtualMtu * k), ← hk]; rfl
  rcases hsize with hsize | hdvd
  · -- A second slice would start at the end of the packet, and be empty.
    obtain ⟨-, hend⟩ := htiles.mem_le hseg
    change s.fragoff + s.data.length ≤ packet.length at hend
    rcases Nat.eq_zero_or_pos k with rfl | hpos
    · rw [hoff, Nat.mul_zero]
      exact Nat.dvd_zero 8
    · have hge : virtualMtu ≤ s.fragoff := hoff ▸ Nat.le_mul_of_pos_right _ hpos
      rcases List.mem_append.mp hs with hs | hs
      · have := (h.init s hs).1
        omega
      · obtain rfl := List.mem_singleton.mp hs
        have := h.last.2.1 (by omega)
        omega
  · rw [hoff]
    exact Nat.dvd_trans hdvd (Nat.dvd_mul_right _ _)

/-- Places that are told exactly are put together to the packet. -/
theorem IsCut.reassemble_eq {optlen virtualMtu : ℕ} {packet : List UInt8} {init : List Sent}
    {last : Sent} (h : IsCut optlen virtualMtu packet 0 init last)
    (hoff : ∀ s ∈ init ++ [last], s.fragment.offset = s.fragoff) :
    reassemble ((init ++ [last]).map Sent.fragment) = some packet := by
  have hseg : ∀ s ∈ init ++ [last], s.fragment.seg = s.seg := by
    intro s hs
    rw [Fragment.seg, hoff s hs, (h.sent s hs).fragment]
    rfl
  have hmapped : init.map Sent.fragment ++ [last.fragment] = (init ++ [last]).map Sent.fragment := by
    rw [List.map_append, List.map_singleton]
  rw [← hmapped]
  refine Reassembly.reassemble_eq ?_ ?_ ?_ ?_
  · intro f hf
    obtain ⟨s, hs, rfl⟩ := List.mem_map.mp hf
    rw [(h.sent s (List.mem_append_left _ hs)).fragment]
    exact decide_eq_true (h.init s hs).2
  · rw [(h.sent last (List.mem_append_right _ List.mem_cons_self)).fragment, h.last.2.2]
    rfl
  · rw [hmapped, List.map_map]
    have hmap : (init ++ [last]).map (Fragment.seg ∘ Sent.fragment) =
        (init ++ [last]).map Sent.seg := List.map_congr_left hseg
    exact hmap ▸ h.tiles
  · rw [hmapped]
    intro f hf
    obtain ⟨s, hs, rfl⟩ := List.mem_map.mp hf
    rw [hseg s hs, (h.sent s hs).fragment]
    exact (h.sent s hs).data

/-- **A size that is not a multiple of eight** makes the first two fragments overlap. -/
theorem IsCut.overlap {optlen virtualMtu : ℕ} {packet : List UInt8} {init : List Sent}
    {last : Sent} (h : IsCut optlen virtualMtu packet 0 init last) (hpacket : packet.length ≤ 65535)
    (hlt : virtualMtu < packet.length) (hdvd : ¬8 ∣ virtualMtu) :
    (∃ s ∈ init ++ [last], s.fragment.offset ≠ s.fragoff) ∧
      reassemble ((init ++ [last]).map Sent.fragment) ≠ some packet := by
  have htiles := h.tiles
  have hsum := htiles.sum_eq
  rw [Nat.zero_add, List.map_map] at hsum
  have hlen : ((init ++ [last]).map fun s => s.fragment.data.length).sum =
      packet.length := by
    rw [← hsum]
    refine congrArg List.sum (List.map_congr_left fun s hs => ?_)
    rw [(h.sent s hs).fragment]
    rfl
  -- There are two slices at least, and the second one starts where the first one ends.
  obtain ⟨f, g, rest, heq, hf, hg, hflen, hglen, hfoff, hgoff⟩ : ∃ f g rest,
      init ++ [last] = f :: g :: rest ∧ f ∈ init ++ [last] ∧ g ∈ init ++ [last] ∧
      f.data.length = virtualMtu ∧ 1 ≤ g.data.length ∧ f.fragoff = 0 ∧
      g.fragoff = virtualMtu := by
    cases init with
    | nil =>
      have hend := htiles.2
      obtain ⟨hzero, -⟩ := htiles
      change 0 + last.data.length = packet.length at hend
      have := h.last.1
      omega
    | cons f init =>
      obtain ⟨hzero, htiles⟩ := htiles
      have hflen := (h.init f List.mem_cons_self).1
      cases init with
      | nil =>
        obtain ⟨hoff, -⟩ := htiles
        refine ⟨f, last, [], rfl, List.mem_cons_self, by simp, hflen, h.last.2.1 (by omega), hzero,
          ?_⟩
        exact hoff.trans (by rw [hflen, Nat.zero_add])
      | cons g init =>
        obtain ⟨hoff, -⟩ := htiles
        refine ⟨f, g, init ++ [last], rfl, List.mem_cons_self, by simp, hflen, ?_, hzero, ?_⟩
        · rw [(h.init g (by simp)).1]
          exact Nat.pos_of_ne_zero fun hmtu => hdvd (hmtu ▸ Nat.dvd_zero 8)
        · exact hoff.trans (by rw [hflen, Nat.zero_add])
  have hgwire := (h.sent g hg).fragment
  have hfwire := (h.sent f hf).fragment
  rw [hgoff, Nat.mod_eq_of_lt (by omega)] at hgwire
  rw [hfoff] at hfwire
  have hround : 8 * (virtualMtu / 8) < virtualMtu := by omega
  refine ⟨⟨g, hg, ?_⟩, fun hreassemble => ?_⟩
  · rw [hgwire, hgoff]
    exact hround.ne
  · rw [heq] at hreassemble hlen
    have hshort := length_lt_of_overlap (i := 8 * (virtualMtu / 8)) hreassemble
      (by rw [hfwire, Fragment.Covers]; dsimp only; omega)
      (by rw [hgwire, Fragment.Covers]; dsimp only; omega)
    rw [← List.map_cons, ← List.map_cons, List.map_map] at hshort
    exact absurd hlen.symm hshort.ne

/-- **The fragments of a size the user asks for**: their places are told exactly, and they
reassemble to the packet, if and only if there is one only or their size is a multiple of
eight. -/
theorem fragments_reassemble (cfg : SendConfig) (env : SendEnv) {st : SendState}
    {packet : List UInt8} (hfragment : st.optFragment = true) (hmtu : 1 ≤ st.virtualMtu)
    (hpacket : packet.length ≤ 65535) {fuel : ℕ} (hfuel : packet.length < fuel) :
    ∃ sent st', sendIpHandler cfg env fuel st packet = some (sent, st') ∧
      (reassemble (sent.map Sent.fragment) = some packet ↔
        packet.length ≤ st.virtualMtu ∨ 8 ∣ st.virtualMtu) ∧
      ((∀ s ∈ sent, s.fragment.offset = s.fragoff) ↔
        packet.length ≤ st.virtualMtu ∨ 8 ∣ st.virtualMtu) := by
  obtain ⟨hon, hvirtual⟩ := SendState.prepare_of_on hfragment cfg packet.length
  obtain ⟨init, last, st', hsend, hcut, hvirtual', -⟩ :=
    sendIpHandler_spec cfg env hon (hvirtual ▸ hmtu) hfuel
  rw [hvirtual'.trans hvirtual] at hcut
  refine ⟨init ++ [last], st', hsend, ?_⟩
  by_cases hsize : packet.length ≤ st.virtualMtu ∨ 8 ∣ st.virtualMtu
  · have hoff : ∀ s ∈ init ++ [last], s.fragment.offset = s.fragoff := by
      intro s hs
      obtain ⟨k, hk⟩ := hcut.dvd_fragoff hmtu hsize hs
      have hend := (hcut.tiles.mem_le (List.mem_map_of_mem (f := Sent.seg) hs)).2
      change s.fragoff + s.data.length ≤ packet.length at hend
      rw [(hcut.sent s hs).fragment]
      dsimp only
      omega
    exact ⟨iff_of_true (hcut.reassemble_eq hoff) hsize, iff_of_true hoff hsize⟩
  · obtain ⟨hlt, hdvd⟩ := not_or.mp hsize
    obtain ⟨⟨s, hs, hne⟩, hreassemble⟩ := hcut.overlap hpacket (Nat.lt_of_not_le hlt) hdvd
    exact ⟨iff_of_false hreassemble hsize, iff_of_false (fun hoff => hne (hoff s hs)) hsize⟩

/-- Fragments of one byte all go to the same place. -/
theorem fragments_overlap_one : ∃ sent st',
    sendIpHandler (.tcp 1500) .quiet 3 (.mtu 1) [1, 2] = some (sent, st') ∧
      sent.map Sent.fragoff = [0, 1] ∧
      sent.map Sent.fragment = [⟨0, true, [1]⟩, ⟨0, false, [2]⟩] ∧
      reassemble (sent.map Sent.fragment) ≠ some [1, 2] := by
  refine ⟨_, _, rfl, rfl, by decide, by decide⟩

/-- Fragments of eight bytes are put together again. -/
theorem fragments_reassemble_eight : ∃ sent st',
    sendIpHandler (.tcp 1500) .quiet 13 (.mtu 8) (List.replicate 12 7) = some (sent, st') ∧
      reassemble (sent.map Sent.fragment) = some (List.replicate 12 7) := by
  have hon : (SendState.mtu 8).optFragment = true := rfl
  have hfuel : (List.replicate 12 (7 : UInt8)).length < 13 := by decide
  obtain ⟨sent, st', hsend, hreassemble, -⟩ :=
    fragments_reassemble (.tcp 1500) .quiet hon (by decide) (by decide) hfuel
  exact ⟨sent, st', hsend, hreassemble.mpr (Or.inr (by decide))⟩

/-! ### The room of the interface -/

/-- The states that sending comes to when fragmentation is not asked for. -/
inductive AutoState (cfg : SendConfig) : SendState → Prop
  | start {st : SendState} (h : st.optFragment = false) : AutoState cfg st
  | send {st st' : SendState} {env : SendEnv} {fuel : ℕ} {packet : List UInt8} {sent : List Sent}
      (h : AutoState cfg st) (hsend : sendIpHandler cfg env fuel st packet = some (sent, st')) :
      AutoState cfg st'

/-- **The loop as an induction**: a last slice that fits, or one in front of the others. -/
theorem sendFragments_induction {cfg : SendConfig} {env : SendEnv} {options packet : List UInt8}
    {P : SendState → ℕ → ℕ → List Sent → SendState → Prop}
    (hlast : ∀ st remainder fragOffset, remainder ≤ st.virtualMtu →
      P st remainder fragOffset
        [(sendIp cfg st env options (slice packet (fragOffset, remainder)) flagNf fragOffset).1]
        (sendIp cfg st env options (slice packet (fragOffset, remainder)) flagNf fragOffset).2)
    (hcut : ∀ st remainder fragOffset rest st', st.virtualMtu < remainder →
      P (sendIp cfg st env options (slice packet (fragOffset, st.virtualMtu)) flagMf fragOffset).2
        (remainder - st.virtualMtu) (fragOffset + st.virtualMtu) rest st' →
      P st remainder fragOffset
        ((sendIp cfg st env options (slice packet (fragOffset, st.virtualMtu)) flagMf fragOffset).1 ::
          rest) st')
    {fuel : ℕ} {st st' : SendState} {remainder fragOffset : ℕ} {sent : List Sent}
    (h : sendFragments cfg env options packet fuel st remainder fragOffset = some (sent, st')) :
    P st remainder fragOffset sent st' := by
  induction fuel generalizing st remainder fragOffset sent with
  | zero => exact absurd h (Option.some_ne_none _).symm
  | succ fuel ih =>
    rw [sendFragments] at h
    by_cases hle : remainder ≤ st.virtualMtu
    · rw [if_pos hle] at h
      obtain ⟨rfl, rfl⟩ := Prod.mk.inj (Option.some.inj h)
      exact hlast st remainder fragOffset hle
    · rw [if_neg hle] at h
      obtain ⟨⟨rest, st''⟩, hrest, heq⟩ := Option.map_eq_some_iff.mp h
      obtain ⟨rfl, rfl⟩ := Prod.mk.inj heq
      exact hcut st remainder fragOffset rest st'' (Nat.lt_of_not_le hle) (ih hrest)

/-- The loop changes nothing of the fragmentation. -/
theorem sendFragments_keep {cfg : SendConfig} {env : SendEnv} {options packet : List UInt8}
    {fuel : ℕ} {st st' : SendState} {remainder fragOffset : ℕ} {sent : List Sent}
    (h : sendFragments cfg env options packet fuel st remainder fragOffset = some (sent, st')) :
    st'.virtualMtu = st.virtualMtu ∧ st'.optFragment = st.optFragment := by
  refine sendFragments_induction (P := fun st _ _ _ st' =>
    st'.virtualMtu = st.virtualMtu ∧ st'.optFragment = st.optFragment) ?_ ?_ h
  · intro st remainder fragOffset _
    exact sendIp_keep cfg st env options _ _ _
  · rintro st remainder fragOffset rest st' _ ⟨hvirtual, hfragment⟩
    obtain ⟨hvirtual', hfragment'⟩ := sendIp_keep cfg st env options _ _ _
    exact ⟨hvirtual.trans hvirtual', hfragment.trans hfragment'⟩

/-- **Fragmentation that is not asked for** is off, or takes the room of the interface. -/
theorem AutoState.virtualMtu_eq {cfg : SendConfig} (hmtu : 20 ≤ cfg.hIfMtu.toNat) {st : SendState}
    (h : AutoState cfg st) : st.optFragment = false ∨ st.optFragment = true ∧
      st.virtualMtu = cfg.hIfMtu.toNat - 20 - (cfg.hIfMtu.toNat - 20) % 8 := by
  induction h with
  | start h => exact Or.inl h
  | @send st st' env fuel packet sent _ hsend ih =>
    have hprepare : (st.prepare cfg packet.length).optFragment = false ∨
        (st.prepare cfg packet.length).optFragment = true ∧
          (st.prepare cfg packet.length).virtualMtu =
            cfg.hIfMtu.toNat - 20 - (cfg.hIfMtu.toNat - 20) % 8 := by
      rcases ih with hoff | ⟨hon, hvirtual⟩
      · by_cases hlarge : cfg.hIfMtu.toNat ≤ packet.length + (ipOptBuild st.routes.1).optlen + 20
        · exact Or.inr (SendState.prepare_of_large hoff hlarge hmtu)
        · exact Or.inl (SendState.prepare_of_fits hoff (Nat.lt_of_not_le hlarge))
      · obtain ⟨hon', hvirtual'⟩ := SendState.prepare_of_on hon cfg packet.length
        exact Or.inr ⟨hon', hvirtual'.trans hvirtual⟩
    rcases sendIpHandler_cases hsend with ⟨hoff, flags, -, rfl⟩ | ⟨hon, hloop⟩
    · exact Or.inl ((sendIp_keep cfg _ env _ _ _ _).2.trans hoff)
    · rcases hprepare with hoff | ⟨-, hvirtual⟩
      · exact absurd (hoff.symm.trans hon) Bool.false_ne_true
      · obtain ⟨hvirtual', hfragment'⟩ := sendFragments_keep hloop
        exact Or.inr ⟨hfragment'.trans hon, hvirtual'.trans hvirtual⟩

/-- The largest of the slices. -/
theorem IsCut.length_le_iff {optlen virtualMtu : ℕ} {packet : List UInt8} {init : List Sent}
    {last : Sent} (h : IsCut optlen virtualMtu packet 0 init last) (n : ℕ) :
    (∀ s ∈ init ++ [last], s.data.length ≤ n) ↔ min packet.length virtualMtu ≤ n := by
  have hle : ∀ s ∈ init ++ [last], s.data.length ≤ packet.length ∧ s.data.length ≤ virtualMtu := by
    intro s hs
    obtain ⟨-, hend⟩ := h.tiles.mem_le (List.mem_map_of_mem (f := Sent.seg) hs)
    change s.fragoff + s.data.length ≤ packet.length at hend
    refine ⟨by omega, ?_⟩
    rcases List.mem_append.mp hs with hs | hs
    · exact (h.init s hs).1.le
    · exact List.mem_singleton.mp hs ▸ h.last.1
  constructor
  · intro hn
    cases init with
    | nil =>
      -- One slice has it all.
      have hend : 0 + last.data.length = packet.length := h.tiles.2
      have := hn last (by simp)
      omega
    | cons s init =>
      have := hn s (by simp)
      have := (h.init s List.mem_cons_self).1
      omega
  · intro hn s hs
    have := hle s hs
    omega

/-- **The room of the interface**: when fragmentation is not asked for, the datagrams of a packet
are no longer than the interface takes if and only if the packet fits as it is, or the options fit
into what is left of the room by the rounding. -/
theorem auto_fragments_fit {cfg : SendConfig} (hmtu : 68 ≤ cfg.hIfMtu.toNat) {st : SendState}
    (hst : AutoState cfg st) (env : SendEnv) (packet : List UInt8) {fuel : ℕ}
    (hfuel : packet.length < fuel) :
    let optlen := (ipOptBuild st.routes.1).optlen
    ∃ sent st', sendIpHandler cfg env fuel st packet = some (sent, st') ∧
      (∀ s ∈ sent, s.wire.length = 20 + optlen + s.data.length) ∧
      ((∀ s ∈ sent, s.wire.length ≤ cfg.hIfMtu.toNat) ↔
        packet.length + optlen + 20 ≤ cfg.hIfMtu.toNat ∨ optlen ≤ (cfg.hIfMtu.toNat - 20) % 8) := by
  intro optlen
  have hcut : ∀ virtualMtu, (st.prepare cfg packet.length).optFragment = true →
      (st.prepare cfg packet.length).virtualMtu = virtualMtu →
      virtualMtu = cfg.hIfMtu.toNat - 20 - (cfg.hIfMtu.toNat - 20) % 8 →
      ∃ sent st', sendIpHandler cfg env fuel st packet = some (sent, st') ∧
        (∀ s ∈ sent, s.wire.length = 20 + optlen + s.data.length) ∧
        ((∀ s ∈ sent, s.wire.length ≤ cfg.hIfMtu.toNat) ↔
          packet.length + optlen + 20 ≤ cfg.hIfMtu.toNat ∨
            optlen ≤ (cfg.hIfMtu.toNat - 20) % 8) := by
    rintro virtualMtu hon hvirtual hround
    obtain ⟨init, last, st', hsend, hcut, hvirtual', -⟩ :=
      sendIpHandler_spec cfg env hon (by omega) hfuel
    have hlength : ∀ s ∈ init ++ [last], s.wire.length = 20 + optlen + s.data.length :=
      fun s hs => (hcut.sent s hs).length
    have hle : optlen ≤ 40 := (length_ipOpt_ipOptBuild _).2
    refine ⟨init ++ [last], st', hsend, hlength, ?_⟩
    have hiff : (∀ s ∈ init ++ [last], s.wire.length ≤ cfg.hIfMtu.toNat) ↔
        ∀ s ∈ init ++ [last], s.data.length ≤ cfg.hIfMtu.toNat - (20 + optlen) := by
      refine forall₂_congr fun s hs => ?_
      rw [hlength s hs]
      omega
    rw [hiff, hcut.length_le_iff, hvirtual', hvirtual, hround]
    omega
  rcases hst.virtualMtu_eq (by omega) with hoff | ⟨hon, hvirtual⟩
  · by_cases hlarge : cfg.hIfMtu.toNat ≤ packet.length + optlen + 20
    · obtain ⟨hon, hvirtual⟩ := SendState.prepare_of_large hoff hlarge (by omega)
      exact hcut _ hon hvirtual rfl
    · -- It is sent in one piece.
      have hoff' := SendState.prepare_of_fits hoff (Nat.lt_of_not_le hlarge)
      obtain ⟨flags, hsend⟩ := sendIpHandler_of_off env fuel hoff'
      have hlength : (sendIp cfg (st.prepare cfg packet.length) env
          (ipOptBuild st.routes.1).options packet flags cfg.ipFragOffset).1.wire.length =
            20 + optlen + packet.length := by
        rw [sendIp]
        dsimp only
        rw [List.length_append, List.length_append, length_ipHeader, length_options_ipOptBuild]
      refine ⟨_, _, hsend, fun s hs => ?_, iff_of_true (fun s hs => ?_) (Or.inl (by omega))⟩
      · rw [List.mem_singleton.mp hs]
        exact hlength
      · rw [List.mem_singleton.mp hs, hlength]
        omega
  · obtain ⟨hon', hvirtual'⟩ := SendState.prepare_of_on hon cfg packet.length
    exact hcut _ hon' (hvirtual'.trans hvirtual) rfl

/-- With a record route, a packet of 60 bytes is cut for an interface that takes 68 bytes into a
datagram of 108 bytes and one of 72. -/
theorem auto_fragments_overrun : ∃ sent st', AutoState (.tcp 68) .rroute ∧
    sendIpHandler (.tcp 68) .quiet 61 .rroute (List.replicate 60 0) = some (sent, st') ∧
      sent.map (fun s => s.wire.length) = [108, 72] := by
  refine ⟨_, _, .start rfl, rfl, ?_⟩
  decide

/-- With no options, the same packet is cut into datagrams that fit. -/
theorem auto_fragments_fit_plain : ∃ sent st',
    sendIpHandler (.tcp 68) .quiet 61 { SendState.mtu 16 with optFragment := false }
      (List.replicate 60 0) = some (sent, st') ∧ ∀ s ∈ sent, s.wire.length ≤ 68 := by
  have hst : AutoState (.tcp 68) { SendState.mtu 16 with optFragment := false } := .start rfl
  have hfuel : (List.replicate 60 (0 : UInt8)).length < 61 := by decide
  obtain ⟨sent, st', hsend, -, hfits⟩ := auto_fragments_fit (by decide) hst .quiet _ hfuel
  exact ⟨sent, st', hsend, hfits.mpr (Or.inr (by decide))⟩

end StyxWire.Hping.Fragments
