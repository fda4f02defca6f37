import StyxWire.Lib.OnesComplement
import StyxWire.Ars.Packet

/-!
# The checksums of the engine

The Internet checksum in one call (`StyxWire.arsCksum`) and in several
(`StyxWire.arsMultiCksum`, which is what `ars_multi_cksum` returns after `ARS_MC_INIT`,
one `ARS_MC_UPDATE` for each chunk, and `ARS_MC_FINAL`), and the two pseudo-header sums
on top of it. Sums are 32-bit unsigned integers and are kept modulo `2 ^ 32`.

A function of the source that is given a packet and a layer number reads the layers on
both sides of it. Here it is given those two sides: `before` lists the layers on the
left, the nearest first, and `after` those on the right.

The engine checks on one side what it computes on the other, over layers cut in
another way; `StyxWire.arsMultiCksum_eq` is why the two agree.
-/

namespace StyxWire

open Mem OnesComplement

/-! ### The sum of one block -/

/-- The loop of `ars_cksum`. -/
def arsCksumLoop : List UInt8 → ℕ → ℕ
  | a :: b :: p, sum => arsCksumLoop p ((sum + le16 a b) % 2 ^ 32)
  | [a], sum => (sum + le16 a 0) % 2 ^ 32
  | [], sum => sum

/-- `ars_cksum`. -/
def arsCksum (buf : List UInt8) : ℕ := 65535 - foldCarry (arsCksumLoop buf 0)

theorem arsCksumLoop_eq (buf : List UInt8) (sum : ℕ) :
    arsCksumLoop buf (sum % 2 ^ 32) = (sum + wordSum buf) % 2 ^ 32 := by
  induction buf using wordSum.induct generalizing sum with
  | case1 a b p ih =>
    rw [arsCksumLoop, wordSum, Nat.mod_add_mod, ih, Nat.add_assoc]
  | case2 a => rw [arsCksumLoop, wordSum, Nat.mod_add_mod]
  | case3 => rw [arsCksumLoop, wordSum, Nat.add_zero]

/-- The checksum depends on the sum of the words only. -/
theorem arsCksum_eq (buf : List UInt8) :
    arsCksum buf = 65535 - foldCarry (wordSum buf % 2 ^ 32) := by
  have h := arsCksumLoop_eq buf 0
  rw [Nat.zero_mod, Nat.zero_add] at h
  rw [arsCksum, h]

theorem arsCksum_lt (buf : List UInt8) : arsCksum buf < 65536 := by
  rw [arsCksum]
  omega

/-! ### The sum of several blocks -/

/-- `struct mc_context`. -/
structure McContext where
  /-- A byte of the last chunk is still to be paired. -/
  oddbyteFlag : Bool
  /-- That byte. -/
  oddbyte : UInt8
  /-- The sum so far. -/
  old : ℕ

/-- `ARS_MC_INIT`. -/
def mcInit : McContext := ⟨false, 0, 0⟩

/-- The loop of `ARS_MC_UPDATE`: the sum, and the byte left over. -/
def mcWords : List UInt8 → ℕ → ℕ × Option UInt8
  | a :: b :: p, sum => mcWords p ((sum + le16 a b) % 2 ^ 32)
  | [a], sum => (sum, some a)
  | [], sum => (sum, none)

/-- The end of `ARS_MC_UPDATE`, from the loop on. -/
def mcAdd (c : McContext) (p : List UInt8) (sum : ℕ) : McContext :=
  match mcWords p sum with
  | (sum, some b) => ⟨true, b, sum⟩
  | (sum, none) => { c with old := sum }

/-- `ARS_MC_UPDATE`: the byte left over by the previous chunk is paired with the first
byte of this one, if there is one. -/
def mcUpdate (c : McContext) (buf : List UInt8) : McContext :=
  match c.oddbyteFlag, buf with
  | true, x :: p =>
    mcAdd { c with oddbyteFlag := false } p ((c.old + le16 c.oddbyte x) % 2 ^ 32)
  | _, _ => mcAdd c buf c.old

/-- `ARS_MC_FINAL`. -/
def mcFinal (c : McContext) : ℕ :=
  65535 - foldCarry (if c.oddbyteFlag then (c.old + le16 c.oddbyte 0) % 2 ^ 32 else c.old)

/-- `ars_multi_cksum`, over a list of chunks. -/
def arsMultiCksum (chunks : List (List UInt8)) : ℕ := mcFinal (chunks.foldl mcUpdate mcInit)

/-- The context after the bytes `s`: an odd byte is put aside, and the rest is summed. -/
def McContext.After (c : McContext) (s : List UInt8) : Prop :=
  (c.oddbyteFlag = false ∧ s.length % 2 = 0 ∧ c.old = wordSum s % 2 ^ 32) ∨
    (c.oddbyteFlag = true ∧ ∃ t, s = t ++ [c.oddbyte] ∧ t.length % 2 = 0 ∧
      c.old = wordSum t % 2 ^ 32)

theorem McContext.After.mcAdd {c : McContext} {s : List UInt8} (hc : c.oddbyteFlag = false)
    (hs : s.length % 2 = 0) (p : List UInt8) :
    (mcAdd c p (wordSum s % 2 ^ 32)).After (s ++ p) := by
  induction p using wordSum.induct generalizing s with
  | case1 a b p ih =>
    have hab : (s ++ [a, b]).length % 2 = 0 := by
      simp only [List.length_append, List.length_cons, List.length_nil]
      omega
    have h := ih hab
    rw [wordSum_append hs] at h
    simp only [StyxWire.mcAdd, mcWords, Nat.mod_add_mod]
    simpa [StyxWire.mcAdd, wordSum] using h
  | case2 a => exact Or.inr ⟨rfl, s, rfl, hs, rfl⟩
  | case3 => exact Or.inl ⟨hc, by simpa using hs, by simp [StyxWire.mcAdd, mcWords]⟩

/-- **One chunk more**, whatever the parity of what came before. -/
theorem McContext.After.update {c : McContext} {s : List UInt8} (h : c.After s)
    (buf : List UInt8) : (mcUpdate c buf).After (s ++ buf) := by
  rcases h with ⟨hc, hs, hold⟩ | ⟨hc, t, rfl, ht, hold⟩
  · have hu : mcUpdate c buf = StyxWire.mcAdd c buf (wordSum s % 2 ^ 32) := by
      simp [mcUpdate, hc, hold]
    rw [hu]
    exact McContext.After.mcAdd hc hs buf
  · cases buf with
    | nil =>
      have hu : mcUpdate c [] = c := by
        simp [mcUpdate, StyxWire.mcAdd, mcWords]
      rw [hu, List.append_nil]
      exact Or.inr ⟨hc, t, rfl, ht, hold⟩
    | cons x p =>
      have hx : (t ++ [c.oddbyte, x]).length % 2 = 0 := by
        simp only [List.length_append, List.length_cons, List.length_nil]
        omega
      have hu : mcUpdate c (x :: p) = StyxWire.mcAdd { c with oddbyteFlag := false } p
          (wordSum (t ++ [c.oddbyte, x]) % 2 ^ 32) := by
        rw [wordSum_append ht]
        simp [mcUpdate, hc, hold, wordSum]
      have hsplit : t ++ [c.oddbyte] ++ x :: p = t ++ [c.oddbyte, x] ++ p := by simp
      rw [hu, hsplit]
      exact McContext.After.mcAdd rfl hx p

theorem McContext.After.final {c : McContext} {s : List UInt8} (h : c.After s) :
    mcFinal c = arsCksum s := by
  rcases h with ⟨hc, -, hold⟩ | ⟨hc, t, rfl, ht, hold⟩
  · rw [mcFinal, arsCksum_eq, hc, hold]
    simp
  · rw [mcFinal, arsCksum_eq, hc, hold, wordSum_append ht]
    simp [wordSum]

/-- **The chunks do not matter**: the checksum of several chunks is that of their
concatenation. -/
theorem arsMultiCksum_eq (chunks : List (List UInt8)) :
    arsMultiCksum chunks = arsCksum chunks.flatten := by
  have key : ∀ (cs : List (List UInt8)) (c : McContext) (s : List UInt8), c.After s →
      (cs.foldl mcUpdate c).After (s ++ cs.flatten) := by
    intro cs
    induction cs with
    | nil => intro c s h; simpa using h
    | cons b cs ih => intro c s h; simpa using ih _ _ (h.update b)
  have h := key chunks mcInit [] (Or.inl ⟨rfl, rfl, rfl⟩)
  rw [arsMultiCksum, h.final, List.nil_append]

/-! ### The pseudo headers -/

/-- `ars_relative_size`: the size of a layer and of all those that follow it. -/
def arsRelativeSize (layers : List ArsLayer) : ℕ := (layers.map ArsLayer.lSize).sum

/-- The bytes of a list of layers, as a packet. -/
def layersBytes (layers : List ArsLayer) : List UInt8 := (layers.map ArsLayer.bytes).flatten

@[simp] theorem layersBytes_nil : layersBytes [] = [] := rfl

@[simp] theorem layersBytes_cons (l : ArsLayer) (ls : List ArsLayer) :
    layersBytes (l :: ls) = l.bytes ++ layersBytes ls := rfl

@[simp] theorem layersBytes_append (ls ms : List ArsLayer) :
    layersBytes (ls ++ ms) = layersBytes ls ++ layersBytes ms := by
  simp [layersBytes]

@[simp] theorem arsRelativeSize_cons (l : ArsLayer) (ls : List ArsLayer) :
    arsRelativeSize (l :: ls) = l.lSize + arsRelativeSize ls := by
  simp [arsRelativeSize]

theorem length_layersBytes (ls : List ArsLayer) :
    (layersBytes ls).length = arsRelativeSize ls := by
  induction ls with
  | nil => rfl
  | cons l ls ih => simp [ih]

/-- The protocol number of UDP. -/
def arsIpprotoUdp : ℕ := 17
/-- The protocol number of TCP. -/
def arsIpprotoTcp : ℕ := 6
/-- The protocol number of ICMPv6. -/
def arsIpprotoIcmpv6 : ℕ := 58

/-- `struct ars_ip6_pseudohdr`: the addresses of an IPv6 header, the length of the
upper-layer packet and its protocol. -/
def arsIp6Pseudohdr (ip6 : ArsLayer) (len nexthdr : ℕ) : List UInt8 :=
  (ip6.lData.drop 8).take 32 ++ putBe32 len ++ [0, 0, 0, UInt8.ofNat nexthdr]

/-- `struct ars_pseudohdr`: the addresses of an IP header, the protocol and the length. -/
def arsPseudohdr (ip : ArsLayer) (protocol lenght : ℕ) : List UInt8 :=
  (ip.lData.drop 12).take 8 ++ [0, UInt8.ofNat protocol] ++ putBe16 lenght

/-- `ars_ip6_pseudo_cksum`, of the upper-layer packet `layers`, the RFC 8200 pseudo
header in front. The IPv6 header has to be the layer just before. -/
def arsIp6PseudoCksum (before layers : List ArsLayer) (nexthdr : ℕ) : Except ArsErr ℕ :=
  match before with
  | ip6 :: _ =>
    if ip6.lType = .ip6 then
      .ok (arsMultiCksum (arsIp6Pseudohdr ip6 (arsRelativeSize layers) nexthdr ::
        layers.map ArsLayer.bytes))
    else arsFail .invalid
      "IPv6 checksum requested, but the IPv6 header is not the previous layer"
  | [] => arsFail .invalid
      "IPv6 checksum requested, but the IPv6 header is not the previous layer"

/-- A layer is an IP option. -/
def isIpopt (l : ArsLayer) : Bool := l.lType = .ipopt

/-- The protocol number of a TCP or UDP layer. -/
def arsUdptcpProtocol (layer : ArsLayer) : ℕ :=
  if layer.lType = .tcp then arsIpprotoTcp else arsIpprotoUdp

/-- `ars_udptcp_cksum`, of the TCP or UDP packet that starts with `layer`: the pseudo
header is that of the first layer on the left that is not an IP option. -/
def arsUdptcpCksum (before : List ArsLayer) (layer : ArsLayer) (after : List ArsLayer) :
    Except ArsErr ℕ :=
  match before.dropWhile isIpopt with
  | ip :: _ =>
    if ip.lType = .ip6 then arsIp6PseudoCksum before (layer :: after) (arsUdptcpProtocol layer)
    else if ip.lType = .ip then
      .ok (arsMultiCksum
        (arsPseudohdr ip (arsUdptcpProtocol layer) (arsRelativeSize (layer :: after)) ::
          (layer :: after).map ArsLayer.bytes))
    else arsFail .invalid "TCP/UDP checksum requested, but IP header not found"
  | [] => arsFail .invalid "TCP/UDP checksum requested, but IP header not found"

theorem arsIp6PseudoCksum_cons {ip6 : ArsLayer} (h : ip6.lType = .ip6) (before : List ArsLayer)
    (layers : List ArsLayer) (nexthdr : ℕ) :
    arsIp6PseudoCksum (ip6 :: before) layers nexthdr =
      .ok (arsMultiCksum (arsIp6Pseudohdr ip6 (arsRelativeSize layers) nexthdr ::
        layers.map ArsLayer.bytes)) :=
  if_pos h

theorem arsUdptcpCksum_ip6 {ip6 : ArsLayer} (h : ip6.lType = .ip6) (before : List ArsLayer)
    (layer : ArsLayer) (after : List ArsLayer) :
    arsUdptcpCksum (ip6 :: before) layer after =
      arsIp6PseudoCksum (ip6 :: before) (layer :: after) (arsUdptcpProtocol layer) := by
  rw [arsUdptcpCksum, List.dropWhile_cons_of_neg (by simp [isIpopt, h])]
  exact if_pos h

theorem arsUdptcpCksum_ip {before rest : List ArsLayer} {ip : ArsLayer}
    (hdrop : before.dropWhile isIpopt = ip :: rest) (h : ip.lType = .ip) (layer : ArsLayer)
    (after : List ArsLayer) :
    arsUdptcpCksum before layer after =
      .ok (arsMultiCksum
        (arsPseudohdr ip (arsUdptcpProtocol layer) (arsRelativeSize (layer :: after)) ::
          (layer :: after).map ArsLayer.bytes)) := by
  rw [arsUdptcpCksum, hdrop]
  simp [h]

end StyxWire
