import StyxWire.Lib.Bytes
import StyxWire.Lib.Text

/-!
# Packets and layers

The data model of the ARS engine (`ars.h`, and the construction functions of `ars.c`).
A packet is a list of layers; the slots of `p_layer` from `p_layer_nr` on, whose type is
`ARS_TYPE_NULL`, are the end of the list, so `p_layer_nr` is its length.

## What a layer carries with it

A layer owns a block of memory, `lData`, of which the first `lSize` bytes belong to the
packet: a length suffix in a description, or the padding of an option, changes `lSize`
and not where the fields of the header are. Two facts hold of every layer the engine
builds and are fields of `StyxWire.ArsLayer`: the bytes of the layer are in its block,
and the block is large enough for the header of its type. The same for the
`ARS_MAX_LAYER` bound in `StyxWire.ArsPacket`.

The machine is little-endian (`__LITTLE_ENDIAN_BITFIELD`) with 64-bit longs, and `malloc`
does not fail.
-/

namespace StyxWire

open Mem Text

/-- `ARS_MAX_LAYER`. -/
def arsMaxLayer : ℕ := 256

/-- The `ARS_TYPE_*` of a layer in use. -/
inductive ArsType
  | ip
  | ipopt
  | icmp
  | udp
  | tcp
  | tcpopt
  | igrp
  | igrpentry
  | ip6
  | icmp6
  | data
  deriving DecidableEq, Repr

/-- The size of the header structure of a type (`sizeof(struct ars_iphdr)` and so on),
zero for the types whose layers have no fixed structure. -/
def ArsType.hdrSize : ArsType → ℕ
  | .ip => 20
  | .icmp => 8
  | .udp => 8
  | .tcp => 20
  | .igrp => 12
  | .igrpentry => 14
  | .ip6 => 40
  | .icmp6 => 8
  | .ipopt | .tcpopt | .data => 0

theorem ArsType.hdrSize_le {t : ArsType} (h : t.hdrSize = 0) (n : ℕ) : t.hdrSize ≤ n :=
  h ▸ Nat.zero_le n

/-- The error codes of the engine. -/
inductive ArsCode
  | error
  | nospace
  | nomem
  | invalid
  deriving DecidableEq, Repr

/-- What can go wrong: a failure the code reports, with the text left in `p_error`, or a
read outside the bytes a function was given, which the code does not check. -/
inductive ArsErr
  | ars (code : ArsCode) (pError : List UInt8)
  | oob
  deriving DecidableEq, Repr

/-- Report a failure of a callee under another code, `p_error` being left as it is. -/
def ArsErr.recode (code : ArsCode) : ArsErr → ArsErr
  | .ars _ msg => .ars code msg
  | .oob => .oob

/-- `return code`, after `ars_set_error(pkt, msg)`. -/
def arsFail {α : Type} (code : ArsCode) (msg : String) : Except ArsErr α :=
  .error (.ars code (lit msg))

theorem map_eq_ok {α β : Type} {x : Except ArsErr α} {f : α → β} {b : β} :
    x.map f = .ok b ↔ ∃ a, x = .ok a ∧ f a = b := by
  cases x <;> simp [Except.map]

/-! ### Reads that are checked -/

/-- Read one byte, inside the block. -/
def rdByte (b : List UInt8) (i : ℕ) : Except ArsErr UInt8 :=
  match b[i]? with
  | some x => .ok x
  | none => .error .oob

/-- `memcpy` of `n` bytes at offset `off`, inside the block. -/
def rdBytes (b : List UInt8) (off n : ℕ) : Except ArsErr (List UInt8) :=
  if off + n ≤ b.length then .ok ((b.drop off).take n) else .error .oob

theorem rdByte_eq {b : List UInt8} {i : ℕ} (h : i < b.length) : rdByte b i = .ok (b.getD i 0) := by
  rw [rdByte, List.getElem?_eq_getElem h, List.getD_eq_getElem _ _ h]

theorem rdBytes_eq {b : List UInt8} {off n : ℕ} (h : off + n ≤ b.length) :
    rdBytes b off n = .ok ((b.drop off).take n) :=
  if_pos h

/-! ### Layers -/

/-- `struct ars_layer`. -/
structure ArsLayer where
  /-- The type of the layer. -/
  lType : ArsType
  /-- How many bytes of the block belong to the packet. -/
  lSize : ℕ
  /-- The `ARS_TAKE_*` or `ARS_SPLIT_*` flags. -/
  lFlags : ℕ
  /-- The block of memory. -/
  lData : List UInt8
  /-- The bytes of the layer are in its block. -/
  size_le : lSize ≤ lData.length
  /-- The header of the type is in the block. -/
  hdr_le : lType.hdrSize ≤ lData.length
  deriving DecidableEq, Repr

namespace ArsLayer

/-- The bytes a layer contributes to the packet. -/
def bytes (l : ArsLayer) : List UInt8 := l.lData.take l.lSize

@[simp] theorem length_bytes (l : ArsLayer) : l.bytes.length = l.lSize := by
  rw [bytes, List.length_take, Nat.min_eq_left l.size_le]

/-- Byte `i` of the block; every read of the code is inside it. -/
def byte (l : ArsLayer) (i : ℕ) : UInt8 := l.lData.getD i 0

/-- Overwrite bytes of the block. -/
def write (l : ArsLayer) (off : ℕ) (src : List UInt8) : ArsLayer :=
  { l with
    lData := writeAt l.lData off src
    size_le := by simpa using l.size_le
    hdr_le := by simpa using l.hdr_le }

@[simp] theorem write_lType (l : ArsLayer) (off : ℕ) (src : List UInt8) :
    (l.write off src).lType = l.lType := rfl

@[simp] theorem write_lSize (l : ArsLayer) (off : ℕ) (src : List UInt8) :
    (l.write off src).lSize = l.lSize := rfl

@[simp] theorem write_lFlags (l : ArsLayer) (off : ℕ) (src : List UInt8) :
    (l.write off src).lFlags = l.lFlags := rfl

@[simp] theorem write_lData (l : ArsLayer) (off : ℕ) (src : List UInt8) :
    (l.write off src).lData = writeAt l.lData off src := rfl

/-- Replace the flags. -/
def setFlags (l : ArsLayer) (flags : ℕ) : ArsLayer := { l with lFlags := flags }

@[simp] theorem setFlags_lType (l : ArsLayer) (f : ℕ) : (l.setFlags f).lType = l.lType := rfl

@[simp] theorem setFlags_lSize (l : ArsLayer) (f : ℕ) : (l.setFlags f).lSize = l.lSize := rfl

@[simp] theorem setFlags_lFlags (l : ArsLayer) (f : ℕ) : (l.setFlags f).lFlags = f := rfl

@[simp] theorem setFlags_lData (l : ArsLayer) (f : ℕ) : (l.setFlags f).lData = l.lData := rfl

@[simp] theorem setFlags_bytes (l : ArsLayer) (f : ℕ) : (l.setFlags f).bytes = l.bytes := rfl

/-- Two layers with the same data are the same layer. -/
theorem ext_data {l m : ArsLayer} (ht : l.lType = m.lType) (hs : l.lSize = m.lSize)
    (hf : l.lFlags = m.lFlags) (hd : l.lData = m.lData) : l = m := by
  cases l
  cases m
  simp_all

/-- A layer whose whole block belongs to the packet. -/
def full (type : ArsType) (flags : ℕ) (data : List UInt8) (h : type.hdrSize ≤ data.length) :
    ArsLayer where
  lType := type
  lSize := data.length
  lFlags := flags
  lData := data
  size_le := Nat.le_refl _
  hdr_le := h

end ArsLayer

/-! ### Packets -/

/-- `struct ars_packet`, without the back pointers of the layers. -/
structure ArsPacket where
  /-- The layers in use. -/
  pLayer : List ArsLayer
  /-- The default contents of the layers of a type, if set. -/
  pDefault : ArsType → Option (List UInt8)
  /-- The options (`ARS_OPT_*`). -/
  pOptions : ℕ
  /-- What is left of the option area being dissected. -/
  aux : ℕ
  /-- The protocol that follows the IP options being dissected. -/
  auxIpproto : ℕ
  /-- A packet has at most `ARS_MAX_LAYER` layers. -/
  nr_le : pLayer.length ≤ arsMaxLayer

/-- `ARS_OPT_RAPD_HEXDATA`. -/
def arsOptRapdHexdata : ℕ := 1

/-- `ars_init`. -/
def arsInit : ArsPacket where
  pLayer := []
  pDefault := fun _ => none
  pOptions := 0
  aux := 0
  auxIpproto := 0
  nr_le := by decide

/-- `ars_set_option`. -/
def arsSetOption (pkt : ArsPacket) (opt : ℕ) : ArsPacket :=
  { pkt with pOptions := pkt.pOptions ||| opt }

/-- `ars_test_option`. -/
def arsTestOption (pkt : ArsPacket) (opt : ℕ) : Bool := pkt.pOptions &&& opt != 0

/-- Change the last layer. -/
def ArsPacket.mapLast (pkt : ArsPacket) (f : ArsLayer → ArsLayer) : ArsPacket :=
  { pkt with
    pLayer := pkt.pLayer.dropLast ++ (pkt.pLayer.getLast?.map f).toList
    nr_le := by
      have h := pkt.nr_le
      rcases List.eq_nil_or_concat pkt.pLayer with hnil | ⟨ls, l, hl⟩
      · simp [hnil]
      · rw [hl] at h ⊢
        simpa using h }

theorem ArsPacket.mapLast_pLayer {pkt : ArsPacket} {ls : List ArsLayer} {l : ArsLayer}
    (h : pkt.pLayer = ls ++ [l]) (f : ArsLayer → ArsLayer) :
    (pkt.mapLast f).pLayer = ls ++ [f l] := by
  simp [mapLast, h]

/-- Append a layer to a packet that has room for it. -/
def ArsPacket.push (pkt : ArsPacket) (l : ArsLayer) (h : pkt.pLayer.length < arsMaxLayer) :
    ArsPacket :=
  { pkt with
    pLayer := pkt.pLayer ++ [l]
    nr_le := by
      rw [List.length_append]
      exact h }

/-- `ars_add_generic`, and the `p_layer_nr++` of its callers. -/
def arsAddGeneric (pkt : ArsPacket) (size : ℕ) (type : ArsType) (h : type.hdrSize ≤ size) :
    Except ArsErr ArsPacket :=
  if hroom : pkt.pLayer.length < arsMaxLayer then
    match pkt.pDefault type with
    | none =>
      .ok (pkt.push (.full type 0 (List.replicate size 0) (by simpa using h)) hroom)
    | some d =>
      if hd : size ≤ d.length then
        .ok (pkt.push (.full type 0 (d.take size) (by simpa [Nat.min_eq_left hd] using h)) hroom)
      else .error .oob
  else arsFail .nospace "No space for the next layer"

/-- `ars_set_flags(pkt, ARS_LAST_LAYER, flags)`. -/
def arsSetFlags (pkt : ArsPacket) (flags : ℕ) : ArsPacket := pkt.mapLast (·.setFlags flags)

/-- `memcpy(p_layer[p_layer_nr - 1].l_data + off, src, ...)`. -/
def ArsPacket.writeLast (pkt : ArsPacket) (off : ℕ) (src : List UInt8) : ArsPacket :=
  pkt.mapLast (·.write off src)

/-- `ars_add_iphdr`. -/
def arsAddIphdr (pkt : ArsPacket) : Except ArsErr ArsPacket :=
  arsAddGeneric pkt 20 .ip (by decide)

/-- `ars_add_udphdr`. -/
def arsAddUdphdr (pkt : ArsPacket) : Except ArsErr ArsPacket :=
  arsAddGeneric pkt 8 .udp (by decide)

/-- `ars_add_tcphdr`. -/
def arsAddTcphdr (pkt : ArsPacket) : Except ArsErr ArsPacket :=
  arsAddGeneric pkt 20 .tcp (by decide)

/-- `ars_add_icmphdr`: an echo request. -/
def arsAddIcmphdr (pkt : ArsPacket) : Except ArsErr ArsPacket :=
  (arsAddGeneric pkt 8 .icmp (by decide)).map (·.writeLast 0 [8, 0])

/-- `ars_add_ip6hdr`: version 6, hop limit 64. -/
def arsAddIp6hdr (pkt : ArsPacket) : Except ArsErr ArsPacket :=
  (arsAddGeneric pkt 40 .ip6 (by decide)).map fun pkt =>
    (pkt.writeLast 0 [0x60, 0, 0, 0]).writeLast 7 [64]

/-- `ars_add_icmp6hdr`: an echo request. -/
def arsAddIcmp6hdr (pkt : ArsPacket) : Except ArsErr ArsPacket :=
  (arsAddGeneric pkt 8 .icmp6 (by decide)).map (·.writeLast 0 [128, 0])

/-- `ars_add_igrphdr`: a request of version 1 – one byte for the two nibbles, one for the
edition – with every number zero. -/
def arsAddIgrphdr (pkt : ArsPacket) : Except ArsErr ArsPacket :=
  (arsAddGeneric pkt 12 .igrp (by decide)).map fun pkt =>
    (pkt.writeLast 0 [0x12, 0]).writeLast 2 [0, 0, 0, 0, 0, 0, 0, 0]

/-- `ars_add_igrpentry`. -/
def arsAddIgrpentry (pkt : ArsPacket) : Except ArsErr ArsPacket :=
  arsAddGeneric pkt 14 .igrpentry (by decide)

/-- `ars_add_data`. -/
def arsAddData (pkt : ArsPacket) (size : ℕ) : Except ArsErr ArsPacket :=
  arsAddGeneric pkt size .data (ArsType.hdrSize_le rfl size)

/-! ### Options -/

/-- `ARS_IPOPT_END`, which is also `ARS_TCPOPT_EOL`. -/
def arsIpoptEnd : ℕ := 0
/-- `ARS_IPOPT_NOOP`, which is also `ARS_TCPOPT_NOP`. -/
def arsIpoptNoop : ℕ := 1
/-- `ARS_IPOPT_SEC`. -/
def arsIpoptSec : ℕ := 130
/-- `ARS_IPOPT_LSRR`. -/
def arsIpoptLsrr : ℕ := 131
/-- `ARS_IPOPT_TIMESTAMP`. -/
def arsIpoptTimestamp : ℕ := 68
/-- `ARS_IPOPT_RR`. -/
def arsIpoptRr : ℕ := 7
/-- `ARS_IPOPT_SID`. -/
def arsIpoptSid : ℕ := 136
/-- `ARS_IPOPT_SSRR`. -/
def arsIpoptSsrr : ℕ := 137

/-- The size of the layer that `ars_add_ipopt` adds for an option, if it knows it. -/
def arsIpoptLen (option : ℕ) : Option ℕ :=
  if option = arsIpoptEnd ∨ option = arsIpoptNoop then some 1
  else if option = arsIpoptSec then some 11
  else if option = arsIpoptSid then some 4
  else if option = arsIpoptLsrr ∨ option = arsIpoptSsrr ∨ option = arsIpoptRr ∨
      option = arsIpoptTimestamp then some 40
  else none

/-- `ars_add_ipopt`. An unknown option leaves `p_error` alone. -/
def arsAddIpopt (pkt : ArsPacket) (option : ℕ) : Except ArsErr ArsPacket :=
  match arsIpoptLen option with
  | none => .error (.ars .invalid [])
  | some optLen => do
    let pkt ← arsAddGeneric pkt optLen .ipopt (ArsType.hdrSize_le rfl optLen)
    let pkt := pkt.writeLast 0 [UInt8.ofNat option]
    if option = arsIpoptEnd ∨ option = arsIpoptNoop then
      return pkt
    let pkt := pkt.writeLast 1 [UInt8.ofNat optLen]
    if option = arsIpoptLsrr ∨ option = arsIpoptSsrr ∨ option = arsIpoptRr then
      return (pkt.writeLast 1 [UInt8.ofNat (optLen - 2 - 3)]).writeLast 2 [4]
    if option = arsIpoptTimestamp then
      return ((pkt.writeLast 1 [UInt8.ofNat (optLen - 2 - 4)]).writeLast 2 [5]).writeLast 3 [0]
    return pkt

/-- `ARS_TCPOPT_EOL`. -/
def arsTcpoptEol : ℕ := 0
/-- `ARS_TCPOPT_NOP`. -/
def arsTcpoptNop : ℕ := 1
/-- `ARS_TCPOPT_MAXSEG`. -/
def arsTcpoptMaxseg : ℕ := 2
/-- `ARS_TCPOPT_WINDOW`. -/
def arsTcpoptWindow : ℕ := 3
/-- `ARS_TCPOPT_SACK_PERM`. -/
def arsTcpoptSackPerm : ℕ := 4
/-- `ARS_TCPOPT_SACK`. -/
def arsTcpoptSack : ℕ := 5
/-- `ARS_TCPOPT_ECHOREQUEST`. -/
def arsTcpoptEchorequest : ℕ := 6
/-- `ARS_TCPOPT_ECHOREPLY`. -/
def arsTcpoptEchoreply : ℕ := 7
/-- `ARS_TCPOPT_TIMESTAMP`. -/
def arsTcpoptTimestamp : ℕ := 8

/-- The size of the layer that `ars_add_tcpopt` adds for an option, if it knows it. -/
def arsTcpoptLen (option : ℕ) : Option ℕ :=
  if option = arsTcpoptNop ∨ option = arsTcpoptEol then some 1
  else if option = arsTcpoptMaxseg then some 4
  else if option = arsTcpoptWindow then some 3
  else if option = arsTcpoptSackPerm then some 2
  else if option = arsTcpoptSack then some (8 * 4 + 2)
  else if option = arsTcpoptEchorequest ∨ option = arsTcpoptEchoreply then some 6
  else if option = arsTcpoptTimestamp then some 10
  else none

/-- `ars_add_tcpopt`. The block is zeroed or copied from the default, and the fields of
the echo and timestamp options are zeroed after that. -/
def arsAddTcpopt (pkt : ArsPacket) (option : ℕ) : Except ArsErr ArsPacket :=
  match arsTcpoptLen option with
  | none => .error (.ars .invalid [])
  | some optLen => do
    let pkt ← arsAddGeneric pkt optLen .tcpopt (ArsType.hdrSize_le rfl optLen)
    let pkt := pkt.writeLast 0 [UInt8.ofNat option]
    let pkt :=
      if option ≠ arsTcpoptEol ∧ option ≠ arsTcpoptNop then
        pkt.writeLast 1 [UInt8.ofNat optLen]
      else pkt
    if option = arsTcpoptEchorequest ∨ option = arsTcpoptEchoreply then
      return pkt.writeLast 2 (List.replicate 4 0)
    if option = arsTcpoptTimestamp then
      return pkt.writeLast 2 (List.replicate 8 0)
    return pkt

end StyxWire
