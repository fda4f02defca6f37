import StyxWire.Ars.Cksum

/-!
# Compiling and building a packet

`ars_compile`, which fills in the fields nobody has set, and `ars_build_packet`, which
puts the layers together (`ars.c`).

A compiler is given the layers on its left, the nearest first, and those on its right,
and returns its layer. The layers are compiled from the last to the first, so the right
ones are compiled already and the left ones are not (`StyxWire.arsCompileFrom`).

## How a compiler is read

A compiler writes some stretches of its block, pairwise disjoint. So its outcome is one
`Mem.writeAll`, of the values it computes for the fields it owns and of the old values
for the others; this is what the `_eq` theorems say, and what the modules on
idempotence and on explicit fields work with.
-/

namespace StyxWire

open Mem

/-! ### Flags -/

/-- `ARS_TAKE_IP_VERSION`. -/
def arsTakeIpVersion : ℕ := 1
/-- `ARS_TAKE_IP_HDRLEN`. -/
def arsTakeIpHdrlen : ℕ := 2
/-- `ARS_TAKE_IP_TOTLEN`. -/
def arsTakeIpTotlen : ℕ := 4
/-- `ARS_TAKE_IP_PROTOCOL`. -/
def arsTakeIpProtocol : ℕ := 8
/-- `ARS_TAKE_IP_CKSUM`. -/
def arsTakeIpCksum : ℕ := 16
/-- `ARS_TAKE_IPOPT_PTR`. -/
def arsTakeIpoptPtr : ℕ := 1
/-- `ARS_TAKE_ICMP_CKSUM`. -/
def arsTakeIcmpCksum : ℕ := 1
/-- `ARS_TAKE_UDP_CKSUM`. -/
def arsTakeUdpCksum : ℕ := 1
/-- `ARS_TAKE_UDP_LEN`. -/
def arsTakeUdpLen : ℕ := 2
/-- `ARS_TAKE_TCP_HDRLEN`. -/
def arsTakeTcpHdrlen : ℕ := 1
/-- `ARS_TAKE_TCP_CKSUM`. -/
def arsTakeTcpCksum : ℕ := 2
/-- `ARS_TAKE_IGRP_CKSUM`. -/
def arsTakeIgrpCksum : ℕ := 1
/-- `ARS_TAKE_IP6_VERSION`. -/
def arsTakeIp6Version : ℕ := 1
/-- `ARS_TAKE_IP6_PAYLOADLEN`. -/
def arsTakeIp6Payloadlen : ℕ := 2
/-- `ARS_TAKE_IP6_NEXTHDR`. -/
def arsTakeIp6Nexthdr : ℕ := 4
/-- `ARS_TAKE_ICMP6_CKSUM`. -/
def arsTakeIcmp6Cksum : ℕ := 1

/-- `ARS_TAKE`. -/
def arsTake (f x : ℕ) : Bool := f &&& x != 0

/-- `ARS_DONTTAKE`. -/
def arsDonttake (f x : ℕ) : Bool := f &&& x == 0

theorem arsDonttake_eq (f x : ℕ) : arsDonttake f x = !arsTake f x := by
  simp [arsDonttake, arsTake, bne]

@[simp] theorem arsDonttake_zero (x : ℕ) : arsDonttake 0 x = true := by
  simp [arsDonttake]

/-! ### Writes in a layer -/

namespace ArsLayer

/-- Several writes in the block of a layer. -/
def writeAll (l : ArsLayer) (ws : List (ℕ × List UInt8)) : ArsLayer :=
  ws.foldl (fun l w => l.write w.1 w.2) l

@[simp] theorem writeAll_nil (l : ArsLayer) : l.writeAll [] = l := rfl

@[simp] theorem writeAll_cons (l : ArsLayer) (w : ℕ × List UInt8) (ws : List (ℕ × List UInt8)) :
    l.writeAll (w :: ws) = (l.write w.1 w.2).writeAll ws := rfl

@[simp] theorem writeAll_lType (l : ArsLayer) (ws : List (ℕ × List UInt8)) :
    (l.writeAll ws).lType = l.lType := by
  induction ws generalizing l with
  | nil => rfl
  | cons w ws ih => rw [writeAll_cons, ih, write_lType]

@[simp] theorem writeAll_lSize (l : ArsLayer) (ws : List (ℕ × List UInt8)) :
    (l.writeAll ws).lSize = l.lSize := by
  induction ws generalizing l with
  | nil => rfl
  | cons w ws ih => rw [writeAll_cons, ih, write_lSize]

@[simp] theorem writeAll_lFlags (l : ArsLayer) (ws : List (ℕ × List UInt8)) :
    (l.writeAll ws).lFlags = l.lFlags := by
  induction ws generalizing l with
  | nil => rfl
  | cons w ws ih => rw [writeAll_cons, ih, write_lFlags]

@[simp] theorem writeAll_lData (l : ArsLayer) (ws : List (ℕ × List UInt8)) :
    (l.writeAll ws).lData = Mem.writeAll l.lData ws := by
  induction ws generalizing l with
  | nil => rfl
  | cons w ws ih => rw [writeAll_cons, ih, write_lData, Mem.writeAll_cons]

/-- The last of two lists of writes of the same shape wins. -/
theorem writeAll_writeAll {l : ArsLayer} {ws ws' : List (ℕ × List UInt8)}
    (hshape : ws.map span = ws'.map span) (hws : ws.Pairwise Apart) :
    (l.writeAll ws).writeAll ws' = l.writeAll ws' :=
  ext_data (by simp) (by simp) (by simp) (by simpa using Mem.writeAll_writeAll hshape hws)

/-- A stretch of the block. -/
def slice (l : ArsLayer) (off n : ℕ) : List UInt8 := (l.lData.drop off).take n

theorem slice_one {l : ArsLayer} {off : ℕ} (h : off < l.lData.length) :
    l.slice off 1 = [l.byte off] := by
  rw [slice, byte, List.drop_eq_getElem_cons h, List.take_succ_cons, List.take_zero,
    List.getD_eq_getElem _ _ h]

theorem slice_two {l : ArsLayer} {off : ℕ} (h : off + 1 < l.lData.length) :
    l.slice off 2 = [l.byte off, l.byte (off + 1)] := by
  have h1 := @slice_one l off (by omega)
  have h2 := slice_one h
  simp only [slice] at h1 h2 ⊢
  rw [show 2 = 1 + 1 from rfl, List.take_add, h1, List.drop_drop, h2]
  rfl

theorem slice_write_of_apart {l : ArsLayer} {off off' n : ℕ} {src : List UInt8}
    (h : off + src.length ≤ off' ∨ off' + n ≤ off) :
    (l.write off src).slice off' n = l.slice off' n :=
  drop_take_writeAt h

theorem slice_write_self {l : ArsLayer} {off : ℕ} {src : List UInt8}
    (h : off + src.length ≤ l.lData.length) : (l.write off src).slice off src.length = src :=
  drop_take_writeAt_self h

theorem byte_write_self {l : ArsLayer} {off : ℕ} {b : UInt8} (h : off < l.lData.length) :
    (l.write off [b]).byte off = b := by
  have hs := @slice_write_self l off [b] h
  rw [List.length_singleton, slice_one (by simpa using h)] at hs
  exact List.singleton_injective hs

theorem write_write {l : ArsLayer} {off : ℕ} {s t : List UInt8} (h : s.length ≤ t.length) :
    (l.write off s).write off t = l.write off t :=
  ext_data rfl rfl rfl (writeAt_writeAt h)

/-- Writing what is there changes nothing. -/
theorem write_slice (l : ArsLayer) (off n : ℕ) : l.write off (l.slice off n) = l :=
  ext_data rfl rfl rfl (writeAt_self _ _ _)

/-- A write that may not happen is a write of one value or the other. -/
theorem ite_write (c : Bool) (l : ArsLayer) (off : ℕ) (src : List UInt8) :
    (if c then l.write off src else l) =
      l.write off (if c then src else l.slice off src.length) := by
  cases c
  · exact (write_slice l off src.length).symm
  · rfl

/-- Replace the high half of a byte of the block. -/
def writeHi (l : ArsLayer) (i v : ℕ) : ArsLayer := l.write i [setHi (l.byte i) v]

/-- Replace the low half of a byte of the block. -/
def writeLo (l : ArsLayer) (i v : ℕ) : ArsLayer := l.write i [setLo (l.byte i) v]

/-- Enlarge the block at the end of what belongs to the packet (`realloc`, and `memset`
of what is new). What the block had beyond that end, which is no part of the packet,
is kept behind. -/
def grow (l : ArsLayer) (src : List UInt8) : ArsLayer :=
  { l with
    lSize := l.lSize + src.length
    lData := l.bytes ++ src ++ l.lData.drop (l.lSize + src.length)
    size_le := by
      simp only [List.length_append, length_bytes]
      omega
    hdr_le := by
      have := l.hdr_le
      simp only [List.length_append, length_bytes, List.length_drop]
      omega }

@[simp] theorem grow_bytes (l : ArsLayer) (src : List UInt8) :
    (l.grow src).bytes = l.bytes ++ src := by
  have h : (l.bytes ++ src).length = l.lSize + src.length := by simp
  exact (congrArg (List.take · _) h.symm).trans List.take_left

end ArsLayer

/-! ### The compiler of the IP header -/

/-- The protocol number of the first of the given layers that is not an IP option. -/
def arsIpProtocol : List ArsLayer → ℕ
  | [] => 255
  | l :: ls =>
    match l.lType with
    | .ipopt => arsIpProtocol ls
    | .ip => 4
    | .icmp => 1
    | .udp => 17
    | .tcp => 6
    | .igrp => 9
    | _ => 255

/-- `ars_compiler_ip`. The variable `j` counts the options while the header length is
computed and is where the search for the protocol starts; it is still `layer`, the IP
header itself, when the header length is not computed. -/
def arsCompilerIp (l : ArsLayer) (after : List ArsLayer) : ArsLayer :=
  let flags := l.lFlags
  let ipopts := after.takeWhile isIpopt
  let l := if arsDonttake flags arsTakeIpVersion then l.writeHi 0 4 else l
  let l :=
    if arsDonttake flags arsTakeIpHdrlen then l.writeLo 0 (20 / 4 + arsRelativeSize ipopts / 4)
    else l
  let j := if arsDonttake flags arsTakeIpHdrlen then after.dropWhile isIpopt else l :: after
  let l :=
    if arsDonttake flags arsTakeIpTotlen then l.write 2 (putBe16 (arsRelativeSize (l :: after)))
    else l
  let l :=
    if arsDonttake flags arsTakeIpProtocol then l.write 9 [UInt8.ofNat (arsIpProtocol j)] else l
  if arsDonttake flags arsTakeIpCksum then
    let l := l.write 10 [0, 0]
    l.write 10 (putLe16 (arsMultiCksum (l.lData.take 20 :: ipopts.map ArsLayer.bytes)))
  else l

/-! ### The compilers of the options -/

/-- The body of `ars_compiler_ipopt` and of `ars_compiler_tcpopt`: the last of a run of
options is padded, to bring the size of the run up to a multiple of four. -/
def arsCompilerOpt (type : ArsType) (nop : ℕ) (before : List ArsLayer) (l : ArsLayer)
    (after : List ArsLayer) : ArsLayer :=
  if after.head?.map ArsLayer.lType = some type then l
  else
    let optSize := arsRelativeSize (before.takeWhile fun m => m.lType = type) + l.lSize
    if optSize % 4 ≠ 0 then l.grow (List.replicate (4 - optSize % 4) (UInt8.ofNat nop)) else l

/-- `ars_compiler_ipopt`. -/
def arsCompilerIpopt : List ArsLayer → ArsLayer → List ArsLayer → ArsLayer :=
  arsCompilerOpt .ipopt arsIpoptNoop

/-- `ars_compiler_tcpopt`. -/
def arsCompilerTcpopt : List ArsLayer → ArsLayer → List ArsLayer → ArsLayer :=
  arsCompilerOpt .tcpopt arsTcpoptNop

/-! ### The compiler of the IPv6 header -/

/-- `ARS_IP6_SET`, the value stored. -/
def arsIp6Word (v tc fl : ℕ) : ℕ := v % 16 * 2 ^ 28 + tc % 256 * 2 ^ 20 + fl % 2 ^ 20

namespace ArsLayer

/-- `ntohl((h)->ver_tc_fl)`. -/
def verTcFl (l : ArsLayer) : ℕ := be32 (l.byte 0) (l.byte 1) (l.byte 2) (l.byte 3)

/-- `ARS_IP6_VERSION`. -/
def ip6Version (l : ArsLayer) : ℕ := l.verTcFl / 2 ^ 28 % 16

/-- `ARS_IP6_TCLASS`. -/
def ip6Tclass (l : ArsLayer) : ℕ := l.verTcFl / 2 ^ 20 % 256

/-- `ARS_IP6_FLOW`. -/
def ip6Flow (l : ArsLayer) : ℕ := l.verTcFl % 2 ^ 20

/-- `ARS_IP6_SET`. -/
def ip6Set (l : ArsLayer) (v tc fl : ℕ) : ArsLayer := l.write 0 (putBe32 (arsIp6Word v tc fl))

end ArsLayer

/-- The value of the next header field in front of the given layers. -/
def arsIp6Nexthdr : List ArsLayer → ℕ
  | [] => 59
  | l :: _ =>
    match l.lType with
    | .ip6 => 41
    | .ip => 4
    | .icmp6 => 58
    | .icmp => 1
    | .udp => 17
    | .tcp => 6
    | _ => 59

/-- `ars_compiler_ip6`. -/
def arsCompilerIp6 (l : ArsLayer) (after : List ArsLayer) : ArsLayer :=
  let flags := l.lFlags
  let l := if arsDonttake flags arsTakeIp6Version then l.ip6Set 6 l.ip6Tclass l.ip6Flow else l
  let l :=
    if arsDonttake flags arsTakeIp6Payloadlen then l.write 4 (putBe16 (arsRelativeSize after))
    else l
  if arsDonttake flags arsTakeIp6Nexthdr then l.write 6 [UInt8.ofNat (arsIp6Nexthdr after)] else l

/-! ### The compilers of the transport headers -/

/-- `ars_compiler_tcp`. -/
def arsCompilerTcp (before : List ArsLayer) (l : ArsLayer) (after : List ArsLayer) :
    Except ArsErr ArsLayer :=
  let flags := l.lFlags
  let tcpopts := after.takeWhile fun m => m.lType = .tcpopt
  let l :=
    if arsDonttake flags arsTakeTcpHdrlen then l.writeHi 12 (20 / 4 + arsRelativeSize tcpopts / 4)
    else l
  if arsDonttake flags arsTakeTcpCksum then
    let l := l.write 16 [0, 0]
    (arsUdptcpCksum before l after).map fun sum => l.write 16 (putLe16 sum)
  else .ok l

/-- `ars_compiler_udp`. -/
def arsCompilerUdp (before : List ArsLayer) (l : ArsLayer) (after : List ArsLayer) :
    Except ArsErr ArsLayer :=
  let flags := l.lFlags
  let l :=
    if arsDonttake flags arsTakeUdpLen then l.write 4 (putBe16 (arsRelativeSize (l :: after)))
    else l
  if arsDonttake flags arsTakeUdpCksum then
    let l := l.write 6 [0, 0]
    (arsUdptcpCksum before l after).map fun sum => l.write 6 (putLe16 sum)
  else .ok l

/-- `ars_compiler_icmp6`. -/
def arsCompilerIcmp6 (before : List ArsLayer) (l : ArsLayer) (after : List ArsLayer) :
    Except ArsErr ArsLayer :=
  if arsDonttake l.lFlags arsTakeIcmp6Cksum then
    let l := l.write 2 [0, 0]
    (arsIp6PseudoCksum before (l :: after) arsIpprotoIcmpv6).map fun sum => l.write 2 (putLe16 sum)
  else .ok l

/-- The body of `ars_compiler_icmp` and of `ars_compiler_igrp`: the checksum, at offset
`off`, of the layer and of all those that follow it. -/
def arsCompilerCksum (take off : ℕ) (l : ArsLayer) (after : List ArsLayer) : ArsLayer :=
  if arsDonttake l.lFlags take then
    let l := l.write off [0, 0]
    l.write off (putLe16 (arsMultiCksum ((l :: after).map ArsLayer.bytes)))
  else l

/-- `ars_compiler_icmp`. -/
def arsCompilerIcmp : ArsLayer → List ArsLayer → ArsLayer := arsCompilerCksum arsTakeIcmpCksum 2

/-- `ars_compiler_igrp`. -/
def arsCompilerIgrp : ArsLayer → List ArsLayer → ArsLayer := arsCompilerCksum arsTakeIgrpCksum 10

/-! ### The packet -/

/-- The compiler of a layer (`li_compiler` of `ars_linfo`); a null one does nothing. -/
def arsLiCompiler (before : List ArsLayer) (l : ArsLayer) (after : List ArsLayer) :
    Except ArsErr ArsLayer :=
  match l.lType with
  | .ip => .ok (arsCompilerIp l after)
  | .ipopt => .ok (arsCompilerIpopt before l after)
  | .icmp => .ok (arsCompilerIcmp l after)
  | .udp => arsCompilerUdp before l after
  | .tcp => arsCompilerTcp before l after
  | .tcpopt => .ok (arsCompilerTcpopt before l after)
  | .igrp => .ok (arsCompilerIgrp l after)
  | .igrpentry => .ok l
  | .ip6 => .ok (arsCompilerIp6 l after)
  | .icmp6 => arsCompilerIcmp6 before l after
  | .data => .ok l

/-- The loop of `ars_compile`, on the layers that follow `before`. -/
def arsCompileFrom (before : List ArsLayer) : List ArsLayer → Except ArsErr (List ArsLayer)
  | [] => .ok []
  | l :: ls => do
    let ls ← arsCompileFrom (l :: before) ls
    let l ← arsLiCompiler before l ls
    return l :: ls

/-- What the loop does on a layer and those that follow it. -/
theorem arsCompileFrom_cons {before : List ArsLayer} {l : ArsLayer} {ls out : List ArsLayer} :
    arsCompileFrom before (l :: ls) = .ok out ↔
      ∃ l' ls', arsCompileFrom (l :: before) ls = .ok ls' ∧
        arsLiCompiler before l ls' = .ok l' ∧ out = l' :: ls' := by
  rw [arsCompileFrom]
  rcases arsCompileFrom (l :: before) ls with e | ls'
  · simp [bind, Except.bind]
  · rcases h : arsLiCompiler before l ls' with e | l'
    · simp [bind, Except.bind, h]
    · simp [bind, Except.bind, pure, Except.pure, h, eq_comm]

theorem length_arsCompileFrom {before ls out : List ArsLayer}
    (h : arsCompileFrom before ls = .ok out) : out.length = ls.length := by
  induction ls generalizing before out with
  | nil =>
    obtain rfl : [] = out := by simpa [arsCompileFrom] using h
    rfl
  | cons l ls ih =>
    obtain ⟨l', ls', hls, -, rfl⟩ := arsCompileFrom_cons.mp h
    rw [List.length_cons, List.length_cons, ih hls]

/-- `ars_compile`. -/
def arsCompile (pkt : ArsPacket) : Except ArsErr ArsPacket :=
  match h : arsCompileFrom [] pkt.pLayer with
  | .ok ls => .ok { pkt with pLayer := ls, nr_le := length_arsCompileFrom h ▸ pkt.nr_le }
  | .error e => .error e

/-- `ars_compile` succeeds when its loop does, and changes the layers only. -/
theorem arsCompile_eq_ok {pkt out : ArsPacket} :
    arsCompile pkt = .ok out ↔ arsCompileFrom [] pkt.pLayer = .ok out.pLayer ∧
      out.pDefault = pkt.pDefault ∧ out.pOptions = pkt.pOptions ∧ out.aux = pkt.aux ∧
      out.auxIpproto = pkt.auxIpproto := by
  unfold arsCompile
  split
  · next ls h =>
    constructor
    · rintro ⟨⟩
      exact ⟨h, rfl, rfl, rfl, rfl⟩
    · rintro ⟨hls, h1, h2, h3, h4⟩
      obtain ⟨ls', d, o, a, p, hnr⟩ := out
      obtain rfl : ls = ls' := by simpa using h.symm.trans hls
      subst h1 h2 h3 h4
      rfl
  · next e h => simp [h]

/-- `ars_build_packet`. -/
def arsBuildPacket (pkt : ArsPacket) : Except ArsErr (List UInt8) :=
  if arsRelativeSize pkt.pLayer = 0 then
    arsFail .invalid "Total size 0 building the packet"
  else .ok (layersBytes pkt.pLayer)

/-- An IP header and a UDP header with all their fields zero, as `ip()+udp()` adds them. -/
def ipUdpPacket : ArsPacket :=
  (arsInit.push (.full .ip 0 (List.replicate 20 0) (by decide)) (by decide)).push
    (.full .udp 0 (List.replicate 8 0) (by decide)) (by decide)

end StyxWire
