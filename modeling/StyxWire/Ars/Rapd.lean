import StyxWire.Ars.Libc

/-!
# Describing a packet

The reverse of the description language (`rapd.c`): one printer for each type of layer,
and `ars_d_from_ars`, which puts their texts together.

A printer returns the text it appends to the buffer; what it trims from the buffer
(`adbuf_rtrim`) is always text of its own. It reads the header structure of its layer
through `StyxWire.rdHdr`, the bytes of an option through `StyxWire.rdBytes` on the
`l_size` bytes of the layer, and its local copy of an option structure through
`StyxWire.rdBytes` on that copy: every read that leaves these is an error.
-/

namespace StyxWire

open Mem Text

/-! ### The pieces of a text -/

/-- `"name=value,"`. -/
def field (name : String) (v : List UInt8) : List UInt8 := lit name ++ lit "=" ++ v ++ lit ","

/-- The same, under a condition. -/
def fieldIf (c : Bool) (name : String) (v : List UInt8) : List UInt8 :=
  if c then field name v else []

/-- `"0x%0wx"`. -/
def fmtHex (w n : ℕ) : List UInt8 := lit "0x" ++ padZero w (fmtX n)

/-- `"%02x"` for each byte. -/
def hexBytes (bs : List UInt8) : List UInt8 := (bs.map fun b => padZero 2 (fmtX b.toNat)).flatten

/-- `adbuf_rtrim(dest, 1)`. -/
def adbufRtrim (s : List UInt8) : List UInt8 := s.dropLast

/-- Pieces with a separator after each, the last one trimmed. -/
def slashed (pieces : List (List UInt8)) : List UInt8 :=
  adbufRtrim (pieces.map (· ++ lit "/")).flatten

/-! ### Reading a layer -/

/-- The header structure of a layer. -/
def rdHdr (l : ArsLayer) : Except ArsErr (List UInt8) := rdBytes l.lData 0 l.lType.hdrSize

/-- A local structure of `n` bytes, zeroed, and filled with what there is of the layer. -/
def rdStruct (l : ArsLayer) (n : ℕ) : Except ArsErr (List UInt8) := do
  let copy ← rdBytes l.bytes 0 (min l.lSize n)
  return copy ++ List.replicate (n - copy.length) 0

/-- The default contents of the layers of a type, if set. -/
def rdDefault (pkt : ArsPacket) (t : ArsType) : Except ArsErr (Option (List UInt8)) :=
  match pkt.pDefault t with
  | none => .ok none
  | some d => (rdBytes d 0 t.hdrSize).map some

/-- `!def || hdr->f != def->f`. -/
def differs (hdr : List UInt8) (default : Option (List UInt8)) (f : List UInt8 → ℕ) : Bool :=
  match default with
  | none => true
  | some d => f hdr != f d

/-- `ntohs` of the field at an offset. -/
def ntohsAt (i : ℕ) (h : List UInt8) : ℕ := be16 (h.getD i 0) (h.getD (i + 1) 0)

/-- `ntohl` of the field at an offset. -/
def ntohlAt (i : ℕ) (h : List UInt8) : ℕ :=
  be32 (h.getD i 0) (h.getD (i + 1) 0) (h.getD (i + 2) 0) (h.getD (i + 3) 0)

/-- The byte at an offset. -/
def byteAt (i : ℕ) (h : List UInt8) : ℕ := (h.getD i 0).toNat

/-- The low and the high bit field of the byte at an offset. -/
def loAt (i : ℕ) (h : List UInt8) : ℕ := byteAt i h % 16

@[inherit_doc loAt]
def hiAt (i : ℕ) (h : List UInt8) : ℕ := byteAt i h / 16

/-! ### IPv4 -/

/-- `ARS_IP_MF`. -/
def arsIpMf : ℕ := 0x2000
/-- `ARS_IP_DF`. -/
def arsIpDf : ℕ := 0x4000
/-- `ARS_IP_RF`. -/
def arsIpRf : ℕ := 0x8000

/-- `ip->frag_off & bit`, the field as it lies in memory. -/
def fragBit (bit : ℕ) (ip : List UInt8) : ℕ := le16 (ip.getD 6 0) (ip.getD 7 0) &&& bit

/-- `(htons(ip->frag_off) & bit) != 0`, written with `%d`. -/
def fmtFrag (bit : ℕ) (ip : List UInt8) : List UInt8 :=
  fmtU (if ntohsAt 6 ip &&& bit ≠ 0 then 1 else 0)

/-- `ars_rapd_ip`. -/
def arsRapdIp (pkt : ArsPacket) (l : ArsLayer) : Except ArsErr (List UInt8) := do
  let ip ← rdHdr l
  let defip ← rdDefault pkt l.lType
  return lit "ip(" ++
    fieldIf (differs ip defip (loAt 0)) "ihl" (fmtHex 1 (loAt 0 ip)) ++
    fieldIf (differs ip defip (hiAt 0)) "ver" (fmtHex 1 (hiAt 0 ip)) ++
    fieldIf (differs ip defip (byteAt 1)) "tos" (fmtHex 2 (byteAt 1 ip)) ++
    field "totlen" (fmtU (ntohsAt 2 ip)) ++
    fieldIf (differs ip defip (ntohsAt 4)) "id" (fmtU (ntohsAt 4 ip)) ++
    field "fragoff" (fmtU ((ntohsAt 6 ip &&& 0x1FFF) * 8)) ++
    fieldIf (differs ip defip (fragBit arsIpMf)) "mf" (fmtFrag arsIpMf ip) ++
    fieldIf (differs ip defip (fragBit arsIpDf)) "df" (fmtFrag arsIpDf ip) ++
    fieldIf (differs ip defip (fragBit arsIpRf)) "rf" (fmtFrag arsIpRf ip) ++
    fieldIf (differs ip defip (byteAt 8)) "ttl" (fmtU (byteAt 8 ip)) ++
    field "proto" (fmtU (byteAt 9 ip)) ++
    field "cksum" (fmtHex 4 (ntohsAt 10 ip)) ++
    field "saddr" (dottedQuad (ip.drop 12)) ++
    lit "daddr=" ++ dottedQuad (ip.drop 16) ++ lit ")+"

/-! ### IPv6 -/

/-- `inet_ntop`, or `"::"` if it fails. -/
def fmtIp6 (libc : Libc) (a : List UInt8) : List UInt8 := (libc.inetNtop a).getD (lit "::")

/-- `ars_rapd_ip6`. -/
def arsRapdIp6 (libc : Libc) (_pkt : ArsPacket) (l : ArsLayer) : Except ArsErr (List UInt8) := do
  let ip6 ← rdStruct l 40
  let verTcFl := ntohlAt 0 ip6
  return lit "ip6(" ++
    field "ver" (fmtU (verTcFl / 2 ^ 28 % 16)) ++
    field "tclass" (fmtHex 2 (verTcFl / 2 ^ 20 % 256)) ++
    field "flow" (fmtU (verTcFl % 2 ^ 20)) ++
    field "plen" (fmtU (ntohsAt 4 ip6)) ++
    field "nh" (fmtU (byteAt 6 ip6)) ++
    field "hlim" (fmtU (byteAt 7 ip6)) ++
    field "saddr" (fmtIp6 libc ((ip6.drop 8).take 16)) ++
    lit "daddr=" ++ fmtIp6 libc ((ip6.drop 24).take 16) ++ lit ")+"

/-! ### ICMP -/

/-- `ars_rapd_icmp6`. -/
def arsRapdIcmp6 (_pkt : ArsPacket) (l : ArsLayer) : Except ArsErr (List UInt8) := do
  let icmp ← rdHdr l
  let type := byteAt 0 icmp
  return adbufRtrim (lit "icmp6(" ++
    field "type" (fmtU type) ++
    field "code" (fmtU (byteAt 1 icmp)) ++
    field "cksum" (fmtHex 4 (ntohsAt 2 icmp)) ++
    if type = 128 ∨ type = 129 then
      field "id" (fmtU (ntohsAt 4 icmp)) ++ field "seq" (fmtU (ntohsAt 6 icmp))
    else field "unused" (fmtU (ntohlAt 4 icmp))) ++ lit ")+"

/-- The types for which `ars_rapd_icmp` prints the second word as `unused`. -/
def arsIcmpUnused (type : ℕ) : Bool := type = 3 ∨ type = 11 ∨ type = 12 ∨ type = 4

/-- The types for which it prints the second word as `id` and `seq`. -/
def arsIcmpIdSeq (type : ℕ) : Bool :=
  type = 0 ∨ type = 8 ∨ type = 13 ∨ type = 14 ∨ type = 15 ∨ type = 16

/-- `ars_rapd_icmp`. -/
def arsRapdIcmp (_pkt : ArsPacket) (l : ArsLayer) : Except ArsErr (List UInt8) := do
  let icmp ← rdHdr l
  let type := byteAt 0 icmp
  return adbufRtrim (lit "icmp(" ++
    field "type" (fmtU type) ++
    field "code" (fmtU (byteAt 1 icmp)) ++
    fieldIf (arsIcmpUnused type) "unused" (fmtU (ntohlAt 4 icmp)) ++
    fieldIf (arsIcmpIdSeq type) "id" (fmtU (ntohsAt 4 icmp)) ++
    fieldIf (arsIcmpIdSeq type) "seq" (fmtU (ntohsAt 6 icmp)) ++
    fieldIf (type = 5) "gw" (dottedQuad (icmp.drop 4))) ++ lit ")+"

/-! ### UDP and TCP -/

/-- `ars_rapd_udp`. -/
def arsRapdUdp (_pkt : ArsPacket) (l : ArsLayer) : Except ArsErr (List UInt8) := do
  let udp ← rdHdr l
  return lit "udp(" ++
    field "sport" (fmtU (ntohsAt 0 udp)) ++
    field "dport" (fmtU (ntohsAt 2 udp)) ++
    field "len" (fmtU (ntohsAt 4 udp)) ++
    lit "cksum=" ++ fmtHex 4 (ntohsAt 6 udp) ++ lit ")+"

/-- The flags of a TCP header and their letters. -/
def arsTcpFlags : List (ℕ × Char) :=
  [(1, 'f'), (2, 's'), (4, 'r'), (8, 'p'), (16, 'a'), (32, 'u'), (64, 'x'), (128, 'y')]

/-- The letters of the flags that are set. -/
def fmtTcpFlags (flags : ℕ) : List UInt8 :=
  (arsTcpFlags.filter fun f => flags &&& f.1 != 0).map fun f => ch f.2

/-- `ars_rapd_tcp`. -/
def arsRapdTcp (pkt : ArsPacket) (l : ArsLayer) : Except ArsErr (List UInt8) := do
  let tcp ← rdHdr l
  let deftcp ← rdDefault pkt l.lType
  return adbufRtrim (lit "tcp(" ++
    field "sport" (fmtU (ntohsAt 0 tcp)) ++
    field "dport" (fmtU (ntohsAt 2 tcp)) ++
    field "seq" (fmtU (ntohlAt 4 tcp)) ++
    field "ack" (fmtU (ntohlAt 8 tcp)) ++
    fieldIf (differs tcp deftcp (loAt 12)) "x2" (fmtHex 1 (loAt 12 tcp)) ++
    fieldIf (differs tcp deftcp (hiAt 12)) "off" (fmtU (hiAt 12 tcp)) ++
    field "flags" (fmtTcpFlags (byteAt 13 tcp)) ++
    field "win" (fmtU (ntohsAt 14 tcp)) ++
    field "cksum" (fmtHex 4 (ntohsAt 16 tcp)) ++
    fieldIf (differs tcp deftcp (ntohsAt 18)) "urp" (fmtU (ntohsAt 18 tcp))) ++ lit ")+"

/-! ### The options

The loops of the route and of the timestamp printer run over the entries of an option:
the pointers `start`, `start + entry`, … as long as the entry at a pointer is inside the
option and the pointer is not over 37. -/

/-- The length of an option: its length byte, as far as the layer goes. -/
def arsRapdOptlen (l : ArsLayer) (opt : List UInt8) : ℕ :=
  if 2 ≤ l.lSize then min (byteAt 1 opt) l.lSize else l.lSize

/-- The pointers of the entries of an option. -/
def arsOptPtrs (start entry optlen : ℕ) : List ℕ :=
  ((List.range 10).map fun i => start + entry * i).takeWhile fun ptr =>
    ptr ≤ 37 ∧ ptr + (entry - 1) ≤ optlen

/-- `"ip.unknown(hex=...)+"` and `"tcp.unknown(hex=...)+"`. -/
def arsRapdUnknown (name : String) (l : ArsLayer) : Except ArsErr (List UInt8) := do
  let bytes ← rdBytes l.bytes 0 l.lSize
  return lit name ++ lit "(hex=" ++ hexBytes bytes ++ lit ")+"

/-- The record route and the two source route options. -/
def arsRapdRoute (name : String) (l : ArsLayer) (ipopt : List UInt8) :
    Except ArsErr (List UInt8) := do
  let entries ← (arsOptPtrs 4 4 (arsRapdOptlen l ipopt)).mapM fun ptr => rdBytes l.bytes (ptr - 1) 4
  return lit "ip." ++ lit name ++ lit "(ptr=" ++ fmtU (byteAt 2 ipopt) ++ lit ",data=" ++
    slashed (entries.map dottedQuad) ++ lit ")+"

/-- `ARS_IPOPT_TS_TSONLY`. -/
def arsIpoptTsTsonly : ℕ := 0
/-- `ARS_IPOPT_TS_TSANDADDR`. -/
def arsIpoptTsTsandaddr : ℕ := 1
/-- `ARS_IPOPT_TS_PRESPEC`. -/
def arsIpoptTsPrespec : ℕ := 3

/-- The flags of a timestamp option: a name if they have one. -/
def fmtTsFlags (flags : ℕ) : List UInt8 :=
  if flags = arsIpoptTsTsonly then lit "tsonly"
  else if flags = arsIpoptTsTsandaddr then lit "tsandaddr"
  else if flags = arsIpoptTsPrespec then lit "prespec"
  else fmtU flags

/-- One entry of a timestamp option. With an address the timestamp is written as it lies in
memory, without `ntohl`. -/
def fmtTsEntry (withAddr : Bool) (x : List UInt8) : List UInt8 :=
  if withAddr then
    fmtU (be32 (x.getD 7 0) (x.getD 6 0) (x.getD 5 0) (x.getD 4 0)) ++ lit "@" ++ dottedQuad x
  else fmtU (ntohlAt 0 x)

/-- The timestamp option. -/
def arsRapdTs (l : ArsLayer) (ipopt : List UInt8) : Except ArsErr (List UInt8) := do
  let overflow := hiAt 3 ipopt
  let flags := loAt 3 ipopt
  let withAddr := flags = arsIpoptTsTsandaddr ∨ flags = arsIpoptTsPrespec
  let entry := if withAddr then 8 else 4
  let entries ← (arsOptPtrs 5 entry (arsRapdOptlen l ipopt)).mapM fun ptr =>
    rdBytes l.bytes (ptr - 1) entry
  return lit "ip.ts(ptr=" ++ fmtU (byteAt 2 ipopt) ++ lit ",flags=" ++ fmtTsFlags flags ++
    lit ",overflow=" ++ fmtU overflow ++ lit ",data=" ++
    slashed (entries.map (fmtTsEntry withAddr)) ++ lit ")+"

/-- `ars_rapd_ipopt`. -/
def arsRapdIpopt (_pkt : ArsPacket) (l : ArsLayer) : Except ArsErr (List UInt8) := do
  let ipopt ← rdStruct l 40
  let kind := byteAt 0 ipopt
  if kind = arsIpoptEnd then return lit "ip.eol()+"
  else if kind = arsIpoptNoop then return lit "ip.nop()+"
  else if kind = arsIpoptRr then arsRapdRoute "rr" l ipopt
  else if kind = arsIpoptLsrr then arsRapdRoute "lsrr" l ipopt
  else if kind = arsIpoptSsrr then arsRapdRoute "ssrr" l ipopt
  else if kind = arsIpoptTimestamp then arsRapdTs l ipopt
  else arsRapdUnknown "ip.unknown" l

/-- The blocks of a SACK option, out of the local structure. -/
def arsRapdSack (l : ArsLayer) (tcpopt : List UInt8) : Except ArsErr (List UInt8) := do
  let blocks := min ((arsRapdOptlen l tcpopt - 2) / 8) 4
  let entries ← (List.range blocks).mapM fun i => rdBytes tcpopt (2 + 8 * i) 8
  return lit "tcp.sack(blocks=" ++
    slashed (entries.map fun x => fmtU (ntohlAt 0 x) ++ lit "-" ++ fmtU (ntohlAt 4 x)) ++ lit ")+"

/-- `ars_rapd_tcpopt`. -/
def arsRapdTcpopt (_pkt : ArsPacket) (l : ArsLayer) : Except ArsErr (List UInt8) := do
  let tcpopt ← rdStruct l 34
  let kind := byteAt 0 tcpopt
  if kind = arsTcpoptEol then return lit "tcp.eol()+"
  else if kind = arsTcpoptNop then return lit "tcp.nop()+"
  else if kind = arsTcpoptMaxseg then
    return lit "tcp.mss(size=" ++ fmtU (ntohsAt 2 tcpopt) ++ lit ")+"
  else if kind = arsTcpoptWindow then
    return lit "tcp.wscale(shift=" ++ fmtU (byteAt 2 tcpopt) ++ lit ")+"
  else if kind = arsTcpoptSackPerm then return lit "tcp.sackperm()+"
  else if kind = arsTcpoptSack then arsRapdSack l tcpopt
  else if kind = arsTcpoptEchorequest then
    return lit "tcp.echo(info=" ++ fmtU (ntohlAt 2 tcpopt) ++ lit ")+"
  else if kind = arsTcpoptEchoreply then
    return lit "tcp.echoreply(info=" ++ fmtU (ntohlAt 2 tcpopt) ++ lit ")+"
  else if kind = arsTcpoptTimestamp then
    return lit "tcp.ts(val=" ++ fmtU (ntohlAt 2 tcpopt) ++ lit ",ecr=" ++ fmtU (ntohlAt 6 tcpopt) ++
      lit ")+"
  else arsRapdUnknown "tcp.unknown" l

/-! ### IGRP -/

/-- `ars_rapd_igrp`. -/
def arsRapdIgrp (_pkt : ArsPacket) (l : ArsLayer) : Except ArsErr (List UInt8) := do
  let igrp ← rdHdr l
  let opcode := loAt 0 igrp
  return lit "igrp(" ++
    field "version" (fmtU (hiAt 0 igrp)) ++
    field "opcode" (if opcode = 1 then lit "update"
      else if opcode = 2 then lit "request" else fmtU opcode) ++
    field "edition" (fmtU (byteAt 1 igrp)) ++
    field "autosys" (fmtU (ntohsAt 2 igrp)) ++
    field "interior" (fmtU (ntohsAt 4 igrp)) ++
    field "system" (fmtU (ntohsAt 6 igrp)) ++
    field "exterior" (fmtU (ntohsAt 8 igrp)) ++
    lit "cksum=" ++ fmtHex 4 (ntohsAt 10 igrp) ++ lit ")+"

/-- `get_net_int24`. -/
def getNetInt24 (i : ℕ) (h : List UInt8) : ℕ := ntohsAt i h * 256 + byteAt (i + 2) h

/-- `ars_rapd_igrpentry`. -/
def arsRapdIgrpentry (_pkt : ArsPacket) (l : ArsLayer) : Except ArsErr (List UInt8) := do
  let entry ← rdHdr l
  return lit "igrp.entry(" ++
    field "dest" (fmtU (byteAt 0 entry) ++ lit "." ++ fmtU (byteAt 1 entry) ++ lit "." ++
      fmtU (byteAt 2 entry)) ++
    field "delay" (fmtU (getNetInt24 3 entry)) ++
    field "bandwidth" (fmtU (getNetInt24 6 entry)) ++
    field "mtu" (fmtU (ntohsAt 9 entry)) ++
    field "reliability" (fmtU (byteAt 11 entry)) ++
    field "load" (fmtU (byteAt 12 entry)) ++
    lit "hopcount=" ++ fmtU (byteAt 13 entry) ++ lit ")+"

/-! ### Data -/

/-- A byte of a data string, escaped if it is not printable or has a meaning of its own in a
description. -/
def escapeByte (b : UInt8) : List UInt8 :=
  if isGraph b ∧ b ≠ ch '(' ∧ b ≠ ch ')' ∧ b ≠ ch '+' ∧ b ≠ ch ',' ∧ b ≠ ch '=' then [b]
  else lit "\\" ++ padZero 2 (fmtX b.toNat)

/-- A data string. -/
def escapeBytes (bs : List UInt8) : List UInt8 := (bs.map escapeByte).flatten

/-- `ars_rapd_data`. -/
def arsRapdData (pkt : ArsPacket) (l : ArsLayer) : Except ArsErr (List UInt8) := do
  let data ← rdBytes l.bytes 0 l.lSize
  if arsTestOption pkt arsOptRapdHexdata then return lit "data(hex=" ++ hexBytes data ++ lit ")+"
  else return lit "data(str=" ++ escapeBytes data ++ lit ")+"

/-! ### The description -/

/-- The `li_rapd` of a type. -/
def arsLiRapd (libc : Libc) : ArsType → ArsPacket → ArsLayer → Except ArsErr (List UInt8)
  | .ip => arsRapdIp
  | .ipopt => arsRapdIpopt
  | .icmp => arsRapdIcmp
  | .udp => arsRapdUdp
  | .tcp => arsRapdTcp
  | .tcpopt => arsRapdTcpopt
  | .igrp => arsRapdIgrp
  | .igrpentry => arsRapdIgrpentry
  | .ip6 => arsRapdIp6 libc
  | .icmp6 => arsRapdIcmp6
  | .data => arsRapdData

/-- The text of the layers, before it is copied to the caller. -/
def arsRapdLayers (libc : Libc) (pkt : ArsPacket) : Except ArsErr (List UInt8) := do
  let texts ← pkt.pLayer.mapM fun l => arsLiRapd libc l.lType pkt l
  return adbufRtrim texts.flatten

/-- `ars_d_from_ars`: what is in the `len` bytes at `dest` afterwards. -/
def arsDFromArs (libc : Libc) (dest : List UInt8) (len : ℕ) (pkt : ArsPacket) :
    Except ArsErr (List UInt8) :=
  if len = 0 then .ok dest
  else (arsRapdLayers libc pkt).map fun text => text.take (len - 1)

end StyxWire
