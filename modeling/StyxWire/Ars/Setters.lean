import StyxWire.Ars.Compile
import StyxWire.Ars.Rapd

/-!
# Setting the fields of a layer

The `ars_d_set_*` functions (`apd.c`): a field of a description, given by its name and
its value as texts, is stored in the layer it was written for.

Each of these functions is a chain of comparisons with the names it knows. Here it is the
table of these names, in the order of the chain, with what each of them does
(`StyxWire.arsDSet` looks the name up). What a field does is put together from a few
`StyxWire.Setter`s: store a number as a byte, in network order, in one half of a byte;
set a flag besides. A setter overwrites bytes of the block of its layer through
`StyxWire.put`, so that a write outside the block is the error `StyxWire.ArsErr.oob`: an
option of one byte has no length byte.

The functions that set a field work on the last layer of the packet; here they are given
the layer itself.
-/

namespace StyxWire

open Mem Text

/-- `ARS_ERR_BUFSZ`. -/
def arsErrBufsz : ℕ := 1024

/-- `return code`, after `ars_set_error` of a text that is made up of several. -/
def arsFailText {α : Type} (code : ArsCode) (msg : List UInt8) : Except ArsErr α :=
  .error (.ars code (msg.take (arsErrBufsz - 1)))

/-! ### Strings -/

/-- `ars_atou`, which is `strtoul(s, NULL, 0)`. -/
def arsAtou (s : List UInt8) : ℕ := strtoul s

/-- `strisnum`: blanks, a minus sign, digits, blanks. -/
def strisnum (s : List UInt8) : Bool :=
  let s := s.dropWhile isSpace
  let s := if s.head? = some (ch '-') then s.tail else s
  s.head?.any isDigit && (s.dropWhile isDigit).all isSpace

/-- The loop of `strftok`: what follows the piece `cur`, which is empty outside of one. -/
def strftokLoop (sep : UInt8) : List UInt8 → List UInt8 → List (List UInt8)
  | [], cur => if cur = [] then [] else [cur]
  | c :: s, cur =>
    if c ≠ sep then strftokLoop sep s (cur ++ [c])
    else if cur = [] then strftokLoop sep s []
    else cur :: strftokLoop sep s []

/-- `strftok`, with one separator: the first `n` pieces that are not empty. -/
def strftok (sep : UInt8) (s : List UInt8) (n : ℕ) : List (List UInt8) :=
  (strftokLoop sep s []).take n

/-- **The pieces are found**, those that have a separator after them and the last one. -/
theorem strftok_pieces {sep : UInt8} {ps : List (List UInt8)} {p : List UInt8} {n : ℕ}
    (hps : ∀ q ∈ ps, q ≠ [] ∧ ∀ c ∈ q, c ≠ sep) (hp : p ≠ [] ∧ ∀ c ∈ p, c ≠ sep) :
    strftok sep ((ps.map (· ++ [sep])).flatten ++ p) n = (ps ++ [p]).take n := by
  have hword : ∀ {w : List UInt8} (s cur : List UInt8), (∀ c ∈ w, c ≠ sep) →
      strftokLoop sep (w ++ s) cur = strftokLoop sep s (cur ++ w) := by
    intro w
    induction w with
    | nil => simp
    | cons c w ih =>
      intro s cur hw
      rw [List.cons_append, strftokLoop, if_pos (hw c List.mem_cons_self),
        ih _ _ fun d hd => hw d (List.mem_cons_of_mem _ hd), List.append_assoc]
      rfl
  rw [strftok]
  congr 1
  induction ps with
  | nil =>
    have h := hword [] [] hp.2
    rw [List.append_nil, List.nil_append] at h
    rw [List.map_nil, List.flatten_nil, List.nil_append, h, strftokLoop, if_neg hp.1]
    rfl
  | cons q ps ih =>
    obtain ⟨hne, hq⟩ := hps q List.mem_cons_self
    rw [List.map_cons, List.flatten_cons, List.append_assoc, List.append_assoc, hword _ _ hq,
      List.nil_append, List.singleton_append, strftokLoop, if_neg (not_not.mpr rfl), if_neg hne,
      ih fun r hr => hps r (List.mem_cons_of_mem _ hr)]
    rfl

/-- `strchr`, and the text on both sides of the character. -/
def strchr (c : UInt8) (s : List UInt8) : Option (List UInt8 × List UInt8) :=
  if c ∈ s then some (s.takeWhile (· ≠ c), (s.dropWhile (· ≠ c)).tail) else none

/-- `hexval`, of `apd.c`; the same digits as those of the table `hval` of `hex.c`. -/
def hexval (c : UInt8) : Option ℕ := if digitVal c < 16 then some (digitVal c) else none

/-- A byte out of two digits. -/
def hexByte (x0 x1 : ℕ) : UInt8 := UInt8.ofNat (x0 * 16 + x1)

/-- `hextobin`. -/
def hextobin : List UInt8 → Option (List UInt8)
  | [] => some []
  | [_] => none
  | c0 :: c1 :: s => do return hexByte (← hexval c0) (← hexval c1) :: (← hextobin s)

/-! ### Setters -/

/-- Overwrite bytes of a layer, inside its block. -/
def put (off : ℕ) (src : List UInt8) (l : ArsLayer) : Except ArsErr ArsLayer :=
  if off + src.length ≤ l.lData.length then .ok (l.write off src) else .error .oob

/-- What a field does: given its value, it changes the layer. -/
abbrev Setter := Libc → List UInt8 → ArsLayer → Except ArsErr ArsLayer

/-- `l_flags |= flag`. -/
def ArsLayer.addFlag (flag : ℕ) (l : ArsLayer) : ArsLayer := l.setFlags (l.lFlags ||| flag)

/-- The setter, and a flag. -/
def taking (flag : ℕ) (s : Setter) : Setter := fun libc v l => (s libc v l).map (·.addFlag flag)

/-- A number, as a byte. -/
def setByte (off : ℕ) : Setter := fun _ v => put off [UInt8.ofNat (arsAtou v)]

/-- A number, as the low bit field of a byte. -/
def setLow (off : ℕ) : Setter := fun _ v l => do
  let b ← rdByte l.lData off
  put off [setLo b (arsAtou v)] l

/-- A number, as the high bit field of a byte. -/
def setHigh (off : ℕ) : Setter := fun _ v l => do
  let b ← rdByte l.lData off
  put off [setHi b (arsAtou v)] l

/-- `htons` of a number. -/
def setNet16 (off : ℕ) : Setter := fun _ v => put off (putBe16 (arsAtou v))

/-- `htonl` of a number. -/
def setNet32 (off : ℕ) : Setter := fun _ v => put off (putBe32 (arsAtou v))

/-- A 16-bit number as it lies in memory, without `htons`. -/
def setHost16 (off : ℕ) : Setter := fun _ v => put off (putLe16 (arsAtou v))

/-- `ars_resolve`. -/
def setAddr (off : ℕ) : Setter := fun libc v l => do
  let a ← arsResolve libc v
  put off a l

/-- `ars_resolve6`. -/
def setAddr6 (off : ℕ) : Setter := fun libc v l => do
  let a ← arsResolve6 libc v
  put off a l

/-- A symbol out of a list, or a number, as a byte. -/
def setSymbol (off : ℕ) (symbols : List (String × ℕ)) : Setter := fun _ v =>
  put off [UInt8.ofNat
    (((symbols.find? fun e => strcaseEq v (lit e.1)).map Prod.snd).getD (arsAtou v))]

/-- A table of fields: their names, and what they do. -/
abbrev Fields := List (List String × Setter)

/-- Look a field up, or report that the layer does not have it. -/
def arsDSet (layer : String) (fields : Fields) (libc : Libc) (l : ArsLayer) (f v : List UInt8) :
    Except ArsErr ArsLayer :=
  match fields.find? fun e => e.1.any fun name => strcaseEq f (lit name) with
  | some e => e.2 libc v l
  | none => arsFailText .invalid (lit "Invalid field for " ++ lit layer ++ lit " layer: '" ++ f ++
      lit "'")

/-! ### IPv4 -/

/-- Combine two bytes with a mask, byte by byte. -/
def mask16 (op : UInt8 → UInt8 → UInt8) (off : ℕ) (m : List UInt8) (l : ArsLayer) :
    Except ArsErr ArsLayer := do
  let old ← rdBytes l.lData off 2
  put off (List.zipWith op old m) l

/-- `frag_off = frag_off & 0xE000` – of the field as it lies in memory – and then
`frag_off |= htons(v >> 3)`. -/
def setFragoff : Setter := fun _ v l => do
  let l ← mask16 (· &&& ·) 6 (putLe16 0xE000) l
  mask16 (· ||| ·) 6 (putBe16 (arsAtou v / 8)) l

/-- `frag_off &= htons(~bit)` or `frag_off |= htons(bit)`. -/
def setFragBit (bit : ℕ) : Setter := fun _ v l =>
  if arsAtou v = 0 then mask16 (· &&& ·) 6 (putBe16 (65535 - bit)) l
  else mask16 (· ||| ·) 6 (putBe16 bit) l

/-- `ars_d_set_ip`. -/
def arsDSetIp : Libc → ArsLayer → List UInt8 → List UInt8 → Except ArsErr ArsLayer :=
  arsDSet "IP"
    [(["saddr"], setAddr 12),
      (["daddr"], setAddr 16),
      (["ihl"], taking arsTakeIpHdrlen (setLow 0)),
      (["ver"], taking arsTakeIpVersion (setHigh 0)),
      (["tos"], setByte 1),
      (["totlen"], taking arsTakeIpTotlen (setNet16 2)),
      (["id"], setNet16 4),
      (["fragoff"], setFragoff),
      (["mf"], setFragBit arsIpMf),
      (["df"], setFragBit arsIpDf),
      (["rf"], setFragBit arsIpRf),
      (["ttl"], setByte 8),
      (["proto"], taking arsTakeIpProtocol
        (setSymbol 9 [("icmp", 1), ("udp", 17), ("tcp", 6)])),
      (["cksum"], taking arsTakeIpCksum (setNet16 10))]

/-! ### IP options -/

/-- `ipopt->len` and `tcpopt->len`. -/
def setOptlen : Setter := setByte 1

/-- The pointer of an option. -/
def setIpoptPtr : Setter := taking arsTakeIpoptPtr (setByte 2)

/-- `IPOPTRR_MAX_ENTRIES`. -/
def ipoptrrMaxEntries : ℕ := 9

/-- The route of an option: the addresses, and the pointer if it was not set. -/
def setRoute : Setter := fun libc v l => do
  let addrs := strftok (ch '/') v ipoptrrMaxEntries
  let l ← addrs.zipIdx.foldlM (fun l a => setAddr (3 + a.2 * 4) libc a.1 l) l
  if arsDonttake l.lFlags arsTakeIpoptPtr then
    let kind ← rdByte l.lData 0
    put 2 [UInt8.ofNat (if kind.toNat = arsIpoptRr then 4 + addrs.length * 4 else 4)] l
  else return l

/-- `ars_d_set_ipopt_rr`. -/
def arsDSetIpoptRr : Libc → ArsLayer → List UInt8 → List UInt8 → Except ArsErr ArsLayer :=
  arsDSet "IP.RR"
    [(["optlen"], setOptlen), (["ptr"], setIpoptPtr), (["data"], setRoute)]

/-- The flags of a timestamp option. -/
def setTsFlags : Setter := fun _ v l => do
  let b ← rdByte l.lData 3
  let flags ←
    if strisnum v then pure (arsAtou v % 16)
    else if strcaseEq v (lit "tsonly") then pure arsIpoptTsTsonly
    else if strcaseEq v (lit "tsandaddr") then pure arsIpoptTsTsandaddr
    else if strcaseEq v (lit "prespec") then pure arsIpoptTsPrespec
    else arsFailText .invalid (lit "Invalid symbol for ip.ts flags: '" ++ v ++
      lit "' (use: tsonly, tsandaddr, prespec or a numerical value)")
  put 3 [setLo b flags] l

/-- `IPOPTTS_MAX_ENTRIES`. -/
def ipopttsMaxEntries : ℕ := 9

/-- One entry of a timestamp option, as the flags ask for: with an address after `@`, of
which there is room for four, or without. -/
def setTsEntry (flags : ℕ) (libc : Libc) (l : ArsLayer) (e : List UInt8 × ℕ) :
    Except ArsErr ArsLayer :=
  match strchr (ch '@') e.1 with
  | some (ts, gw) =>
    if flags = arsIpoptTsTsonly then arsFail .invalid
      "Gateway specified but ip.ts flags set to 'tsonly'. (Try flags=tsandaddr,data=...)"
    else do
      let addr ← arsResolve libc gw
      if e.2 < 4 then
        let l ← put (4 + e.2 * 8) addr l
        put (8 + e.2 * 8) (putBe32 (arsAtou ts)) l
      else return l
  | none =>
    if flags = arsIpoptTsTsandaddr ∨ flags = arsIpoptTsPrespec then
      arsFailText .invalid (lit "Gateway not specified in data for ip.ts, but flags set to " ++
        lit "'tsandaddr' or 'prespec'. (Try flags=tsonly)")
    else put (4 + e.2 * 4) (putBe32 (arsAtou e.1)) l

/-- The entries of a timestamp option, and the pointer if it was not set. -/
def setTsData : Setter := fun libc v l => do
  let b ← rdByte l.lData 3
  let flags := b.toNat % 16
  let entries := strftok (ch '/') v ipopttsMaxEntries
  let l ← entries.zipIdx.foldlM (setTsEntry flags libc) l
  if arsDonttake l.lFlags arsTakeIpoptPtr then
    put 2 [UInt8.ofNat (if flags = arsIpoptTsTsandaddr ∨ flags = arsIpoptTsPrespec then
      5 + entries.length * 8 else 5 + entries.length * 4)] l
  else return l

/-- `ars_d_set_ipopt_ts`. -/
def arsDSetIpoptTs : Libc → ArsLayer → List UInt8 → List UInt8 → Except ArsErr ArsLayer :=
  arsDSet "IP.TS"
    [(["optlen"], setOptlen),
      (["ptr"], setIpoptPtr),
      (["flags"], setTsFlags),
      (["overflow"], setHigh 3),
      (["data"], setTsData)]

/-- `ars_d_set_ipopt_sid`. -/
def arsDSetIpoptSid : Libc → ArsLayer → List UInt8 → List UInt8 → Except ArsErr ArsLayer :=
  arsDSet "IP.SID" [(["optlen"], setOptlen), (["sid"], setHost16 2)]

/-- A field of a security option that is given as `n` hexadecimal digits. -/
def setHexDigits (off n : ℕ) (name count sample : String) : Setter := fun _ v l =>
  if v.length ≠ n then
    arsFailText .invalid (lit "Invalid ip.sec " ++ lit name ++ lit " field value of '" ++ v ++
      lit "'(should be " ++ lit count ++ lit " hex digits, like this: ...," ++ lit name ++ lit "=" ++
      lit sample ++ lit ",...)")
  else
    match hextobin v with
    | some bs => put off bs l
    | none => arsFailText .invalid (lit "Invalid hex value for ip.sec hex: '" ++ v ++ lit "'")

/-- `ars_d_set_ipopt_sec`. -/
def arsDSetIpoptSec : Libc → ArsLayer → List UInt8 → List UInt8 → Except ArsErr ArsLayer :=
  arsDSet "IP.SEC"
    [(["optlen"], setOptlen),
      (["seclev"], setHost16 2),
      (["comp"], setHost16 4),
      (["hrest"], setHexDigits 6 4 "hrest" "four" "252A"),
      (["tcc"], setHexDigits 8 6 "tcc" "six" "252A27")]

/-- `ars_d_set_ipopt_dumb`. -/
def arsDSetIpoptDumb : Libc → ArsLayer → List UInt8 → List UInt8 → Except ArsErr ArsLayer :=
  arsDSet "IP.?" [(["optlen"], setOptlen)]

/-! ### UDP, TCP and its options -/

/-- `ars_d_set_udp`. -/
def arsDSetUdp : Libc → ArsLayer → List UInt8 → List UInt8 → Except ArsErr ArsLayer :=
  arsDSet "UDP"
    [(["sport"], setNet16 0),
      (["dport"], setNet16 2),
      (["len"], taking arsTakeUdpLen (setNet16 4)),
      (["cksum"], taking arsTakeUdpCksum (setNet16 6))]

/-- The flags whose letter, small or capital, is in the value. -/
def tcpFlagsOf (v : List UInt8) : ℕ :=
  (arsTcpFlags.filter fun f => ch f.2 ∈ v ∨ ch f.2.toUpper ∈ v).foldl (fun flags f => flags ||| f.1) 0

/-- `ars_d_set_tcp`. -/
def arsDSetTcp : Libc → ArsLayer → List UInt8 → List UInt8 → Except ArsErr ArsLayer :=
  arsDSet "TCP"
    [(["sport"], setNet16 0),
      (["dport"], setNet16 2),
      (["seq"], setNet32 4),
      (["ack"], setNet32 8),
      (["x2"], setLow 12),
      (["off"], taking arsTakeTcpHdrlen (setHigh 12)),
      (["flags"], fun _ v => put 13 [UInt8.ofNat (tcpFlagsOf v)]),
      (["win"], setNet16 14),
      (["cksum"], taking arsTakeTcpCksum (setNet16 16)),
      (["urp"], setNet16 18)]

/-- `ars_d_set_tcpopt_mss`. -/
def arsDSetTcpoptMss : Libc → ArsLayer → List UInt8 → List UInt8 → Except ArsErr ArsLayer :=
  arsDSet "TCP.MSS" [(["optlen"], setOptlen), (["size"], setNet16 2)]

/-- `ars_d_set_tcpopt_wscale`. -/
def arsDSetTcpoptWscale : Libc → ArsLayer → List UInt8 → List UInt8 → Except ArsErr ArsLayer :=
  arsDSet "TCP.WSCALE" [(["optlen"], setOptlen), (["shift"], setByte 2)]

/-- `TCPOPTSACK_MAX_ENTRIES`. -/
def tcpoptsackMaxEntries : ℕ := 4

/-- One block of a SACK option. The text of the failure is the format: the source passes no
argument for its `%s`. -/
def setSackBlock (l : ArsLayer) (e : List UInt8 × ℕ) : Except ArsErr ArsLayer :=
  match strchr (ch '-') e.1 with
  | some (origin, len) => do
    let l ← put (2 + e.2 * 8) (putBe32 (arsAtou origin)) l
    put (6 + e.2 * 8) (putBe32 (arsAtou len)) l
  | none => arsFailText .invalid (lit "Invalid syntax for tcp.sack blocks: '%s' " ++
      lit "(try ...tcp.sack(blocks=123342-10/12653-50/0-0/0-0)... )")

/-- `ars_d_set_tcpopt_sack`. -/
def arsDSetTcpoptSack : Libc → ArsLayer → List UInt8 → List UInt8 → Except ArsErr ArsLayer :=
  arsDSet "TCP.SACK"
    [(["optlen"], setOptlen),
      (["blocks"], fun _ v l =>
        (strftok (ch '/') v tcpoptsackMaxEntries).zipIdx.foldlM setSackBlock l)]

/-- `ars_d_set_tcpopt_dumb`. -/
def arsDSetTcpoptDumb : Libc → ArsLayer → List UInt8 → List UInt8 → Except ArsErr ArsLayer :=
  arsDSet "TCP.?" [(["optlen"], setOptlen)]

/-- `ars_d_set_tcpopt_echo`. -/
def arsDSetTcpoptEcho : Libc → ArsLayer → List UInt8 → List UInt8 → Except ArsErr ArsLayer :=
  arsDSet "TCP.ECHO" [(["optlen"], setOptlen), (["info"], setNet32 2)]

/-- `ars_d_set_tcpopt_ts`. -/
def arsDSetTcpoptTs : Libc → ArsLayer → List UInt8 → List UInt8 → Except ArsErr ArsLayer :=
  arsDSet "TCP.TS"
    [(["optlen"], setOptlen), (["val", "tsval"], setNet32 2), (["ecr", "tsecr"], setNet32 6)]

/-! ### ICMP, IPv6 and ICMPv6 -/

/-- `ars_d_set_icmp`. -/
def arsDSetIcmp : Libc → ArsLayer → List UInt8 → List UInt8 → Except ArsErr ArsLayer :=
  arsDSet "ICMP"
    [(["type"], setByte 0),
      (["code"], setByte 1),
      (["cksum"], taking arsTakeIcmpCksum (setNet16 2)),
      (["id"], setNet16 4),
      (["seq"], setNet16 6),
      (["gw"], setAddr 4),
      (["unused"], setNet32 4)]

/-- `ARS_IP6_SET`, of a word that is computed from the old one. -/
def setIp6Word (word : ArsLayer → ℕ → ℕ) : Setter := fun _ v l =>
  put 0 (putBe32 (word l (arsAtou v))) l

/-- `ars_d_set_ip6`. -/
def arsDSetIp6 : Libc → ArsLayer → List UInt8 → List UInt8 → Except ArsErr ArsLayer :=
  arsDSet "IP6"
    [(["saddr"], setAddr6 8),
      (["daddr"], setAddr6 24),
      (["ver"], taking arsTakeIp6Version
        (setIp6Word fun l v => arsIp6Word v l.ip6Tclass l.ip6Flow)),
      (["tclass"], setIp6Word fun l v => arsIp6Word l.ip6Version v l.ip6Flow),
      (["flow"], setIp6Word fun l v => arsIp6Word l.ip6Version l.ip6Tclass v),
      (["plen"], taking arsTakeIp6Payloadlen (setNet16 4)),
      (["nh", "nexthdr"], taking arsTakeIp6Nexthdr
        (setSymbol 6 [("icmp6", 58), ("icmpv6", 58), ("udp", 17), ("tcp", 6), ("none", 59)])),
      (["hlim", "hoplimit"], setByte 7)]

/-- `ars_d_set_icmp6`. -/
def arsDSetIcmp6 : Libc → ArsLayer → List UInt8 → List UInt8 → Except ArsErr ArsLayer :=
  arsDSet "ICMP6"
    [(["type"], setByte 0),
      (["code"], setByte 1),
      (["cksum"], taking arsTakeIcmp6Cksum (setNet16 2)),
      (["id"], setNet16 4),
      (["seq"], setNet16 6),
      (["unused"], setNet32 4)]

/-! ### IGRP -/

/-- The operation of an IGRP header: a name or a number, in the low bit field. -/
def setIgrpOpcode : Setter := fun _ v l => do
  let b ← rdByte l.lData 0
  put 0 [setLo b (if strcaseEq v (lit "update") then 1
    else if strcaseEq v (lit "request") then 2 else arsAtou v)] l

/-- `ars_d_set_igrp`. -/
def arsDSetIgrp : Libc → ArsLayer → List UInt8 → List UInt8 → Except ArsErr ArsLayer :=
  arsDSet "IGRP"
    [(["version"], setHigh 0),
      (["opcode"], setIgrpOpcode),
      (["cksum"], taking arsTakeIgrpCksum (setNet16 10)),
      (["edition"], setByte 1),
      (["autosys"], setNet16 2),
      (["interior"], setNet16 4),
      (["system"], setNet16 6),
      (["exterior"], setNet16 8)]

/-- `igrp_set_dest`: three numbers with dots in between. -/
def setIgrpDest : Setter := fun _ v l =>
  let fields := do
    let (f0, s) ← strchr (ch '.') v
    let (f1, f2) ← strchr (ch '.') s
    if strisnum f0 ∧ strisnum f1 ∧ strisnum f2 then
      return [f0, f1, f2].map fun f => UInt8.ofNat (arsAtou f)
    else none
  match fields with
  | some bs => put 0 bs l
  | none => arsFailText .invalid (lit "Invalid IGRP entry 'dest' field value: '" ++ v ++
      lit "'\n")

/-- `igrp_set_uint24`. -/
def setNet24 (off : ℕ) : Setter := fun _ v => put off ((putBe32 (arsAtou v)).drop 1)

/-- `ars_d_set_igrpentry`. -/
def arsDSetIgrpentry : Libc → ArsLayer → List UInt8 → List UInt8 → Except ArsErr ArsLayer :=
  arsDSet "IGRP.ENTRY"
    [(["dest"], setIgrpDest),
      (["delay"], setNet24 3),
      (["bandwidth"], setNet24 6),
      (["mtu"], setNet16 9),
      (["reliability"], setByte 11),
      (["load"], setByte 12),
      (["hopcount"], setByte 13)]

/-! ### Data -/

/-- `ars_push_data`. -/
def arsPushData (data : List UInt8) (l : ArsLayer) : ArsLayer :=
  if data = [] then l else l.grow data

/-- The loop of `ars_decode_hex`. -/
def arsDecodeHexLoop : List UInt8 → Except ArsErr (List UInt8)
  | c0 :: c1 :: s =>
    match hexval c0, hexval c1 with
    | some x0, some x1 => (arsDecodeHexLoop s).map (hexByte x0 x1 :: ·)
    | _, _ => arsFailText .error (lit "Wrong byte for 'hex' data: '" ++ [c0, c1] ++ lit "'")
  | _ => .ok []

/-- `ars_decode_hex`. -/
def arsDecodeHex (s : List UInt8) : Except ArsErr (List UInt8) :=
  if s.length % 2 ≠ 0 then arsFail .error "Odd length of 'hex' data" else arsDecodeHexLoop s

/-- `ars_decode_string`: a backslash and two digits are one byte, anything else is itself. -/
def arsDecodeString : List UInt8 → List UInt8
  | [] => []
  | [c] => [c]
  | [c, c0] => [c, c0]
  | c :: c0 :: c1 :: s =>
    match c == ch '\\', hexval c0, hexval c1 with
    | true, some x0, some x1 => hexByte x0 x1 :: arsDecodeString s
    | _, _, _ => c :: arsDecodeString (c0 :: c1 :: s)

/-- `ARS_DATA_BUF_SIZE`. -/
def arsDataBufSize : ℕ := 4096

/-- Data of one kind is pushed. -/
def pushing (decode : Libc → List UInt8 → Except ArsErr (List UInt8)) : Setter := fun libc v l =>
  (decode libc v).map (arsPushData · l)

/-- The first bytes of a file. -/
def arsReadFile (libc : Libc) (v : List UInt8) : Except ArsErr (List UInt8) :=
  match libc.readFile v arsDataBufSize with
  | .ok bs => .ok bs
  | .error msg => arsFailText .error msg

/-- `ars_d_set_data`. -/
def arsDSetData : Libc → ArsLayer → List UInt8 → List UInt8 → Except ArsErr ArsLayer :=
  arsDSet "DATA"
    [(["file"], pushing arsReadFile),
      (["str"], pushing fun _ v => .ok (arsDecodeString v)),
      (["hex"], pushing fun _ v => arsDecodeHex v),
      (["uint32"], pushing fun _ v => .ok (putBe32 (arsAtou v))),
      (["uint24"], pushing fun _ v => .ok ((putBe32 (arsAtou v)).drop 1)),
      (["uint16"], pushing fun _ v => .ok (putBe16 (arsAtou v))),
      (["uint8"], pushing fun _ v => .ok [UInt8.ofNat (arsAtou v)])]

end StyxWire
