import StyxWire.Ars.Setters

/-!
# Building a packet from its description

The description language (`apd.c`): the tokenizer `ars_d_parser`, the table of keywords,
and the finite state machine of `ars_d_build`, which takes one token at a time, adds
layers to a packet and sets their fields.

The machine calls the tokenizer for one token after the other, whatever its state is, so
the tokens are a list (`StyxWire.arsDTokens`) over which it is folded. A description is a
C string: the list of its bytes, none of which is zero.
-/

namespace StyxWire

open Text

/-! ### Tokens -/

/-- `ARS_MAX_TSIZE`. -/
def arsMaxTsize : ℕ := 3000 * 4

/-- The characters that are tokens of their own. -/
def isDelim (c : UInt8) : Bool :=
  c = ch '(' ∨ c = ch ')' ∨ c = ch ',' ∨ c = ch '=' ∨ c = ch '+'

/-- The loop of `ars_d_parser`, with room for that many characters. -/
def arsDWord : ℕ → List UInt8 → List UInt8 × List UInt8
  | 0, t => ([], t)
  | _ + 1, [] => ([], [])
  | n + 1, c :: t =>
    if isDelim c then ([], c :: t)
    else
      let (next, t) := arsDWord n t
      (c :: next, t)

/-- `ars_d_parser`: the next token and what follows it. -/
def arsDParser (t : List UInt8) (size : ℕ) : Option (List UInt8 × List UInt8) :=
  match t with
  | [] => none
  | c :: t =>
    if size = 0 then none
    else if isDelim c ∧ 1 < size then some ([c], t)
    else some (arsDWord (size - 1) (c :: t))

/-- The tokens of a description, at most `n` of them. -/
def arsDTokensFrom : ℕ → List UInt8 → List (List UInt8)
  | 0, _ => []
  | n + 1, t =>
    match arsDParser t arsMaxTsize with
    | none => []
    | some (next, t) => next :: arsDTokensFrom n t

/-- The tokens of a description; each of them is at least one character long. -/
def arsDTokens (t : List UInt8) : List (List UInt8) := arsDTokensFrom t.length t

/-! ### Keywords -/

/-- `struct ars_d_keyword_info`: a keyword, the function that adds its layer – given the option
`ki_opt` already – and the function that sets a field. -/
structure ArsDKeywordInfo where
  /-- The keyword. -/
  kiKeyword : String
  /-- The function that adds the layer. -/
  kiAdd : ArsPacket → Except ArsErr ArsPacket
  /-- The function that sets a field. -/
  kiSet : Libc → ArsLayer → List UInt8 → List UInt8 → Except ArsErr ArsLayer

/-- `ars_dkinfo`. -/
def arsDkinfo : List ArsDKeywordInfo :=
  [⟨"ip", arsAddIphdr, arsDSetIp⟩,
    ⟨"ip.eol", (arsAddIpopt · arsIpoptEnd), arsDSetIpoptDumb⟩,
    ⟨"ip.nop", (arsAddIpopt · arsIpoptNoop), arsDSetIpoptDumb⟩,
    ⟨"ip.sec", (arsAddIpopt · arsIpoptSec), arsDSetIpoptSec⟩,
    ⟨"ip.sid", (arsAddIpopt · arsIpoptSid), arsDSetIpoptSid⟩,
    ⟨"ip.lsrr", (arsAddIpopt · arsIpoptLsrr), arsDSetIpoptRr⟩,
    ⟨"ip.ssrr", (arsAddIpopt · arsIpoptSsrr), arsDSetIpoptRr⟩,
    ⟨"ip.rr", (arsAddIpopt · arsIpoptRr), arsDSetIpoptRr⟩,
    ⟨"ip.ts", (arsAddIpopt · arsIpoptTimestamp), arsDSetIpoptTs⟩,
    ⟨"udp", arsAddUdphdr, arsDSetUdp⟩,
    ⟨"tcp", arsAddTcphdr, arsDSetTcp⟩,
    ⟨"tcp.eol", (arsAddTcpopt · arsTcpoptEol), arsDSetTcpoptDumb⟩,
    ⟨"tcp.nop", (arsAddTcpopt · arsTcpoptNop), arsDSetTcpoptDumb⟩,
    ⟨"tcp.mss", (arsAddTcpopt · arsTcpoptMaxseg), arsDSetTcpoptMss⟩,
    ⟨"tcp.wscale", (arsAddTcpopt · arsTcpoptWindow), arsDSetTcpoptWscale⟩,
    ⟨"tcp.sackperm", (arsAddTcpopt · arsTcpoptSackPerm), arsDSetTcpoptDumb⟩,
    ⟨"tcp.sack", (arsAddTcpopt · arsTcpoptSack), arsDSetTcpoptSack⟩,
    ⟨"tcp.echo", (arsAddTcpopt · arsTcpoptEchorequest), arsDSetTcpoptEcho⟩,
    ⟨"tcp.echoreq", (arsAddTcpopt · arsTcpoptEchorequest), arsDSetTcpoptEcho⟩,
    ⟨"tcp.echoreply", (arsAddTcpopt · arsTcpoptEchoreply), arsDSetTcpoptEcho⟩,
    ⟨"tcp.ts", (arsAddTcpopt · arsTcpoptTimestamp), arsDSetTcpoptTs⟩,
    ⟨"tcp.timestamp", (arsAddTcpopt · arsTcpoptTimestamp), arsDSetTcpoptTs⟩,
    ⟨"icmp", arsAddIcmphdr, arsDSetIcmp⟩,
    ⟨"ip6", arsAddIp6hdr, arsDSetIp6⟩,
    ⟨"icmp6", arsAddIcmp6hdr, arsDSetIcmp6⟩,
    ⟨"igrp", arsAddIgrphdr, arsDSetIgrp⟩,
    ⟨"igrp.entry", arsAddIgrpentry, arsDSetIgrpentry⟩,
    ⟨"data", (arsAddData · 0), arsDSetData⟩]

/-- `ars_get_keyword_by_name`. -/
def arsGetKeywordByName (name : List UInt8) : Option ArsDKeywordInfo :=
  arsDkinfo.find? fun k => strcaseEq (lit k.kiKeyword) name

/-! ### The last layer -/

/-- A function of the last layer, as `ARS_DEF_LAYER` selects it. -/
def ArsPacket.updateLast (pkt : ArsPacket) (f : ArsLayer → Except ArsErr ArsLayer) :
    Except ArsErr ArsPacket :=
  match pkt.pLayer.getLast? with
  | none => .error (.ars .invalid [])
  | some l => (f l).map fun l => pkt.mapLast fun _ => l

/-- Keep the first bytes of a layer. -/
def ArsLayer.cut (l : ArsLayer) (size : ℕ) (h : size ≤ l.lSize) : ArsLayer :=
  { l with lSize := size, size_le := h.trans l.size_le }

/-- `ars_d_setlayer_size`. -/
def arsDSetlayerSize (size : List UInt8) (l : ArsLayer) : Except ArsErr ArsLayer :=
  if h : arsAtou size < 1 ∨ l.lSize < arsAtou size then
    arsFail .invalid "Invalid layer size in description"
  else .ok (l.cut (arsAtou size) (by omega))

/-! ### The state machine -/

/-- The states of the machine (`ARS_G_*`). -/
inductive DState
  | layer
  | fieldOrCbrace
  | value
  | obraceOrPlus
  | cbrace
  | commaOrCbrace
  | lenOrPlus
  | plus
  | equal
  deriving DecidableEq, Repr

/-- What `ars_d_build` keeps: the packet, the state, the keyword and the field. -/
structure DBuild where
  /-- The packet. -/
  pkt : ArsPacket
  /-- The state. -/
  state : DState
  /-- The keyword of the last layer. -/
  k : Option ArsDKeywordInfo
  /-- The name of the field that is being set. -/
  field : List UInt8

/-- One turn of the loop of `ars_d_build`, with the token `next`. There is a keyword wherever
there is a value. -/
def arsDStep (libc : Libc) (s : DBuild) (next : List UInt8) : Except ArsErr DBuild :=
  match s.state with
  | .layer =>
    match arsGetKeywordByName next with
    | none => arsFailText .invalid (lit "Unknown keyword: '" ++ next ++ lit "'")
    | some k => do
      let pkt ← (k.kiAdd s.pkt).mapError (ArsErr.recode .invalid)
      return { s with pkt := pkt, state := .obraceOrPlus, k := some k }
  | .fieldOrCbrace =>
    if next = lit ")" then .ok { s with state := .lenOrPlus }
    else .ok { s with state := .equal, field := next }
  | .value =>
    match s.k with
    | none => .error .oob
    | some k => do
      let pkt ← s.pkt.updateLast fun l => k.kiSet libc l s.field next
      return { s with pkt := pkt, state := .commaOrCbrace }
  | .obraceOrPlus =>
    if next = lit "(" then .ok { s with state := .fieldOrCbrace }
    else if next = lit "+" then .ok { s with state := .layer }
    else arsFail .invalid "Missing brace or plus"
  | .cbrace =>
    if next ≠ lit ")" then arsFail .invalid "Missing closed brace"
    else .ok { s with state := .lenOrPlus }
  | .commaOrCbrace =>
    if next = lit ")" then .ok { s with state := .lenOrPlus }
    else if next = lit "," then .ok { s with state := .fieldOrCbrace }
    else arsFail .invalid "Missing brace or comma"
  | .lenOrPlus =>
    if next = lit "+" then .ok { s with state := .layer }
    else do
      let pkt ← s.pkt.updateLast (arsDSetlayerSize next)
      return { s with pkt := pkt, state := .plus }
  | .plus =>
    if next ≠ lit "+" then arsFail .invalid "Missing plus"
    else .ok { s with state := .layer }
  | .equal =>
    if next ≠ lit "=" then arsFail .invalid "Missing equal"
    else .ok { s with state := .value }

/-- What is left after the last token. -/
def arsDFinish (s : DBuild) : Except ArsErr ArsPacket :=
  if s.state ≠ .lenOrPlus ∧ s.state ≠ .plus ∧ s.state ≠ .obraceOrPlus then
    arsFail .invalid "Packet description truncated"
  else .ok s.pkt

/-- `ars_d_build`. -/
def arsDBuild (libc : Libc) (pkt : ArsPacket) (t : List UInt8) : Except ArsErr ArsPacket := do
  let s ← (arsDTokens t).foldlM (arsDStep libc) ⟨pkt, .layer, none, []⟩
  arsDFinish s

end StyxWire
