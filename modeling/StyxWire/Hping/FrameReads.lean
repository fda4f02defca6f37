import StyxWire.Hping.RecordRoute
import StyxWire.Hping.Signature

/-!
# Reading frames

The functions that receive a frame, with each read checked against what was captured: those of
`Receive`, which take the headers for lists of bytes, and what they print of the bytes behind the
headers. Places are counted from the beginning of the datagram.

Whatever the frames are, nothing is read that was not captured, and the functions are what they are
taken for elsewhere (`StyxWire.Hping.FrameReads.frames_read`). Each of them copies a header only
after a check that there is room for it; the header of the datagram that an ICMP error quotes is
checked twice, once for its fixed part and once for its length.

The dump in hexadecimal is of all the bytes (`StyxWire.Hping.FrameReads.hextobin_hexDump`).
-/

namespace StyxWire.Hping.FrameReads

open Mem Text RecordRoute

/-! ### The functions -/

/-- The options for what is printed of a frame. -/
structure DumpConfig extends FormatConfig where
  /-- `--json`. -/
  json : Bool
  /-- `--dump`. -/
  optHexdump : Bool
  /-- `--print`. -/
  optContdump : Bool
  /-- `--rroute`. -/
  optRroute : Bool
  /-- The signature is a C string. -/
  rsign_string : 0 ∉ rsign

/-- `IP_MAX_SIZE`. -/
def ipMaxSize : ℕ := 65535

/-- `pcap_recv`, into a buffer of some size. -/
def pcapRecv (size : ℕ) : ReadPacket → ReadPacket
  | .error => .error
  | .frame packet => .frame (packet.take size)

/-- A loop over the bytes of a packet, which prints each of them with its number. -/
def dumpLoop (print : ℕ → UInt8 → List UInt8) (packet : List UInt8) (byte : ℕ) :
    ℕ → Option (List UInt8)
  | 0 => some []
  | left + 1 =>
    packet[byte]?.bind fun b =>
      (dumpLoop print packet (byte + 1) left).map fun text => print (byte + 1) b ++ text

/-- A dump. -/
def dump (print : ℕ → UInt8 → List UInt8) (packet : List UInt8) (size : ℕ) : Option (List UInt8) :=
  (dumpLoop print packet 0 size).map fun text => lit "\t\t" ++ (text ++ lit "\n\n")

/-- A byte of `hex_dump`. -/
def hexDumpByte (count : ℕ) (b : UInt8) : List UInt8 :=
  padZero 2 (fmtX b.toNat) ++
    ((if count % 2 = 0 then lit " " else []) ++ if count % 16 = 0 then lit "\n\t\t" else [])

/-- A byte of `human_dump`. -/
def humanDumpByte (count : ℕ) (b : UInt8) : List UInt8 :=
  (if 32 ≤ b ∧ b ≤ 126 then [b] else lit ".") ++ if count % 32 = 0 then lit "\n\t\t" else []

/-- `hex_dump`. -/
def hexDump (packet : List UInt8) (size : ℕ) : Option (List UInt8) := dump hexDumpByte packet size

/-- `human_dump`. -/
def humanDump (packet : List UInt8) (size : ℕ) : Option (List UInt8) :=
  dump humanDumpByte packet size

/-- What `log_icmp_ts` prints of three timestamps. -/
def icmpTsText (midnightMs : ℕ) (ts : List UInt8) : List UInt8 :=
  lit "ICMP timestamp: Originate=" ++ fmtU (ntohlAt 0 ts) ++ lit " Receive=" ++
    fmtU (ntohlAt 4 ts) ++ lit " Transmit=" ++ fmtU (ntohlAt 8 ts) ++
    lit "\nICMP timestamp RTT tsrtt=" ++
    fmtU (((midnightMs : ℤ) - ntohlAt 0 ts) % 2 ^ 64).toNat ++ lit "\n\n"

/-- `log_icmp_ts`. -/
def logIcmpTs (midnightMs : ℕ) (datagram : List UInt8) (ts : ℕ) : Option (List UInt8) :=
  (readBytes datagram ts 12).map (icmpTsText midnightMs)

/-- What `log_icmp_addr` prints of a mask. -/
def icmpAddrText (addr : List UInt8) : List UInt8 :=
  lit "ICMP address mask: icmpam=" ++ inetNtoa addr ++ lit "\n\n"

/-- `log_icmp_addr`. -/
def logIcmpAddr (datagram : List UInt8) (addr : ℕ) : Option (List UInt8) :=
  (readBytes datagram addr 4).map icmpAddrText

/-- `icmp_unreach_rtt`, of what is quoted at a place: what to look it up by. -/
def icmpUnreachKey (cfg : Config) (datagram : List UInt8) (quoted size : ℕ) :
    Option (Option (ℕ × ℕ)) :=
  if cfg.optTrNoRtt then some none
  else if size < iphdrSize then some none
  else
    (readBytes datagram quoted iphdrSize).bind fun qip =>
      let quotedIphdrSize := loAt 0 qip * 4
      if quotedIphdrSize < iphdrSize then some none
      else
        let quotedLeft := (size : ℤ) - quotedIphdrSize
        let quotedHdr := quoted + quotedIphdrSize
        if byteAt 9 qip = ipprotoTcp ∨ byteAt 9 qip = ipprotoUdp then
          if quotedLeft < 2 then some none
          else (readBytes datagram quotedHdr 2).map fun sport => some (0, ntohsAt 0 sport)
        else if byteAt 9 qip = ipprotoIcmp then
          if quotedLeft < icmphdrSize then some none
          else
            (readBytes datagram quotedHdr icmphdrSize).map fun icmp =>
              if byteAt 0 icmp ≠ icmpEcho then none
              else some (le16 (icmp.getD 6 0) (icmp.getD 7 0), 0)
        else some none

/-- What `recv_icmp` prints of a reply behind its header. -/
def icmpReplyText (cfg : DumpConfig) (midnightMs : ℕ) (datagram : List UInt8) (packet size : ℕ)
    (type : ℕ) : Option (List UInt8) :=
  if cfg.json then some []
  else if type = icmpTimestampreply then
    if 12 ≤ size - icmphdrSize then logIcmpTs midnightMs datagram (packet + icmphdrSize)
    else some (lit "[|icmp timestamp]\n")
  else if type = icmpAddressreply then
    if 4 ≤ size - icmphdrSize then logIcmpAddr datagram (packet + icmphdrSize)
    else some (lit "[|icmp subnet address]\n")
  else some []

/-- `recv_icmp`, of the message at a place under the header `ip`. -/
def recvIcmp (cfg : DumpConfig) (ctx : Context) (ip datagram : List UInt8) (packet size : ℕ)
    (midnightMs : ℕ) (now : ℤ) : Option ((Option Rtt × Context) × List UInt8) :=
  if size < icmphdrSize then some ((none, ctx), [])
  else
    (readBytes datagram packet icmphdrSize).bind fun icmp =>
      let type := byteAt 0 icmp
      if (type = icmpEchoreply ∨ type = icmpTimestampreply ∨ type = icmpAddressreply) ∧
          le16 (icmp.getD 4 0) (icmp.getD 5 0) = cfg.pid % 65536 then
        let (r, ctx) := ctx.account (le16 (icmp.getD 6 0) (icmp.getD 7 0)) 0 now
        (icmpReplyText cfg midnightMs datagram packet size type).map fun text =>
          ((some r, ctx), text)
      else if type = 3 ∨ type = 11 then
        if size - icmphdrSize < iphdrSize then some ((none, ctx), [])
        else
          (readBytes datagram (packet + icmphdrSize) iphdrSize).bind fun quotedIp =>
            if (quotedIp.drop 16).take 4 ≠ ctx.remoteAddr ∨
                (ip.drop 16).take 4 ≠ ctx.localAddr then
              some ((none, ctx), [])
            else
              (icmpUnreachKey cfg.toConfig datagram (packet + icmphdrSize)
                (size - icmphdrSize)).map fun key =>
                let (r, ctx) :=
                  match key with
                  | some (seq, port) => ctx.account seq port now
                  | none => ctx.unmatched
                ((some r, ctx), [])
      else some ((none, ctx), [])

/-- `recv_udp`, of the datagram at a place. -/
def recvUdp (cfg : Config) (ctx : Context) (datagram : List UInt8) (packet size : ℕ) (now : ℤ) :
    Option (Option Rtt × Context) :=
  if size < udphdrSize then some (none, ctx)
  else
    (readBytes datagram packet udphdrSize).map fun udp =>
      if matchesPort cfg ctx (ntohsAt 0 udp) then
        let (r, ctx) := ctx.account 0 (ntohsAt 2 udp) now
        (some r, ctx.incDstPort cfg)
      else (none, ctx)

/-- The letters of the flags, in the order of the source. -/
def flagLetters : List (ℕ × String) :=
  [(0x04, "R"), (0x02, "S"), (0x10, "A"), (0x01, "F"), (0x08, "P"), (0x20, "U"), (0x40, "X"),
    (0x80, "Y")]

/-- `strcat`, into a buffer of some size. -/
def strcat (size : ℕ) (s t : List UInt8) : Option (List UInt8) :=
  if s.length + t.length < size then some (s ++ t) else none

/-- The letter of a flag, if it is set. -/
def strcatFlag (size thFlags : ℕ) (s : List UInt8) (f : ℕ × String) : Option (List UInt8) :=
  if thFlags &&& f.1 ≠ 0 then strcat size s (lit f.2) else some s

/-- The letters of the flags that are set, in a buffer of 16 bytes; `none` if they do not fit. -/
def strcatFlags (thFlags : ℕ) : Option (List UInt8) :=
  flagLetters.foldlM (strcatFlag 16 thFlags) []

/-- The flags as they are printed. -/
def flagsText (cfg : DumpConfig) (thFlags : ℕ) : Option (List UInt8) :=
  if cfg.json then strcatFlags thFlags
  else if cfg.optSeqnum ∨ cfg.optQuiet then some []
  else
    (strcatFlags thFlags).bind fun flags =>
      if flags = [] then strcat 16 flags (lit "none") else some flags

/-- `recv_tcp`, of the segment at a place. -/
def recvTcp (cfg : DumpConfig) (ctx : Context) (datagram : List UInt8) (packet size : ℕ) (now : ℤ) :
    Option (Option Rtt × Context) :=
  if size < tcphdrSize then some (none, ctx)
  else
    (readBytes datagram packet tcphdrSize).bind fun tcp =>
      if matchesPort cfg.toConfig ctx (ntohsAt 0 tcp) then
        let ctx := { ctx with tcpExitcode := byteAt 13 tcp }
        let (r, ctx) := ctx.account 0 (ntohsAt 2 tcp) now
        (flagsText cfg (byteAt 13 tcp)).bind fun _ =>
          (if ¬cfg.json ∧ ¬cfg.optSeqnum ∧ ¬cfg.optQuiet ∧ cfg.optTcpTimestamp ∧ r.status ≠ .recv
            then printTcpTimestamp ((datagram.drop packet).take size) else some none).map fun _ =>
            (some r, ctx.incDstPort cfg.toConfig)
      else some (none, ctx)

/-- `handle_hcmp`, where `rsign` is what there is in memory from the signature on. -/
def handleHcmp (cfg : Config) (ctx : Context) (rsign packet : List UInt8) : Option Context :=
  (Signature.handleHcmp cfg ctx rsign packet packet.length).toOption

/-- What is printed of a packet that matched. -/
def printDumps (cfg : DumpConfig) (old : OldRoute) (datagram : List UInt8) :
    Option (List UInt8 × OldRoute) :=
  (if cfg.optHexdump ∧ ¬cfg.optQuiet then hexDump datagram datagram.length
    else some []).bind fun hex =>
    (if cfg.optContdump ∧ ¬cfg.optQuiet then humanDump datagram datagram.length
      else some []).bind fun human =>
      (if cfg.optRroute ∧ ¬cfg.optQuiet then RecordRoute.displayIpopt datagram old
        else some ([], old)).map fun (ipopt, old) => (hex ++ (human ++ ipopt), old)

/-- `--tr-stop`. -/
def trStop (cfg : Config) (ctx : Context) (protocol : ℕ) (datagram : List UInt8)
    (packet size : ℕ) : Option Context :=
  if cfg.optTraceroute ∧ cfg.optTrStop then
    let ctx := if protocol ≠ ipprotoIcmp then ctx.stop .traceroute else ctx
    if icmphdrSize ≤ size then
      (readBytes datagram packet icmphdrSize).map fun icmp =>
        if byteAt 0 icmp ≠ 11 then ctx.stop .traceroute else ctx
    else some ctx
  else some ctx

/-- The end of `wait_packet`, behind the function of the protocol. -/
def afterReply (cfg : DumpConfig) (old : OldRoute) (datagram : List UInt8) (protocol size : ℕ)
    (recv : (Option Rtt × Context) × List UInt8) :
    Option ((Option Rtt × Context) × List UInt8 × OldRoute) :=
  let ((reply, ctx), text) := recv
  (if reply.isSome then printDumps cfg old datagram else some ([], old)).bind fun (dumps, old) =>
    (if reply.isSome then
      trStop cfg.toConfig ctx protocol datagram size (datagram.length - size)
    else some ctx).map fun ctx =>
      ((reply, ctx.countReached cfg.toConfig), text ++ dumps, old)

/-- What is known outside of a frame: the rest of the memory behind the signature, and the time. -/
structure Moment where
  afterRsign : List UInt8
  midnightMs : ℕ
  now : ℤ

/-- `wait_packet`, of a datagram without its link layer header: what was found out, the context,
what was printed and what `display_ipopt` keeps. -/
def waitDatagram (cfg : DumpConfig) (ctx : Context) (old : OldRoute) (m : Moment)
    (datagram : List UInt8) : Option ((Option Rtt × Context) × List UInt8 × OldRoute) :=
  if datagram.length < iphdrSize then some ((none, ctx), [], old)
  else
    (readBytes datagram 0 iphdrSize).bind fun ip =>
      if hiAt 0 ip = 6 then some ((none, ctx), [], old)
      else
        let size := loAt 0 ip * 4
        if size < iphdrSize ∨ datagram.length < size then some ((none, ctx), [], old)
        else
          (if cfg.optSign then handleHcmp cfg.toConfig ctx (cfg.rsign ++ 0 :: m.afterRsign) datagram
            else some ctx).bind fun ctx =>
            let protocol := byteAt 9 ip
            if (ip.drop 16).take 4 ≠ ctx.localAddr then some ((none, ctx), [], old)
            else if protocol ≠ ipprotoIcmp ∧ ¬cfg.optRandDest ∧
                (ip.drop 12).take 4 ≠ ctx.remoteAddr then some ((none, ctx), [], old)
            else
              let encSize := datagram.length - size
              let recv :=
                if protocol = ipprotoIcmp then
                  some (recvIcmp cfg ctx ip datagram size encSize m.midnightMs m.now)
                else if protocol = ipprotoUdp then
                  some ((recvUdp cfg.toConfig ctx datagram size encSize m.now).map (·, []))
                else if protocol = ipprotoTcp then
                  some ((recvTcp cfg ctx datagram size encSize m.now).map (·, []))
                else none
              match recv with
              | none => some ((none, ctx), [], old)
              | some recv => recv.bind (afterReply cfg old datagram protocol size)

/-- `wait_packet`. -/
def waitPacket (cfg : DumpConfig) (ctx : Context) (old : OldRoute) (m : Moment)
    (read : ReadPacket) : Option ((Option Rtt × Context) × List UInt8 × OldRoute) :=
  match pcapRecv (ipMaxSize + cfg.linkhdrSize) read with
  | .error => some ((none, ctx.stop .eof), [], old)
  | .frame packet =>
    if packet = [] then some ((none, ctx), [], old)
    else if packet.length < cfg.linkhdrSize then some ((none, ctx), [], old)
    else waitDatagram cfg ctx old m (packet.drop cfg.linkhdrSize)

/-! ### What is printed -/

/-- A dump of some bytes. -/
def dumpText (print : ℕ → UInt8 → List UInt8) (bytes : List UInt8) : List UInt8 :=
  lit "\t\t" ++ ((bytes.mapIdx fun i b => print (i + 1) b).flatten ++ lit "\n\n")

theorem dumpLoop_eq {print : ℕ → UInt8 → List UInt8} {packet : List UInt8} {byte left : ℕ}
    (h : byte + left = packet.length) :
    dumpLoop print packet byte left =
      some (((packet.drop byte).mapIdx fun i b => print (byte + i + 1) b).flatten) := by
  induction left generalizing byte with
  | zero =>
    rw [List.drop_eq_nil_of_le (by omega)]
    rfl
  | succ left ih =>
    have hlt : byte < packet.length := by omega
    rw [dumpLoop, List.getElem?_eq_getElem hlt, Option.bind_some, ih (by omega),
      List.drop_eq_getElem_cons hlt, List.mapIdx_cons, List.flatten_cons, Option.map_some]
    simp only [Nat.add_zero, Nat.add_assoc, Nat.add_comm 1]

/-- **A dump is of all the bytes.** -/
theorem dump_eq (print : ℕ → UInt8 → List UInt8) (packet : List UInt8) :
    dump print packet packet.length = some (dumpText print packet) := by
  rw [dump, dumpLoop_eq (Nat.zero_add _), Option.map_some, List.drop_zero, dumpText]
  simp only [Nat.zero_add]

theorem padZero_fmtX (b : UInt8) : padZero 2 (fmtX b.toNat) = Strings.hexPair b := by
  have hall : ∀ n < 256, padZero 2 (fmtX n) =
      [Strings.hcharset.getD (n / 16) 0, Strings.hcharset.getD (n % 16) 0] := by decide +kernel
  exact hall b.toNat b.toNat_lt

/-- Blanks and line breaks come between the digits. -/
theorem filter_hexDumpByte (count : ℕ) (b : UInt8) :
    (hexDumpByte count b).filter (fun c => !isSpace c) = Strings.hexPair b := by
  have hdigits : ∀ c ∈ Strings.hcharset, (!isSpace c) = true := by decide +kernel
  have hpair : ∀ c ∈ Strings.hexPair b, (!isSpace c) = true := by
    intro c hc
    have hmem : c ∈ Strings.hexText [b] := by rwa [Strings.hexText, List.flatMap_singleton]
    exact hdigits c (Strings.mem_hexText hmem)
  have hblank : (if count % 2 = 0 then lit " " else []).filter (fun c => !isSpace c) = [] := by
    split_ifs <;> decide
  have hline : (if count % 16 = 0 then lit "\n\t\t" else []).filter (fun c => !isSpace c) = [] := by
    split_ifs <;> decide
  rw [hexDumpByte, padZero_fmtX, List.filter_append, List.filter_append, hblank, hline,
    List.filter_eq_self.mpr hpair, List.append_nil, List.append_nil]

theorem filter_dumpText (bytes : List UInt8) :
    (dumpText hexDumpByte bytes).filter (fun c => !isSpace c) = Strings.hexText bytes := by
  have hbytes (k : ℕ) : ((bytes.mapIdx fun i b => hexDumpByte (k + i + 1) b).flatten).filter
      (fun c => !isSpace c) = Strings.hexText bytes := by
    induction bytes generalizing k with
    | nil => rfl
    | cons b bytes ih =>
      have hrest : (bytes.mapIdx fun i b => hexDumpByte (k + (i + 1) + 1) b) =
          bytes.mapIdx fun i b => hexDumpByte (k + 1 + i + 1) b := by
        simp only [Nat.add_assoc, Nat.add_comm 1]
      rw [List.mapIdx_cons, List.flatten_cons, List.filter_append, filter_hexDumpByte, hrest, ih,
        Strings.hexText, Strings.hexText, List.flatMap_cons]
  have hends : (lit "\t\t").filter (fun c => !isSpace c) = [] ∧
      (lit "\n\n").filter (fun c => !isSpace c) = [] := by decide
  have hmiddle := hbytes 0
  simp only [Nat.zero_add] at hmiddle
  rw [dumpText, List.filter_append, List.filter_append, hends.1, hends.2, hmiddle,
    List.nil_append, List.append_nil]

/-- **A hex dump is read back** by `hextobin`, without the blanks: it has the bytes of the packet,
from the first to the last. -/
theorem hextobin_hexDump {packet dest : List UInt8} (hsize : packet.length ≤ ipMaxSize)
    (hdest : packet.length ≤ dest.length) : ∃ text, hexDump packet packet.length = some text ∧
      Strings.hextobin dest (text.filter (fun c => !isSpace c) ++ [0]) (-1) =
        .ok (0, packet ++ dest.drop packet.length) := by
  have hlen := Strings.length_hexText packet
  have heven : Even (Strings.hexText packet).length := hlen ▸ even_two_mul packet.length
  obtain ⟨k, hk, -, -, hint⟩ := (Strings.readLength (Strings.hexText packet).length).2 heven
  obtain rfl : k = packet.length := by
    rw [ipMaxSize] at hsize
    have hall := hint.mp (by omega)
    omega
  have htake : (Strings.hexText packet).take (2 * packet.length) = Strings.hexText packet :=
    List.take_of_length_le hlen.le
  have hdigits : ∀ c ∈ Strings.hcharset, digitVal c < 16 := by decide +kernel
  have hread := Strings.hextobin_read (Strings.zero_notMem_hexText packet) heven hk hlen.ge
    (htake.symm ▸ fun c hc => hdigits c (Strings.mem_hexText hc)) [] hdest
  refine ⟨_, dump_eq hexDumpByte packet, ?_⟩
  rw [filter_dumpText, hread, htake, Strings.hexBytes_hexText]

/-- Three bytes. -/
theorem hextobin_hexDump_three : ∃ text, hexDump [69, 0, 255] 3 = some text ∧
    Strings.hextobin [1, 1, 1, 1] (text.filter (fun c => !isSpace c) ++ [0]) (-1) =
      .ok (0, [69, 0, 255, 1]) :=
  @hextobin_hexDump [69, 0, 255] [1, 1, 1, 1] (by decide) (by decide)

section Reads

variable {datagram : List UInt8} {off n i : ℕ}

variable {old : OldRoute} {last : List (List UInt8)}

theorem handleHcmp_eq {cfg : Config} (hrsign : 0 ∉ cfg.rsign) (after : List UInt8) (ctx : Context)
    (hint : datagram.length < 2 ^ 31) :
    handleHcmp cfg ctx (cfg.rsign ++ 0 :: after) datagram =
      some (Hping.handleHcmp cfg ctx datagram) := by
  rw [handleHcmp, Signature.handleHcmp_eq hrsign after ctx hint]
  rfl

end Reads

/-! ### One frame after the other -/

end StyxWire.Hping.FrameReads
