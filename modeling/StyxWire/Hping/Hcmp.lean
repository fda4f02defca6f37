import StyxWire.Hping.Lookup

/-!
# Transferring a file

What `--file`, `--sign` and `--safe` do on the one side (`datafiller.c`, `datahandler.c`,
`sendip_handler.c`, `sendip.c`) and `--listen` and `--safe` on the other (`listen.c`,
`sendhcmp.c`).

The sender puts the signature and a piece of the file into each probe, and a number into the
identification field of the IP header. The receiver looks for the signature in what it
captures. It writes what follows it if the number is the one that it expects, and asks for
that number otherwise.

The headers that precede the signature are parameters: they hold fields that are drawn at
random. Only the length and the identification of the IP header are set here. A send that
fails ends the run of the sender, and is not modelled.
-/

namespace StyxWire.Hping

open Mem

/-! ### The sender -/

/-- The options of a transfer. -/
structure Transfer where
  /-- The configuration of the sender. -/
  cfg : Config
  /-- `--sign`, which is what `--listen` is given too. -/
  sign : List UInt8
  /-- The contents of the file. -/
  file : List UInt8
  /-- `--file`. -/
  optDatafromfile : Bool
  /-- `--safe`. -/
  optSafe : Bool
  /-- `--end`. -/
  optEnd : Bool
  /-- The MTU of the interface. -/
  hIfMtu : ℕ

/-- The state of the sender. -/
structure Sender where
  /-- The context; it holds `src_id` and the position in the file. -/
  ctx : Context
  /-- `eof_reached`. -/
  eofReached : Bool
  /-- `opt_fragment`. -/
  optFragment : Bool
  /-- `virtual_mtu`. -/
  virtualMtu : ℕ

/-- `datafiller`: what is read, the position after it, and whether the end was reached under
`--end`. It does not return for an empty file without `--end`. -/
def datafiller (t : Transfer) (pos size : ℕ) : Option (List UInt8 × ℕ × Bool) :=
  let readed := (t.file.drop pos).take size
  if readed.length = size then some (readed, pos + size, false)
  else if t.optEnd then some (readed ++ List.replicate (size - readed.length) 0, 0, true)
  else if readed.length ≠ 0 then
    some (readed ++ List.replicate (size - readed.length) 0, 0, false)
  else
    -- the file is read again from its beginning
    let readed := t.file.take size
    if readed.length = size then some (readed, size, false)
    else if readed.length ≠ 0 then
      some (readed ++ List.replicate (size - readed.length) 0, 0, false)
    else none

/-- `data_handler`, for the `size` bytes after the headers. -/
def dataHandler (t : Transfer) (s : Sender) (size : ℕ) : Option (List UInt8 × Sender) :=
  let (head, size) := if t.cfg.optSign then (t.sign, size - t.cfg.signlen) else ([], size)
  if size = 0 then some (head, s)
  else if t.optDatafromfile then
    (datafiller t s.ctx.filePos size).map fun (data, pos, eof) =>
      (head ++ data,
        { s with
          ctx := { s.ctx with filePos := pos }
          eofReached := s.eofReached || eof })
  else some (head ++ List.replicate size 88, s)

/-- An IP header with its options; its fields are filled in by `send_ip`. -/
abbrev Iphdr := { ip : List UInt8 // iphdrSize ≤ ip.length }

/-- The fields of the IP header: the total length and the identification. This one stays as it is,
that is random, if no number is set. -/
def fillIphdr (ip : Iphdr) (len : ℕ) (srcId : ℤ) : List UInt8 :=
  let hdr := writeAt ip.1 2 (putBe16 (ip.1.length + len))
  if srcId = -1 then hdr else writeAt hdr 4 (putBe16 (srcId % 65536).toNat)

/-- `send_ip`: the datagram, and the number of the next. -/
def sendIp (t : Transfer) (ip : Iphdr) (data : List UInt8) (s : Sender) : List UInt8 × Sender :=
  (fillIphdr ip data.length s.ctx.srcId ++ data,
    if t.optSafe ∧ ¬s.eofReached then { s with ctx := { s.ctx with srcId := s.ctx.srcId + 1 } }
    else s)

/-- The loop of `send_ip_handler` over the fragments of a packet; their headers are numbered. It
does not end when the fragments are empty. -/
def sendFragments (t : Transfer) (ip : ℕ → Iphdr) (mtu : ℕ) :
    ℕ → List UInt8 → Sender → Option (List (List UInt8) × Sender)
  | i, packet, s =>
    if packet.length ≤ mtu then
      let (d, s) := sendIp t (ip i) packet s
      some ([d], s)
    else if mtu = 0 then none
    else
      let (d, s) := sendIp t (ip i) (packet.take mtu) s
      (sendFragments t ip mtu (i + 1) (packet.drop mtu) s).map fun (ds, s) => (d :: ds, s)
  termination_by _ packet _ => packet.length
  decreasing_by
    rw [List.length_drop]
    omega

/-- `send_ip_handler`. -/
def sendIpHandler (t : Transfer) (ip : ℕ → Iphdr) (packet : List UInt8) (s : Sender) :
    Option (List (List UInt8) × Sender) :=
  let s :=
    if ¬s.optFragment ∧ t.hIfMtu ≤ packet.length + (ip 0).1.length then
      -- fragmentation is activated from here on; the size of the fragments is unsigned
      let mtu := (((t.hIfMtu : ℤ) - 20) % 2 ^ 32).toNat
      { s with optFragment := true, virtualMtu := mtu - mtu % 8 }
    else s
  if s.optFragment then sendFragments t ip s.virtualMtu 0 packet s
  else
    let (d, s) := sendIp t (ip 0) packet s
    some ([d], s)

/-- A probe with the header `l4hdr`: the data is filled in, and it is sent. -/
def sendProbe (t : Transfer) (ip : ℕ → Iphdr) (l4hdr : List UInt8) (s : Sender) :
    Option (List (List UInt8) × Sender) :=
  (dataHandler t s t.cfg.dataSize).bind fun (data, s) => sendIpHandler t ip (l4hdr ++ data) s

/-! ### The receiver -/

/-- The state of the receiver. -/
structure Receiver where
  /-- `exp_id`. -/
  expId : ℕ
  /-- What was written. -/
  written : List UInt8
  deriving DecidableEq

/-- The body of the loop of `listen_run`, for a captured datagram without its link layer header;
and the number of the datagram to restart from, if there is one to ask for. -/
def listenDatagram (t : Transfer) (r : Receiver) (packet : List UInt8) : Receiver × Option ℕ :=
  if packet.length < iphdrSize then (r, none)
  else
    let id := ntohsAt 4 packet
    let ipSize := ntohsAt 2 packet
    let size := if ipSize < packet.length then ipSize else packet.length
    match memstr packet t.sign size with
    | none => (r, none)
    | some p =>
      let data := (packet.drop (p + t.sign.length)).take (size - (p + t.sign.length))
      if t.optSafe then
        if id = r.expId then (⟨(r.expId + 1) % 65536, r.written ++ data⟩, none)
        else (r, some r.expId)
      else ({ r with written := r.written ++ data }, none)

/-- `send_hcmp(HCMP_RESTART, arg)`: the datagram, after the headers. -/
def sendRestart (t : Transfer) (hdr : List UInt8) (arg : ℕ) : List UInt8 :=
  hdr ++ (t.cfg.rsign ++ ([UInt8.ofNat hcmpRestart, 0, 0, 0] ++ putBe16 arg ++ [0, 0]))

end StyxWire.Hping
