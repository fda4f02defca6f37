import StyxWire.Hping.Hcmp
import StyxWire.Hping.WaitPacket
import StyxWire.Lib.Events

/-!
# The safe transfer of a file

A sender and a receiver with the datagrams that they sent so far: each of those may be
delivered at any time and any number of times, or never.

The receiver takes the datagrams in the order of their numbers, so all is well as long as
each datagram carries the piece of the file with its number (`StyxWire.Hping.Carries`). It
does when the number and the position in the file move on together. They do not once the end
of the file was reached: the position goes back to the beginning, while the number stays
(`StyxWire.Hping.wrong_bytes_after_eof`).
-/

namespace StyxWire.Hping

open Mem

/-! ### Searching -/

theorem memstrLoop_append {needle : List UInt8} {k p q : ℕ} {haystack : List UInt8}
    (h : memstrLoop needle k p haystack = some q) (hk : needle.length + k ≤ haystack.length + 1)
    (j : ℕ) (pad : List UInt8) : memstrLoop needle (k + j) p (haystack ++ pad) = some q := by
  induction k generalizing p haystack with
  | zero => exact absurd h (by simp [memstrLoop])
  | succ k ih =>
    have htake : (haystack ++ pad).take needle.length = haystack.take needle.length :=
      List.take_append_of_le_length (by omega)
    rw [show k + 1 + j = k + j + 1 by omega, memstrLoop, htake]
    rw [memstrLoop] at h
    split_ifs at h ⊢ with hfound
    · exact h
    · cases haystack with
      | nil =>
        rw [List.length_nil] at hk
        rw [List.take_nil] at hfound
        exact absurd (List.eq_nil_of_length_eq_zero (by omega)).symm hfound
      | cons a haystack =>
        rw [List.length_cons] at hk
        exact ih h (by omega)

/-- **What is found is found in a longer buffer**, at the same place. -/
theorem memstr_append {haystack needle : List UInt8} {q : ℕ}
    (h : memstr haystack needle haystack.length = some q) {n : ℕ} (hn : haystack.length ≤ n)
    (pad : List UInt8) : memstr (haystack ++ pad) needle n = some q := by
  rw [memstr, if_neg (by omega), Int.toNat_natCast] at h ⊢
  split_ifs at h with hlen
  rw [if_neg (by omega), show n - needle.length + 1 =
    haystack.length - needle.length + 1 + (n - haystack.length) by omega]
  exact memstrLoop_append h (by omega) _ pad

/-! ### The pieces of the file -/

/-- How much of the file a datagram carries. -/
def Transfer.chunkSize (t : Transfer) : ℕ := t.cfg.dataSize - t.cfg.signlen

/-- The piece of the file with the number `k`, from zero. The last one is padded; if the size of
the file is a multiple of that of the pieces, it is all padding. -/
def Transfer.chunk (t : Transfer) (k : ℕ) : List UInt8 :=
  let piece := (t.file.drop (t.chunkSize * k)).take t.chunkSize
  piece ++ List.replicate (t.chunkSize - piece.length) 0

/-- How many there are. -/
def Transfer.chunks (t : Transfer) : ℕ := t.file.length / t.chunkSize + 1

/-- **The options of a safe transfer**: `--file`, `--sign`, `--safe` and `--end`. The file has fewer
than 65535 pieces, or one that is short is the last of so many. -/
structure Transfer.Safe (t : Transfer) : Prop where
  sign : t.cfg.optSign = true
  datafromfile : t.optDatafromfile = true
  safe : t.optSafe = true
  atEnd : t.optEnd = true
  signlen : t.cfg.signlen = t.sign.length
  dataSize : t.cfg.dataSize < 65536
  pos : 0 < t.chunkSize
  chunks : t.chunks < 65536

variable {t : Transfer}

theorem Transfer.length_chunk (t : Transfer) (k : ℕ) : (t.chunk k).length = t.chunkSize := by
  simp only [chunk, List.length_append, List.length_take, List.length_drop, List.length_replicate]
  omega

/-- **The file is read piece by piece.** -/
theorem datafiller_chunk (h : t.Safe) {k : ℕ} (hk : t.chunkSize * k ≤ t.file.length) :
    datafiller t (t.chunkSize * k) t.chunkSize =
      some (if t.chunkSize * (k + 1) ≤ t.file.length then
        (t.chunk k, t.chunkSize * (k + 1), false) else (t.chunk k, 0, true)) := by
  have hlen : ((t.file.drop (t.chunkSize * k)).take t.chunkSize).length =
      min t.chunkSize (t.file.length - t.chunkSize * k) := by
    rw [List.length_take, List.length_drop]
  rw [datafiller]
  dsimp only
  rw [if_pos h.atEnd, Transfer.chunk, hlen, Nat.mul_succ]
  split_ifs with hfull hin hin
  · rw [hfull, Nat.sub_self, List.replicate_zero, List.append_nil]
  · omega
  · omega
  · rfl

/-! ### Datagrams -/

/-- The datagram carries the piece with the number `k`, from one, after headers that the signature
is not found in. -/
structure Carries (t : Transfer) (k : ℕ) (d : List UInt8) : Prop where
  parts : ∃ before, iphdrSize ≤ before.length ∧ d = before ++ t.sign ++ t.chunk (k - 1) ∧
    memstr (before ++ t.sign) t.sign (before ++ t.sign).length = some before.length
  id : ntohsAt 4 d = k
  totLen : ntohsAt 2 d = d.length

/-- **The receiver takes the piece that it expects**, and asks for it otherwise. -/
theorem Carries.listen {k : ℕ} {d : List UInt8} (hd : Carries t k d) (h : t.Safe)
    (pad : List UInt8) (r : Receiver) :
    listenDatagram t r (d ++ pad) =
      if k = r.expId then (⟨(r.expId + 1) % 65536, r.written ++ t.chunk (k - 1)⟩, none)
      else (r, some r.expId) := by
  obtain ⟨before, hbefore, hparts, hfound⟩ := hd.parts
  have hlen : d.length = before.length + t.sign.length + (t.chunk (k - 1)).length := by
    rw [hparts, List.length_append, List.length_append]
  rw [iphdrSize] at hbefore
  have hid : ntohsAt 4 (d ++ pad) = k := by
    rw [← hd.id, ntohsAt, ntohsAt, getD_append_left _ (by omega), getD_append_left _ (by omega)]
  have htot : ntohsAt 2 (d ++ pad) = d.length := by
    rw [← hd.totLen, ntohsAt, ntohsAt, getD_append_left _ (by omega), getD_append_left _ (by omega)]
  have hsize : (if d.length < (d ++ pad).length then d.length else (d ++ pad).length) =
      d.length := by
    rw [List.length_append]
    split_ifs <;> omega
  have hmem : memstr (d ++ pad) t.sign d.length = some before.length := by
    rw [hparts, List.append_assoc, ← hparts]
    exact memstr_append hfound (by rw [List.length_append]; omega) _
  have hdata : ((d ++ pad).drop (before.length + t.sign.length)).take
      (d.length - (before.length + t.sign.length)) = t.chunk (k - 1) := by
    rw [hlen, Nat.add_sub_cancel_left, hparts, List.append_assoc, ← List.length_append,
      List.drop_left, List.take_left]
  rw [listenDatagram, if_neg (by rw [List.length_append, iphdrSize]; omega), hid, htot]
  dsimp only
  rw [hsize, hmem]
  dsimp only
  rw [hdata, if_pos h.safe]

/-! ### Sending -/

/-- A field that was just written. -/
theorem ntohsAt_writeAt {d : List UInt8} {i : ℕ} (h : i + 2 ≤ d.length) (n : ℕ) :
    ntohsAt i (writeAt d i (putBe16 n)) = n % 65536 := by
  have h0 : (writeAt d i (putBe16 n))[i]? = some (UInt8.ofNat (n / 256)) := by
    rw [getElem?_writeAt, if_pos ⟨Nat.le_refl i, by rw [length_putBe16]; omega, by omega⟩,
      Nat.sub_self]
    rfl
  have h1 : (writeAt d i (putBe16 n))[i + 1]? = some (UInt8.ofNat n) := by
    rw [getElem?_writeAt, if_pos ⟨by omega, by rw [length_putBe16]; omega, by omega⟩,
      Nat.add_sub_cancel_left]
    rfl
  rw [ntohsAt, List.getD_eq_getElem?_getD, List.getD_eq_getElem?_getD, h0, h1]
  exact be16_putBe16 n

/-- A field that is apart from what was written. -/
theorem ntohsAt_writeAt_of_lt {d src : List UInt8} {i off : ℕ} (h : i + 2 ≤ off) :
    ntohsAt i (writeAt d off src) = ntohsAt i d := by
  rw [ntohsAt, ntohsAt, List.getD_eq_getElem?_getD, List.getD_eq_getElem?_getD,
    getElem?_writeAt_of_notMem (by omega), getElem?_writeAt_of_notMem (by omega),
    List.getD_eq_getElem?_getD, List.getD_eq_getElem?_getD]

@[simp]
theorem length_fillIphdr (ip : Iphdr) (len : ℕ) (srcId : ℤ) :
    (fillIphdr ip len srcId).length = ip.1.length := by
  rw [fillIphdr]
  split_ifs <;> simp

theorem ntohsAt_fillIphdr_id (ip : Iphdr) (len : ℕ) {k : ℕ} (hk : k < 65536) :
    ntohsAt 4 (fillIphdr ip len k) = k := by
  have hip : 20 ≤ ip.1.length := ip.2
  rw [fillIphdr, if_neg (by omega), ntohsAt_writeAt (by rw [length_writeAt]; omega)]
  omega

theorem ntohsAt_fillIphdr_totLen (ip : Iphdr) {len : ℕ} (hlen : ip.1.length + len < 65536) (k : ℤ) :
    ntohsAt 2 (fillIphdr ip len k) = ip.1.length + len := by
  have hip : 20 ≤ ip.1.length := ip.2
  rw [fillIphdr]
  split_ifs
  · rw [ntohsAt_writeAt (by omega), Nat.mod_eq_of_lt hlen]
  · rw [ntohsAt_writeAt_of_lt (by omega), ntohsAt_writeAt (by omega), Nat.mod_eq_of_lt hlen]

/-- The sender is about to send the piece `k`, from one, in one datagram that the receiver can
read. -/
structure Ready (t : Transfer) (k : ℕ) (ip : ℕ → Iphdr) (l4hdr : List UInt8) (s : Sender) :
    Prop where
  id : s.ctx.srcId = k
  filePos : s.ctx.filePos = t.chunkSize * (k - 1)
  one_le : 1 ≤ k
  le : k ≤ t.chunks
  whole : s.optFragment = false
  mtu : l4hdr.length + t.cfg.dataSize + (ip 0).1.length < t.hIfMtu
  totLen : (ip 0).1.length + (l4hdr.length + t.cfg.dataSize) < 65536
  signature : memstr (fillIphdr (ip 0) (l4hdr.length + t.cfg.dataSize) k ++ l4hdr ++ t.sign) t.sign
    (fillIphdr (ip 0) (l4hdr.length + t.cfg.dataSize) k ++ l4hdr ++ t.sign).length =
      some ((ip 0).1.length + l4hdr.length)

/-- **The sender sends the piece**, and moves on to the next, unless it was the last. -/
theorem Ready.sendProbe (h : t.Safe) {k : ℕ} {ip : ℕ → Iphdr} {l4hdr : List UInt8} {s : Sender}
    (hready : Ready t k ip l4hdr s) :
    ∃ d s', sendProbe t ip l4hdr s = some ([d], s') ∧ Carries t k d ∧
      (s'.eofReached = false → s.eofReached = false ∧ s'.ctx.srcId = k + 1 ∧
        s'.ctx.filePos = t.chunkSize * k ∧ t.chunkSize * k ≤ t.file.length) := by
  have hone := hready.one_le
  have hchunk : t.chunkSize * (k - 1) ≤ t.file.length := by
    have hle := Nat.mul_le_mul_left t.chunkSize (show k - 1 ≤ t.file.length / t.chunkSize by
      have := hready.le
      rw [Transfer.chunks] at this
      omega)
    exact hle.trans (Nat.mul_div_le _ _)
  have hsize : t.chunkSize ≠ 0 := h.pos.ne'
  have hdata : t.cfg.dataSize = t.sign.length + t.chunkSize := by
    have hpos := h.pos
    rw [Transfer.chunkSize, h.signlen] at hpos ⊢
    omega
  have hpacket : (l4hdr ++ (t.sign ++ t.chunk (k - 1))).length =
      l4hdr.length + t.cfg.dataSize := by
    rw [List.length_append, List.length_append, t.length_chunk, hdata]
  have hk : k < 65536 := Nat.lt_of_le_of_lt hready.le h.chunks
  -- the datagram, whatever becomes of the number and the position
  have hcarries : Carries t k (fillIphdr (ip 0) (l4hdr.length + t.cfg.dataSize) k ++
      (l4hdr ++ (t.sign ++ t.chunk (k - 1)))) := by
    have hip : 20 ≤ (ip 0).1.length := (ip 0).2
    refine ⟨⟨fillIphdr (ip 0) (l4hdr.length + t.cfg.dataSize) k ++ l4hdr, ?_, ?_, ?_⟩, ?_, ?_⟩
    · rw [List.length_append, length_fillIphdr]
      exact (ip 0).2.trans (Nat.le_add_right _ _)
    · simp only [List.append_assoc]
    · have hbefore : (fillIphdr (ip 0) (l4hdr.length + t.cfg.dataSize) k ++ l4hdr).length =
          (ip 0).1.length + l4hdr.length := by rw [List.length_append, length_fillIphdr]
      rw [hbefore]
      exact hready.signature
    · rw [ntohsAt, getD_append_left _ (by rw [length_fillIphdr]; omega),
        getD_append_left _ (by rw [length_fillIphdr]; omega)]
      exact ntohsAt_fillIphdr_id (ip 0) _ hk
    · rw [ntohsAt, getD_append_left _ (by rw [length_fillIphdr]; omega),
        getD_append_left _ (by rw [length_fillIphdr]; omega), List.length_append, length_fillIphdr,
        hpacket]
      exact ntohsAt_fillIphdr_totLen (ip 0) hready.totLen k
  have hfill := datafiller_chunk h hchunk
  rw [Nat.sub_add_cancel hone] at hfill
  -- one datagram leaves the number to `send_ip`
  have hsend : ∀ s' : Sender, s'.optFragment = false → s'.ctx.srcId = k →
      sendIpHandler t ip (l4hdr ++ (t.sign ++ t.chunk (k - 1))) s' =
        some ([fillIphdr (ip 0) (l4hdr.length + t.cfg.dataSize) k ++
          (l4hdr ++ (t.sign ++ t.chunk (k - 1)))],
          if s'.eofReached = false then
            { s' with ctx := { s'.ctx with srcId := s'.ctx.srcId + 1 } } else s') := by
    intro s' hwhole hid
    have hmtu : ¬(¬s'.optFragment = true ∧ t.hIfMtu ≤
        (l4hdr ++ (t.sign ++ t.chunk (k - 1))).length + (ip 0).1.length) := by
      rw [hpacket]
      have := hready.mtu
      omega
    rw [sendIpHandler, if_neg hmtu]
    dsimp only
    rw [if_neg (by rw [hwhole]; decide), sendIp, hpacket, hid]
    cases s'.eofReached <;> simp [h.safe]
  have hhandler : dataHandler t s t.cfg.dataSize =
      some (t.sign ++ t.chunk (k - 1), if t.chunkSize * k ≤ t.file.length then
        { s with ctx := { s.ctx with filePos := t.chunkSize * k } }
        else { s with ctx := { s.ctx with filePos := 0 }, eofReached := true }) := by
    rw [dataHandler, if_pos h.sign]
    dsimp only
    rw [← Transfer.chunkSize, if_neg hsize, if_pos h.datafromfile, hready.filePos, hfill]
    split_ifs <;> simp
  rw [StyxWire.Hping.sendProbe, hhandler]
  split_ifs with hin
  · refine ⟨_, _, hsend _ hready.whole hready.id, hcarries, fun heof => ?_⟩
    have hold : s.eofReached = false := by
      cases hs : s.eofReached with
      | false => rfl
      | true => simp [hs] at heof
    refine ⟨hold, ?_, ?_, hin⟩
    · simp [hold, hready.id]
    · simp [hold]
  · refine ⟨_, _, hsend _ hready.whole hready.id, hcarries, fun heof => ?_⟩
    exact absurd heof (by simp)

/-! ### Control messages -/

/-- The datagram asks for the piece with the number `k`, after headers that the signature is not
found in. -/
def Asks (t : Transfer) (k : ℕ) (c : List UInt8) : Prop :=
  ∃ hdr, c = sendRestart t hdr k ∧
    memstr (hdr ++ t.cfg.rsign) t.cfg.rsign (hdr ++ t.cfg.rsign).length = some hdr.length

/-- **A control message sets the number and the position.** -/
theorem Asks.handleHcmp {k : ℕ} {c : List UInt8} (hc : Asks t k c) (hk : k < 65536) (ctx : Context)
    (pad : List UInt8) :
    handleHcmp t.cfg ctx (c ++ pad) =
      { ctx with srcId := k, filePos := datafillerSeek t.cfg k } := by
  obtain ⟨hdr, rfl, hfound⟩ := hc
  have hparts : sendRestart t hdr k ++ pad = (hdr ++ t.cfg.rsign) ++
      ([UInt8.ofNat hcmpRestart, 0, 0, 0] ++ putBe16 k ++ [0, 0] ++ pad) := by
    simp only [sendRestart, List.append_assoc]
  have hmem : memstr (sendRestart t hdr k ++ pad) t.cfg.rsign
      (sendRestart t hdr k ++ pad).length = some hdr.length := by
    rw [hparts]
    exact memstr_append hfound (by rw [@List.length_append _ (hdr ++ t.cfg.rsign)]; omega) _
  have hdrop : (sendRestart t hdr k ++ pad).drop (hdr.length + t.cfg.rsign.length) =
      [UInt8.ofNat hcmpRestart, 0, 0, 0] ++ putBe16 k ++ [0, 0] ++ pad := by
    rw [hparts, ← List.length_append, List.drop_left]
  have hseq : ntohsAt 4 ([UInt8.ofNat hcmpRestart, 0, 0, 0] ++ putBe16 k ++ [0, 0] ++ pad) = k :=
    (be16_putBe16 k).trans (Nat.mod_eq_of_lt hk)
  have hlen : ¬([UInt8.ofNat hcmpRestart, 0, 0, 0] ++ putBe16 k ++ [0, 0] ++ pad).length <
      hcmphdrSize := by
    simp only [List.length_append, List.length_cons, List.length_nil, length_putBe16, hcmphdrSize]
    omega
  rw [StyxWire.Hping.handleHcmp, hmem]
  dsimp only
  rw [hdrop, if_neg hlen, if_pos, hseq]
  rfl

/-- The position of a piece. -/
theorem datafillerSeek_eq (h : t.Safe) {k : ℕ} (hone : 1 ≤ k) (hk : k < 65536) :
    datafillerSeek t.cfg k = t.chunkSize * (k - 1) := by
  have hpos := h.pos
  have hle : t.chunkSize < 65536 := Nat.lt_of_le_of_lt (Nat.sub_le _ _) h.dataSize
  have hmul : t.chunkSize * (k - 1) < 65536 * 65536 :=
    Nat.mul_lt_mul'' hle (by omega)
  have hcast : ((t.cfg.dataSize : ℤ) - t.cfg.signlen) * ((k : ℤ) - 1) =
      (t.chunkSize * (k - 1) : ℕ) := by
    rw [Transfer.chunkSize] at hpos ⊢
    push_cast [Nat.cast_sub (show t.cfg.signlen ≤ t.cfg.dataSize by omega), Nat.cast_sub hone]
    rfl
  rw [datafillerSeek, hcast]
  omega

/-! ### The network -/

/-- The two parties, and what they sent to each other so far. -/
structure Net where
  /-- The sender. -/
  sender : Sender
  /-- The receiver. -/
  receiver : Receiver
  /-- The datagrams to the receiver. -/
  data : List (List UInt8)
  /-- The datagrams to the sender. -/
  control : List (List UInt8)

/-- What happens next. A datagram that was sent is delivered, with some padding, or it is not; it
stays among those that can be delivered. -/
inductive NetEvent
  /-- A probe is sent, with these headers. -/
  | send (ip : ℕ → Iphdr) (l4hdr : List UInt8)
  /-- A datagram is delivered to the receiver, which may answer with this header. -/
  | data (i : ℕ) (pad hdr : List UInt8)
  /-- A datagram is delivered to the sender. -/
  | control (i : ℕ) (pad : List UInt8) (now : ℤ)

/-- What comes of it. -/
def NetEvent.step (t : Transfer) (s : Net) : NetEvent → Option Net
  | .send ip l4hdr =>
    (sendProbe t ip l4hdr s.sender).map fun (ds, sender) =>
      { s with sender := sender, data := s.data ++ ds }
  | .data i pad hdr =>
    match s.data[i]? with
    | none => some s
    | some d =>
      let (receiver, restart) := listenDatagram t s.receiver (d ++ pad)
      some
        { s with
          receiver := receiver
          control := s.control ++ restart.toList.map (sendRestart t hdr) }
  | .control i pad now =>
    match s.control[i]? with
    | none => some s
    | some c =>
      some { s with
        sender := { s.sender with ctx := (waitDatagram t.cfg s.sender.ctx (c ++ pad) now).2 } }

/-- **What holds of the two parties.** The datagrams carry the pieces that they say, and ask for
pieces that were not received when they were sent. As long as the end of the file was not
reached, the last piece was not sent, and the number agrees with the position. -/
structure Net.Good (t : Transfer) (s : Net) : Prop where
  data : ∀ d ∈ s.data, ∃ k, 1 ≤ k ∧ k ≤ t.chunks ∧ Carries t k d ∧
    (s.sender.eofReached = false → k < t.chunks)
  receiver : ∃ m, m ≤ t.chunks ∧ s.receiver.expId = (m + 1) % 65536 ∧
    s.receiver.written = (List.range m).flatMap t.chunk ∧
    (s.sender.eofReached = false → m < t.chunks) ∧
    ∀ c ∈ s.control, ∃ n ≤ m, Asks t ((n + 1) % 65536) c
  sender : s.sender.eofReached = false → ∃ k : ℕ, 1 ≤ k ∧ k ≤ t.chunks ∧
    s.sender.ctx.srcId = k ∧ s.sender.ctx.filePos = t.chunkSize * (k - 1)

/-- **What the sender must not do**: send a datagram in fragments, or one whose signature is found
in its headers; or send one after the end of the file was reached, unless the number and the
position belong together and the position is in the file. Neither does the receiver send a
control message whose signature is found in its headers. -/
def NetEvent.Proper (t : Transfer) (s : Net) : NetEvent → Prop
  | .send ip l4hdr =>
    s.sender.optFragment = false ∧
      l4hdr.length + t.cfg.dataSize + (ip 0).1.length < t.hIfMtu ∧
      (ip 0).1.length + (l4hdr.length + t.cfg.dataSize) < 65536 ∧
      memstr (fillIphdr (ip 0) (l4hdr.length + t.cfg.dataSize) s.sender.ctx.srcId ++ l4hdr ++
          t.sign) t.sign
        (fillIphdr (ip 0) (l4hdr.length + t.cfg.dataSize) s.sender.ctx.srcId ++ l4hdr ++
          t.sign).length = some ((ip 0).1.length + l4hdr.length) ∧
      (s.sender.eofReached = true →
        (s.sender.ctx.filePos : ℤ) = t.chunkSize * (s.sender.ctx.srcId - 1) ∧
          s.sender.ctx.filePos ≤ t.file.length)
  | .data _ _ hdr =>
    memstr (hdr ++ t.cfg.rsign) t.cfg.rsign (hdr ++ t.cfg.rsign).length = some hdr.length
  | .control _ _ _ => True

/-- A number and a position that belong together are those of a piece. -/
theorem exists_piece (h : t.Safe) {pos : ℕ} {id : ℤ} (hpos : (pos : ℤ) = t.chunkSize * (id - 1))
    (hle : pos ≤ t.file.length) :
    ∃ k : ℕ, 1 ≤ k ∧ k ≤ t.chunks ∧ id = k ∧ pos = t.chunkSize * (k - 1) := by
  have hsize : (0 : ℤ) < t.chunkSize := Int.natCast_pos.mpr h.pos
  have hid : 0 ≤ id - 1 := by
    by_contra hneg
    have := mul_neg_of_pos_of_neg hsize (not_le.mp hneg)
    omega
  obtain ⟨n, hn⟩ := Int.eq_ofNat_of_zero_le hid
  have hpos' : pos = t.chunkSize * n := by
    rw [hn] at hpos
    exact_mod_cast hpos
  have hdiv : n ≤ t.file.length / t.chunkSize :=
    (Nat.le_div_iff_mul_le h.pos).mpr (by rw [mul_comm, ← hpos']; exact hle)
  refine ⟨n + 1, by omega, ?_, by omega, hpos'⟩
  rw [Transfer.chunks]
  omega

/-- A sender that does nothing wrong is ready to send some piece. -/
theorem Net.Good.ready (h : t.Safe) {s : Net} (hgood : s.Good t) {ip : ℕ → Iphdr}
    {l4hdr : List UInt8} (hproper : NetEvent.Proper t s (.send ip l4hdr)) :
    ∃ k, Ready t k ip l4hdr s.sender := by
  obtain ⟨hwhole, hmtu, htot, hsign, heof⟩ := hproper
  obtain ⟨k, hone, hle, hid, hpos⟩ : ∃ k : ℕ, 1 ≤ k ∧ k ≤ t.chunks ∧ s.sender.ctx.srcId = k ∧
      s.sender.ctx.filePos = t.chunkSize * (k - 1) := by
    cases hs : s.sender.eofReached with
    | false => exact hgood.sender hs
    | true => exact exists_piece h (heof hs).1 (heof hs).2
  rw [hid] at hsign
  exact ⟨k, hid, hpos, hone, hle, hwhole, hmtu, htot, hsign⟩

/-- **The steps keep what holds of the two parties.** -/
theorem Net.Good.step (h : t.Safe) (s : Net) (e : NetEvent) (hgood : s.Good t)
    (hproper : e.Proper t s) : ∃ s', e.step t s = some s' ∧ s'.Good t := by
  cases e with
  | send ip l4hdr =>
    obtain ⟨k, hready⟩ := hgood.ready h hproper
    obtain ⟨d, sender, hsend, hcarries, hnext⟩ := hready.sendProbe h
    -- another piece follows if the end of the file was not reached
    have hlt : sender.eofReached = false → k < t.chunks := by
      intro heof
      have hdiv : k ≤ t.file.length / t.chunkSize :=
        (Nat.le_div_iff_mul_le h.pos).mpr (by rw [mul_comm]; exact (hnext heof).2.2.2)
      rw [Transfer.chunks]
      omega
    refine ⟨_, Option.map_eq_some_iff.mpr ⟨_, hsend, rfl⟩, ?_, ?_, ?_⟩
    · intro d' hd'
      rcases List.mem_append.mp hd' with hold | hnew
      · obtain ⟨l, hone, hle, hl, hl'⟩ := hgood.data d' hold
        exact ⟨l, hone, hle, hl, fun heof => hl' (hnext heof).1⟩
      · obtain rfl := List.mem_singleton.mp hnew
        exact ⟨k, hready.one_le, hready.le, hcarries, hlt⟩
    · obtain ⟨m, hm, hexp, hwritten, hlast, hcontrol⟩ := hgood.receiver
      exact ⟨m, hm, hexp, hwritten, fun heof => hlast (hnext heof).1, hcontrol⟩
    · intro heof
      obtain ⟨-, hid, hpos, -⟩ := hnext heof
      exact ⟨k + 1, by omega, hlt heof, hid, hpos⟩
  | data i pad hdr =>
    rw [NetEvent.step]
    rcases hd : s.data[i]? with _ | d
    · exact ⟨s, rfl, hgood⟩
    · obtain ⟨k, hone, hle, hcarries, hlast⟩ := hgood.data d (List.mem_of_getElem? hd)
      obtain ⟨m, hm, hexp, hwritten, hlast', hcontrol⟩ := hgood.receiver
      have hchunks := h.chunks
      dsimp only
      rw [hcarries.listen h]
      split_ifs with hexpected
      · -- the number does not wrap, as there is no piece with the number zero
        obtain rfl : k = m + 1 := by omega
        refine ⟨_, rfl, hgood.data, ⟨m + 1, hle, ?_, ?_, hlast, fun c hc => ?_⟩, hgood.sender⟩
        · dsimp only
          omega
        · rw [hwritten, List.range_succ, List.flatMap_append, List.flatMap_singleton]
          rfl
        · rw [Option.toList_none, List.map_nil, List.append_nil] at hc
          obtain ⟨n, hn, hasks⟩ := hcontrol c hc
          exact ⟨n, by omega, hasks⟩
      · refine ⟨_, rfl, hgood.data, ⟨m, hm, hexp, hwritten, hlast', fun c hc => ?_⟩, hgood.sender⟩
        rcases List.mem_append.mp hc with hold | hnew
        · exact hcontrol c hold
        · obtain rfl := List.mem_singleton.mp hnew
          exact ⟨m, le_refl m, hdr, by rw [hexp], hproper⟩
  | control i pad now =>
    rw [NetEvent.step]
    rcases hc : s.control[i]? with _ | c
    · exact ⟨s, rfl, hgood⟩
    · refine ⟨_, rfl, hgood.data, hgood.receiver, fun heof => ?_⟩
      obtain ⟨m, -, -, -, hlast, hcontrol⟩ := hgood.receiver
      obtain ⟨n, hn, hasks⟩ := hcontrol c (List.mem_of_getElem? hc)
      have hlt := hlast heof
      have hchunks := h.chunks
      rcases (waitDatagram_cases t.cfg s.sender.ctx (c ++ pad) now).srcId_filePos with
        ⟨hid, hpos⟩ | ⟨hid, hpos⟩
      · obtain ⟨k, hone, hle, hid', hpos'⟩ := hgood.sender heof
        exact ⟨k, hone, hle, hid.trans hid', hpos.trans hpos'⟩
      · rw [Context.withHcmp, if_pos h.sign, hasks.handleHcmp (Nat.mod_lt _ (by decide))] at hid hpos
        have hmod : (n + 1) % 65536 = n + 1 := Nat.mod_eq_of_lt (by omega)
        rw [hmod] at hid hpos
        refine ⟨n + 1, by omega, by omega, hid, ?_⟩
        rw [hpos]
        exact datafillerSeek_eq h (by omega) (by omega)

/-- The two parties before the transfer. -/
structure Net.Start (s : Net) : Prop where
  srcId : s.sender.ctx.srcId = 1
  filePos : s.sender.ctx.filePos = 0
  eofReached : s.sender.eofReached = false
  expId : s.receiver.expId = 1
  written : s.receiver.written = []
  data : s.data = []
  control : s.control = []

theorem Net.Start.good {s : Net} (hstart : s.Start) (t : Transfer) : s.Good t where
  data d hd := by
    rw [hstart.data] at hd
    exact absurd hd List.not_mem_nil
  receiver := by
    refine ⟨0, Nat.zero_le _, hstart.expId, hstart.written, fun _ => Nat.succ_pos _, ?_⟩
    intro c hc
    rw [hstart.control] at hc
    exact absurd hc List.not_mem_nil
  sender _ := ⟨1, le_refl 1, Nat.succ_pos _, hstart.srcId, hstart.filePos⟩

/-- **The receiver writes the pieces of the file in their order**, whatever is lost, duplicated,
delayed or reordered, as long as the sender sends no datagram after the end of the file whose
number and position do not belong together. -/
theorem written_eq_chunks (h : t.Safe) {s : Net} (hstart : s.Start) {es : List NetEvent}
    (hproper : Events.Meets (NetEvent.step t) (NetEvent.Proper t) s es) {before : List NetEvent}
    (hpre : before <+: es) :
    ∃ s' m, Events.run (NetEvent.step t) s before = some s' ∧ m ≤ t.chunks ∧
      s'.receiver.expId = (m + 1) % 65536 ∧
      s'.receiver.written = (List.range m).flatMap t.chunk := by
  obtain ⟨s', hrun, hgood⟩ := Events.run_state_invariant (Net.Good.step h) (hstart.good t)
    (hproper.of_isPrefix hpre)
  obtain ⟨m, hm, hexp, hwritten, -⟩ := hgood.receiver
  exact ⟨s', m, hrun, hm, hexp, hwritten⟩

/-! ### The end of the file -/

/-- A transfer of three bytes in pieces of two. -/
def shortTransfer : Transfer where
  cfg := { Config.plain with optSign := true, rsign := [3, 2, 1], dataSize := 5, signlen := 3 }
  sign := [1, 2, 3]
  file := [7, 8, 9]
  optDatafromfile := true
  optSafe := true
  optEnd := true
  hIfMtu := 1500

theorem safe_shortTransfer : shortTransfer.Safe where
  sign := rfl
  datafromfile := rfl
  safe := rfl
  atEnd := rfl
  signlen := rfl
  dataSize := by decide
  pos := by decide
  chunks := by decide

/-- The two parties before it. -/
def shortNet : Net where
  sender :=
    { ctx := { Context.start 0 with srcId := 1 }
      eofReached := false
      optFragment := false
      virtualMtu := 0 }
  receiver := ⟨1, []⟩
  data := []
  control := []

theorem start_shortNet : shortNet.Start := ⟨rfl, rfl, rfl, rfl, rfl, rfl, rfl⟩

/-- A probe in raw IP mode. -/
def rawProbe : NetEvent := .send (fun _ => ⟨69 :: List.replicate 19 0, by decide⟩) []

theorem written_eq_chunks_short :
    ∃ s' m, Events.run (NetEvent.step shortTransfer) shortNet [rawProbe] = some s' ∧
      m ≤ shortTransfer.chunks ∧ s'.receiver.expId = (m + 1) % 65536 ∧
      s'.receiver.written = (List.range m).flatMap shortTransfer.chunk :=
  written_eq_chunks safe_shortTransfer start_shortNet
    (show Events.Meets _ (NetEvent.Proper shortTransfer) shortNet [rawProbe] from
      ⟨⟨rfl, by decide, by decide, by decide, nofun⟩, fun _ _ => trivial⟩) (List.prefix_refl _)

/-- **The first piece is written for the last**, which was lost: after the end of the file the
sender repeats its last number with what comes from the beginning. -/
theorem wrong_bytes_after_eof :
    ∃ s', Events.run (NetEvent.step shortTransfer) shortNet
        [rawProbe, .data 0 [] [], rawProbe, rawProbe, .data 2 [] []] = some s' ∧
      s'.receiver = ⟨3, [7, 8, 7, 8]⟩ ∧
      (List.range 2).flatMap shortTransfer.chunk = [7, 8, 9, 0] :=
  ⟨_, rfl, by decide, by decide⟩

end StyxWire.Hping
