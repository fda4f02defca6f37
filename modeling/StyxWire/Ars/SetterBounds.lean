import StyxWire.Ars.ApdMachine
import StyxWire.Ars.RoundTrip
import StyxWire.Lib.Outcome

/-!
# Setters stay inside their layers

A new layer is its whole block, and how large it is depends on the keyword
(`StyxWire.Fresh`). Each of the setters needs a number of bytes, whatever the value it is given:
the entries of a route, of the timestamps and of the blocks of a SACK option are counted before
they are stored. A layer that has these bytes is left with them (`StyxWire.Inside`), so the
setters of a layer can follow one another.

Four keywords add an option of one byte, and share their setter with options that have a length
byte: it is the one field that is outside of its layer (`StyxWire.staysInside_iff`).
-/

namespace StyxWire

open Mem Text Outcome

/-! ### Layers with room -/

/-- The layer is its whole block, and has at least `n` bytes. -/
def Room (n : ℕ) (l : ArsLayer) : Prop := l.lSize = l.lData.length ∧ n ≤ l.lSize

/-- The last layer of the packet is its whole block, of `n` bytes. -/
def Fresh (n : ℕ) (pkt : ArsPacket) : Prop :=
  ∀ l ∈ pkt.pLayer.getLast?, l.lData.length = n ∧ l.lSize = n

/-- Whatever comes of it is inside the block, and leaves a layer with room for `n` bytes. -/
abbrev Stays (n : ℕ) (x : Except ArsErr ArsLayer) : Prop := Ends (Room n) (· ≠ .oob) x

/-- The setter writes in the first `n` bytes only, if it writes at fixed places. -/
def Inside (n : ℕ) (s : Setter) : Prop := ∀ libc v l, Room n l → Stays n (s libc v l)

theorem Room.write {n : ℕ} {l : ArsLayer} (h : Room n l) (off : ℕ) (src : List UInt8) :
    Room n (l.write off src) := by
  refine ⟨?_, h.2⟩
  rw [ArsLayer.write_lSize, ArsLayer.write_lData, length_writeAt]
  exact h.1

theorem stays_put {n off : ℕ} {src : List UInt8} (hfit : off + src.length ≤ n) {l : ArsLayer}
    (h : Room n l) : Stays n (put off src l) := by
  have hlen : off + src.length ≤ l.lData.length := hfit.trans (h.2.trans h.1.le)
  rw [put, if_pos hlen]
  exact h.write off src

theorem ends_rdByte {b : List UInt8} {i : ℕ} (h : i < b.length) :
    Ends (fun _ => True) (· ≠ .oob) (rdByte b i) := by
  rw [rdByte_eq h]
  trivial

theorem Room.lt_length {n i : ℕ} {l : ArsLayer} (h : Room n l) (hi : i < n) :
    i < l.lData.length :=
  lt_of_lt_of_le hi (h.2.trans h.1.le)

theorem ends_arsFailText {α : Type} {P : α → Prop} (code : ArsCode) (msg : List UInt8) :
    Ends P (· ≠ .oob) (arsFailText code msg : Except ArsErr α) := by
  intro h
  cases h

theorem ends_arsFail {α : Type} {P : α → Prop} (code : ArsCode) (msg : String) :
    Ends P (· ≠ .oob) (arsFail code msg : Except ArsErr α) := by
  intro h
  cases h

theorem ends_arsResolve (libc : Libc) (v : List UInt8) :
    Ends (fun a => a.length = 4) (· ≠ .oob) (arsResolve libc v) := by
  rw [arsResolve]
  split
  · next a ha => exact libc.inetAton_length v a ha
  · split
    · next a ha => exact libc.gethostbyname_length v a ha
    · exact ends_arsFail _ _

theorem ends_arsResolve6 (libc : Libc) (v : List UInt8) :
    Ends (fun a => a.length = 16) (· ≠ .oob) (arsResolve6 libc v) := by
  rw [arsResolve6]
  split
  · next a ha => exact libc.inetPton_length v a ha
  · split
    · next a ha => exact libc.getaddrinfo_length v a ha
    · exact ends_arsFail _ _

/-! ### The setters -/

section Setters

variable {n : ℕ}

@[simp] theorem Inside.taking {s : Setter} (h : Inside n s) (flag : ℕ) : Inside n (taking flag s) :=
  fun libc v l hl => Ends.map (h libc v l hl) fun _ ha => ha

@[simp] theorem inside_setByte {off : ℕ} (h : off + 1 ≤ n) : Inside n (setByte off) :=
  fun _ _ _ hl => stays_put h hl

@[simp] theorem inside_setSymbol {off : ℕ} (h : off + 1 ≤ n) (symbols : List (String × ℕ)) :
    Inside n (setSymbol off symbols) :=
  fun _ _ _ hl => stays_put h hl

@[simp] theorem inside_setOptlen (h : 2 ≤ n) : Inside n setOptlen := inside_setByte h

@[simp] theorem inside_setIpoptPtr (h : 3 ≤ n) : Inside n setIpoptPtr :=
  (inside_setByte h).taking arsTakeIpoptPtr

@[simp] theorem inside_put {off : ℕ} {src : List UInt8 → List UInt8}
    (h : ∀ v, off + (src v).length ≤ n) : Inside n fun _ v => put off (src v) :=
  fun _ v _ hl => stays_put (h v) hl

@[simp] theorem inside_setLow {off : ℕ} (h : off + 1 ≤ n) : Inside n (setLow off) :=
  fun _ _ _ hl => Ends.bind (ends_rdByte (hl.lt_length h)) fun _ _ => stays_put h hl

@[simp] theorem inside_setHigh {off : ℕ} (h : off + 1 ≤ n) : Inside n (setHigh off) :=
  fun _ _ _ hl => Ends.bind (ends_rdByte (hl.lt_length h)) fun _ _ => stays_put h hl

@[simp] theorem inside_setNet16 {off : ℕ} (h : off + 2 ≤ n) : Inside n (setNet16 off) :=
  fun _ _ _ hl => stays_put h hl

@[simp] theorem inside_setHost16 {off : ℕ} (h : off + 2 ≤ n) : Inside n (setHost16 off) :=
  fun _ _ _ hl => stays_put h hl

@[simp] theorem inside_setNet24 {off : ℕ} (h : off + 3 ≤ n) : Inside n (setNet24 off) :=
  fun _ _ _ hl => stays_put h hl

@[simp] theorem inside_setNet32 {off : ℕ} (h : off + 4 ≤ n) : Inside n (setNet32 off) :=
  fun _ _ _ hl => stays_put h hl

@[simp] theorem inside_setIp6Word (h : 4 ≤ n) (word : ArsLayer → ℕ → ℕ) :
    Inside n (setIp6Word word) :=
  fun _ _ _ hl => stays_put h hl

@[simp] theorem inside_setAddr {off : ℕ} (h : off + 4 ≤ n) : Inside n (setAddr off) :=
  fun libc v _ hl => Ends.bind (ends_arsResolve libc v) fun _ ha => stays_put (by rwa [ha]) hl

@[simp] theorem inside_setAddr6 {off : ℕ} (h : off + 16 ≤ n) : Inside n (setAddr6 off) :=
  fun libc v _ hl => Ends.bind (ends_arsResolve6 libc v) fun _ ha => stays_put (by rwa [ha]) hl

theorem stays_mask16 {off : ℕ} (h : off + 2 ≤ n) (op : UInt8 → UInt8 → UInt8) {m : List UInt8}
    (hm : m.length = 2) {l : ArsLayer} (hl : Room n l) : Stays n (mask16 op off m l) := by
  have hlen : off + 2 ≤ l.lData.length := h.trans (hl.2.trans hl.1.le)
  rw [mask16, rdBytes_eq hlen, bind_ok]
  refine stays_put ?_ hl
  rw [List.length_zipWith, hm]
  omega

@[simp] theorem inside_setFragoff (h : 8 ≤ n) : Inside n setFragoff :=
  fun _ _ _ hl => Ends.bind (stays_mask16 h _ rfl hl) fun _ => stays_mask16 h _ rfl

@[simp] theorem inside_setFragBit (h : 8 ≤ n) (bit : ℕ) : Inside n (setFragBit bit) := by
  intro libc v l hl
  rw [setFragBit]
  split_ifs
  · exact stays_mask16 h _ rfl hl
  · exact stays_mask16 h _ rfl hl

/-- Entries are stored one after the other, where the number of each says. -/
theorem stays_entries {entry : ArsLayer → List UInt8 × ℕ → Except ArsErr ArsLayer} {m : ℕ}
    (hentry : ∀ l e, e.2 < m → Room n l → Stays n (entry l e)) (s : List UInt8) {l : ArsLayer}
    (hl : Room n l) : Stays n ((strftok (ch '/') s m).zipIdx.foldlM entry l) := by
  refine Ends.foldlM (fun l e he => hentry l e ?_) hl
  have hlt : e.2 < (strftok (ch '/') s m).length := List.snd_lt_of_mem_zipIdx he
  exact hlt.trans_le (List.length_take_le _ _)

@[simp] theorem inside_setRoute (h : 39 ≤ n) : Inside n setRoute := by
  intro libc v l hl
  refine Ends.bind (stays_entries (fun l e he hl => ?_) v hl) fun l' hl' => ?_
  · exact inside_setAddr (by rw [ipoptrrMaxEntries] at he; omega) libc e.1 l hl
  · split_ifs
    · refine Ends.bind (ends_rdByte (hl'.lt_length (by omega))) fun kind _ => ?_
      exact stays_put (show 2 + 1 ≤ n by omega) hl'
    · exact hl'

@[simp] theorem inside_setTsFlags (h : 4 ≤ n) : Inside n setTsFlags := by
  intro libc v l hl
  refine Ends.bind (ends_rdByte (hl.lt_length h)) fun b _ => ?_
  have hput : ∀ flags : ℕ, Stays n (put 3 [setLo b flags] l) := fun flags => stays_put h hl
  dsimp only
  split_ifs
  · exact hput _
  · exact hput _
  · exact hput _
  · exact hput _
  · exact ends_arsFailText _ _

/-- There are nine entries of four bytes, or four of eight. -/
theorem stays_setTsEntry (h : 40 ≤ n) (flags : ℕ) (libc : Libc) (l : ArsLayer)
    (e : List UInt8 × ℕ) (he : e.2 < ipopttsMaxEntries) (hl : Room n l) : Stays n (setTsEntry flags libc l e) := by
  rw [ipopttsMaxEntries] at he
  rw [setTsEntry]
  split
  · split_ifs with hflags hfour
    · exact ends_arsFail _ _
    · refine Ends.bind (ends_arsResolve libc _) fun a ha => ?_
      refine Ends.bind (stays_put (by rw [ha]; omega) hl) fun l' hl' => ?_
      exact stays_put (by rw [length_putBe32]; omega) hl'
    · exact Ends.bind (ends_arsResolve libc _) fun _ _ => hl
  · split_ifs
    · exact ends_arsFailText _ _
    · exact stays_put (by rw [length_putBe32]; omega) hl

@[simp] theorem inside_setTsData (h : 40 ≤ n) : Inside n setTsData := by
  intro libc v l hl
  refine Ends.bind (ends_rdByte (hl.lt_length (by omega))) fun b _ => ?_
  refine Ends.bind (stays_entries (stays_setTsEntry h _ libc) v hl) fun l' hl' => ?_
  split_ifs
  · exact stays_put (show 2 + 1 ≤ n by omega) hl'
  · exact stays_put (show 2 + 1 ≤ n by omega) hl'
  · exact hl'

theorem length_hextobin {s bs : List UInt8} (h : hextobin s = some bs) :
    s.length = 2 * bs.length := by
  induction s using hextobin.induct generalizing bs with
  | case1 => obtain rfl := Option.some.inj h; rfl
  | case2 => cases h
  | case3 c0 c1 s ih =>
    simp only [hextobin, bind, Option.bind_eq_some_iff, pure, Option.some.injEq] at h
    obtain ⟨x0, -, x1, -, bs', hbs', rfl⟩ := h
    rw [List.length_cons, List.length_cons, List.length_cons, ih hbs']
    omega

@[simp] theorem inside_setHexDigits {off digits : ℕ} (h : off + digits / 2 ≤ n)
    (name count sample : String) : Inside n (setHexDigits off digits name count sample) := by
  intro libc v l hl
  rw [setHexDigits]
  split_ifs with hlen
  · exact ends_arsFailText _ _
  · split
    · next bs hbs =>
      have htwo := length_hextobin hbs
      exact stays_put (by omega) hl
    · exact ends_arsFailText _ _

theorem stays_setSackBlock (h : 34 ≤ n) (l : ArsLayer) (e : List UInt8 × ℕ)
    (he : e.2 < tcpoptsackMaxEntries) (hl : Room n l) : Stays n (setSackBlock l e) := by
  rw [tcpoptsackMaxEntries] at he
  rw [setSackBlock]
  split
  · refine Ends.bind (stays_put (by rw [length_putBe32]; omega) hl) fun l' hl' => ?_
    exact stays_put (by rw [length_putBe32]; omega) hl'
  · exact ends_arsFailText _ _

@[simp] theorem inside_setSackBlocks (h : 34 ≤ n) : Inside n fun _ v l =>
    (strftok (ch '/') v tcpoptsackMaxEntries).zipIdx.foldlM setSackBlock l :=
  fun _ v _ hl => stays_entries (stays_setSackBlock h) v hl

@[simp] theorem inside_setIgrpOpcode (h : 1 ≤ n) : Inside n setIgrpOpcode :=
  fun _ _ _ hl => Ends.bind (ends_rdByte (hl.lt_length h)) fun _ _ => stays_put h hl

@[simp] theorem inside_setIgrpDest (h : 3 ≤ n) : Inside n setIgrpDest := by
  intro libc v l hl
  rw [setIgrpDest]
  dsimp only
  split
  · next bs hbs =>
    have hlen : bs.length = 3 := by
      simp only [bind, Option.bind_eq_some_iff, Prod.exists] at hbs
      obtain ⟨f0, s, -, f1, f2, -, hnum⟩ := hbs
      split_ifs at hnum
      obtain rfl := Option.some.inj hnum
      rfl
    exact stays_put (by omega) hl
  · exact ends_arsFailText _ _

@[simp] theorem inside_pushing {decode : Libc → List UInt8 → Except ArsErr (List UInt8)}
    (h : ∀ libc v, Ends (fun _ => True) (· ≠ .oob) (decode libc v)) :
    Inside n (pushing decode) := by
  intro libc v l hl
  refine Ends.map (h libc v) fun data _ => ?_
  rw [arsPushData]
  split_ifs
  · exact hl
  · exact ⟨by simp [ArsLayer.grow, hl.1], hl.2.trans (Nat.le_add_right _ _)⟩

/-! ### The tables -/

/-- A table of setters that stay inside. -/
theorem stays_arsDSet {fields : Fields} (h : ∀ e ∈ fields, Inside n e.2) (layer : String)
    (libc : Libc) {l : ArsLayer} (f v : List UInt8) (hl : Room n l) :
    Stays n (arsDSet layer fields libc l f v) := by
  rw [arsDSet]
  split
  · next e he => exact h e (List.mem_of_find?_eq_some he) libc v l hl
  · exact ends_arsFailText _ _

theorem ends_arsReadFile (libc : Libc) (v : List UInt8) :
    Ends (fun _ => True) (· ≠ .oob) (arsReadFile libc v) := by
  rw [arsReadFile]
  split
  · trivial
  · exact ends_arsFailText _ _

theorem ends_arsDecodeHexLoop : ∀ s : List UInt8,
    Ends (fun _ => True) (· ≠ .oob) (arsDecodeHexLoop s)
  | [] => trivial
  | [_] => trivial
  | c0 :: c1 :: s => by
    rw [arsDecodeHexLoop]
    split
    · exact Ends.map (ends_arsDecodeHexLoop s) fun _ _ => trivial
    · exact ends_arsFailText _ _

theorem ends_arsDecodeHex (s : List UInt8) :
    Ends (fun _ => True) (· ≠ .oob) (arsDecodeHex s) := by
  rw [arsDecodeHex]
  split_ifs
  · exact ends_arsFail _ _
  · exact ends_arsDecodeHexLoop s

end Setters

/-! ### The layers that are added -/

section Added

variable {n : ℕ}

theorem Fresh.writeLast {pkt : ArsPacket} (h : Fresh n pkt) (off : ℕ) (src : List UInt8) :
    Fresh n (pkt.writeLast off src) := by
  intro l hl
  rcases List.eq_nil_or_concat pkt.pLayer with hnil | ⟨ls, m, hls⟩
  · simp [ArsPacket.writeLast, ArsPacket.mapLast, hnil] at hl
  · simp only [ArsPacket.writeLast, ArsPacket.mapLast, hls, List.concat_eq_append,
      List.dropLast_concat, List.getLast?_concat, Option.map_some, Option.toList_some,
      Option.mem_some_iff] at hl
    obtain rfl := hl
    have hm := h m (by simp [hls])
    exact ⟨by simpa using hm.1, hm.2⟩

theorem fresh_generic (pkt : ArsPacket) (size : ℕ) (t : ArsType) (h : t.hdrSize ≤ size) :
    Ends (Fresh size) (fun _ => True) (arsAddGeneric pkt size t h) := by
  have hpush : ∀ (d : List UInt8) (hd : t.hdrSize ≤ d.length) hroom, d.length = size →
      Fresh size (pkt.push (.full t 0 d hd) hroom) := by
    intro d hd hroom hlen l hl
    have hlast : (pkt.push (.full t 0 d hd) hroom).pLayer.getLast? = some (.full t 0 d hd) := by
      simp [ArsPacket.push]
    obtain rfl := Option.some.inj (hlast.symm.trans hl)
    exact ⟨hlen, hlen⟩
  rw [arsAddGeneric]
  split_ifs with hroom
  · split
    · exact hpush _ _ hroom List.length_replicate
    · next d _ =>
      split_ifs with hd
      · exact hpush _ _ hroom (List.length_take_of_le hd)
      · trivial
  · trivial

theorem fresh_ipopt {option : ℕ} (hn : arsIpoptLen option = some n) (pkt : ArsPacket) :
    Ends (Fresh n) (fun _ => True) (arsAddIpopt pkt option) := by
  simp only [arsAddIpopt, hn]
  refine Ends.bind (fresh_generic pkt n .ipopt _) fun p hp => ?_
  split_ifs
  · exact hp.writeLast _ _
  · exact (((hp.writeLast _ _).writeLast _ _).writeLast _ _).writeLast _ _
  · exact ((((hp.writeLast _ _).writeLast _ _).writeLast _ _).writeLast _ _).writeLast _ _
  · exact (hp.writeLast _ _).writeLast _ _

theorem fresh_tcpopt {option : ℕ} (hn : arsTcpoptLen option = some n) (pkt : ArsPacket) :
    Ends (Fresh n) (fun _ => True) (arsAddTcpopt pkt option) := by
  simp only [arsAddTcpopt, hn]
  refine Ends.bind (fresh_generic pkt n .tcpopt _) fun p hp => ?_
  have hvalue : ∀ q : ArsPacket, Fresh n q → Ends (Fresh n) (fun _ => True)
      (if option = arsTcpoptEchorequest ∨ option = arsTcpoptEchoreply then
        .ok (q.writeLast 2 (List.replicate 4 0))
      else if option = arsTcpoptTimestamp then .ok (q.writeLast 2 (List.replicate 8 0))
      else .ok q : Except ArsErr ArsPacket) := by
    intro q hq
    split_ifs
    · exact hq.writeLast _ _
    · exact hq.writeLast _ _
    · exact hq
  refine hvalue _ ?_
  split_ifs
  · exact (hp.writeLast _ _).writeLast _ _
  · exact hp.writeLast _ _

end Added

/-! ### The keywords -/

/-- What the keyword adds has `n` bytes, and its setter needs no more. -/
structure Covers (n : ℕ) (k : ArsDKeywordInfo) : Prop where
  fresh : ∀ pkt, Ends (Fresh n) (fun _ => True) (k.kiAdd pkt)
  stays : ∀ libc l f v, Room n l → Stays n (k.kiSet libc l f v)

/-- The size of the layer that a keyword adds. -/
def newSize (k : ArsDKeywordInfo) : ℕ :=
  match k.kiAdd arsInit with
  | .ok pkt => arsRelativeSize pkt.pLayer
  | .error _ => 0

/-- The keywords of options that are one byte. -/
def oneByte : List String := ["ip.eol", "ip.nop", "tcp.eol", "tcp.nop"]

theorem Covers.of_table {n : ℕ} {kw : String} {add : ArsPacket → Except ArsErr ArsPacket}
    {layer : String} {fields : Fields} (hadd : ∀ pkt, Ends (Fresh n) (fun _ => True) (add pkt))
    (hfields : ∀ e ∈ fields, Inside n e.2) : Covers n ⟨kw, add, arsDSet layer fields⟩ :=
  ⟨hadd, fun libc _ f v hl => stays_arsDSet hfields layer libc f v hl⟩

/-- What the keyword adds is one byte, and its setter knows the length byte only. -/
structure Bare (k : ArsDKeywordInfo) : Prop where
  fresh : ∀ pkt, Ends (Fresh 1) (fun _ => True) (k.kiAdd pkt)
  set : ∃ layer, k.kiSet = arsDSet layer [(["optlen"], setOptlen)]

theorem Bare.of_add {kw : String} {add : ArsPacket → Except ArsErr ArsPacket} {layer : String}
    (hadd : ∀ pkt, Ends (Fresh 1) (fun _ => True) (add pkt)) :
    Bare ⟨kw, add, arsDSet layer [(["optlen"], setOptlen)]⟩ :=
  ⟨hadd, layer, rfl⟩

/-- **What the keywords add and set**: the setter has the bytes that it needs, or the layer has one
byte and the setter knows the length byte only. -/
theorem covers_or_oneByte {k : ArsDKeywordInfo} (hk : k ∈ arsDkinfo) :
    (k.kiKeyword ∉ oneByte ∧ ∃ n, Covers n k) ∨
      (k.kiKeyword ∈ oneByte ∧ Bare k) := by
  have hhdr : ∀ {size : ℕ} {t : ArsType} (h : t.hdrSize ≤ size) (off : ℕ) (src : List UInt8) pkt,
      Ends (Fresh size) (fun _ => True)
        ((arsAddGeneric pkt size t h).map (·.writeLast off src)) :=
    fun h off src pkt => Ends.map (fresh_generic pkt _ _ h) fun _ hp => hp.writeLast off src
  have hhdr' : ∀ {size : ℕ} {t : ArsType} (h : t.hdrSize ≤ size) (off off' : ℕ)
      (src src' : List UInt8) pkt, Ends (Fresh size) (fun _ => True)
        ((arsAddGeneric pkt size t h).map fun p => (p.writeLast off src).writeLast off' src') :=
    fun h off off' src src' pkt => Ends.map (fresh_generic pkt _ _ h) fun _ hp =>
      (hp.writeLast off src).writeLast off' src'
  simp only [arsDkinfo, List.mem_cons, List.not_mem_nil, or_false] at hk
  rcases hk with rfl | rfl | rfl | rfl | rfl | rfl | rfl | rfl | rfl | rfl | rfl | rfl | rfl | rfl |
    rfl | rfl | rfl | rfl | rfl | rfl | rfl | rfl | rfl | rfl | rfl | rfl | rfl | rfl
  · exact Or.inl ⟨by simp [oneByte], 20, .of_table (fun _ => fresh_generic _ _ _ _) (by simp)⟩
  · exact Or.inr ⟨by simp [oneByte], .of_add (fresh_ipopt rfl)⟩
  · exact Or.inr ⟨by simp [oneByte], .of_add (fresh_ipopt rfl)⟩
  · exact Or.inl ⟨by simp [oneByte], 11, .of_table (fresh_ipopt rfl) (by simp)⟩
  · exact Or.inl ⟨by simp [oneByte], 4, .of_table (fresh_ipopt rfl) (by simp)⟩
  · exact Or.inl ⟨by simp [oneByte], 40, .of_table (fresh_ipopt rfl) (by simp)⟩
  · exact Or.inl ⟨by simp [oneByte], 40, .of_table (fresh_ipopt rfl) (by simp)⟩
  · exact Or.inl ⟨by simp [oneByte], 40, .of_table (fresh_ipopt rfl) (by simp)⟩
  · exact Or.inl ⟨by simp [oneByte], 40, .of_table (fresh_ipopt rfl) (by simp)⟩
  · exact Or.inl ⟨by simp [oneByte], 8, .of_table (fun _ => fresh_generic _ _ _ _) (by simp)⟩
  · exact Or.inl ⟨by simp [oneByte], 20, .of_table (fun _ => fresh_generic _ _ _ _) (by simp)⟩
  · exact Or.inr ⟨by simp [oneByte], .of_add (fresh_tcpopt rfl)⟩
  · exact Or.inr ⟨by simp [oneByte], .of_add (fresh_tcpopt rfl)⟩
  · exact Or.inl ⟨by simp [oneByte], 4, .of_table (fresh_tcpopt rfl) (by simp)⟩
  · exact Or.inl ⟨by simp [oneByte], 3, .of_table (fresh_tcpopt rfl) (by simp)⟩
  · exact Or.inl ⟨by simp [oneByte], 2, .of_table (fresh_tcpopt rfl) (by simp)⟩
  · exact Or.inl ⟨by simp [oneByte], 34, .of_table (fresh_tcpopt rfl) (by simp)⟩
  · exact Or.inl ⟨by simp [oneByte], 6, .of_table (fresh_tcpopt rfl) (by simp)⟩
  · exact Or.inl ⟨by simp [oneByte], 6, .of_table (fresh_tcpopt rfl) (by simp)⟩
  · exact Or.inl ⟨by simp [oneByte], 6, .of_table (fresh_tcpopt rfl) (by simp)⟩
  · exact Or.inl ⟨by simp [oneByte], 10, .of_table (fresh_tcpopt rfl) (by simp)⟩
  · exact Or.inl ⟨by simp [oneByte], 10, .of_table (fresh_tcpopt rfl) (by simp)⟩
  · exact Or.inl ⟨by simp [oneByte], 8, .of_table (hhdr _ _ _) (by simp)⟩
  · exact Or.inl ⟨by simp [oneByte], 40, .of_table (hhdr' _ _ _ _ _) (by simp)⟩
  · exact Or.inl ⟨by simp [oneByte], 8, .of_table (hhdr _ _ _) (by simp)⟩
  · exact Or.inl ⟨by simp [oneByte], 12, .of_table (hhdr' _ _ _ _ _) (by simp)⟩
  · exact Or.inl ⟨by simp [oneByte], 14, .of_table (fun _ => fresh_generic _ _ _ _) (by simp)⟩
  · exact Or.inl ⟨by simp [oneByte], 0, .of_table (fun _ => fresh_generic _ _ _ _)
      (by simp [ends_arsReadFile, ends_arsDecodeHex])⟩

/-! ### Lists of settings -/

section Lists

variable {libc : Libc} {k : ArsDKeywordInfo} {l : ArsLayer}

theorem Covers.stays_setAll {n : ℕ} (h : Covers n k) (hl : Room n l) (fs : List ApdField) :
    Stays n (setAll libc k fs l) :=
  Ends.foldlM (fun l f _ => h.stays libc l f.name f.value) hl

/-- **The settings stay inside the layer**: after some of them the layer is still its whole block,
and the next one writes in the block. -/
def StaysInside (libc : Libc) (k : ArsDKeywordInfo) (l : ArsLayer) (fs : List ApdField) : Prop :=
  ∀ gs, gs <+: fs → Ends (fun l' => l'.lSize = l'.lData.length) (· ≠ .oob) (setAll libc k gs l)

/-- A layer of one byte takes no setting, and does not have the byte of the field `optlen`. -/
theorem arsDSet_oneByte (layer : String) (hl : l.lData.length = 1) (f v : List UInt8) :
    arsDSet layer [(["optlen"], setOptlen)] libc l f v =
      if strcaseEq f (lit "optlen") then .error .oob
      else arsFailText .invalid (lit "Invalid field for " ++ lit layer ++ lit " layer: '" ++ f ++
        lit "'") := by
  rw [arsDSet]
  by_cases hf : strcaseEq f (lit "optlen")
  · have hout : ¬1 + [UInt8.ofNat (arsAtou v)].length ≤ l.lData.length := by
      rw [hl, List.length_singleton]
      omega
    simp only [List.find?_cons, List.any_cons, List.any_nil, hf, Bool.or_false, if_true]
    exact if_neg hout
  · simp [hf]

/-- What the keyword adds has that size. -/
theorem AddsLayer.newSize {new : ArsLayer} (hadd : AddsLayer k.kiAdd new) {n : ℕ}
    (hfresh : ∀ pkt, Ends (Fresh n) (fun _ => True) (k.kiAdd pkt)) :
    newSize k = n ∧ new.lData.length = n ∧ new.lSize = n := by
  have hroom : arsInit.pLayer.length < arsMaxLayer := by decide
  have hinit : k.kiAdd arsInit = .ok (arsInit.push new hroom) := by
    rw [hadd arsInit fun _ => rfl, dif_pos hroom]
  obtain ⟨hlen, hn⟩ := (hfresh arsInit).value hinit new rfl
  refine ⟨?_, hlen, hn⟩
  rw [StyxWire.newSize, hinit]
  exact hn

/-- **The settings leave the layer with the bytes it began with.** -/
theorem room_of_setFields (hk : k ∈ arsDkinfo) {new l : ArsLayer} (hadd : AddsLayer k.kiAdd new)
    {fs : List DField} (h : setFields libc k fs new = .ok l) : Room (newSize k) l := by
  obtain ⟨-, n, hcov⟩ | ⟨-, hfresh, layer, hset⟩ := covers_or_oneByte hk
  · obtain ⟨hsize, hlen, hn⟩ := hadd.newSize hcov.fresh
    rw [hsize]
    have hnew : Room n new := ⟨hn.trans hlen.symm, hn.ge⟩
    have hstays : Stays n (setFields libc k fs new) :=
      Ends.foldlM (fun l f _ => hcov.stays libc l (lit f.name) f.value) hnew
    exact hstays.value h
  · -- a layer of one byte takes no setting
    obtain ⟨hsize, hlen, hn⟩ := hadd.newSize hfresh
    cases fs with
    | nil =>
      obtain rfl := Except.ok.inj h
      exact ⟨hn.trans hlen.symm, (hsize.trans hn.symm).le⟩
    | cons f fs =>
      rw [setFields_cons, hset, arsDSet_oneByte layer hlen] at h
      split_ifs at h
      · cases h
      · cases h

/-- **Setters stay inside their layers except for the length of an option that has none**: the
options that are one byte are the exception, and the field `optlen` in front is what it takes. -/
theorem staysInside_iff (hk : k ∈ arsDkinfo) {pkt pkt' : ArsPacket} (hadd : k.kiAdd pkt = .ok pkt')
    (hl : pkt'.pLayer.getLast? = some l) (fs : List ApdField) :
    StaysInside libc k l fs ↔ ¬(k.kiKeyword ∈ oneByte ∧
      ∃ f ∈ fs.head?, strcaseEq f.name (lit "optlen")) := by
  obtain ⟨hlong, n, hcov⟩ | ⟨hshort, hfresh, layer, hset⟩ := covers_or_oneByte hk
  · obtain ⟨hlen, hsize⟩ := (hcov.fresh pkt).value hadd l hl
    refine iff_of_true (fun gs _ => ?_) fun h => hlong h.1
    have hroom : Room n l := ⟨hsize.trans hlen.symm, hsize.ge⟩
    exact (hcov.stays_setAll hroom gs).mono fun _ h => h.1
  · obtain ⟨hlen, hsize⟩ := (hfresh pkt).value hadd l hl
    have hall : ∀ (f : ApdField) (gs : List ApdField), setAll libc k (f :: gs) l =
        if strcaseEq f.name (lit "optlen") then .error .oob
        else arsFailText .invalid (lit "Invalid field for " ++ lit layer ++ lit " layer: '" ++
          f.name ++ lit "'") := by
      intro f gs
      rw [setAll, List.foldlM_cons, hset, arsDSet_oneByte layer hlen]
      split_ifs
      · rfl
      · rfl
    constructor
    · rintro hstays ⟨-, f, hf, hname⟩
      obtain ⟨gs, rfl⟩ := List.head?_eq_some_iff.mp hf
      exact (hstays _ (List.prefix_refl _)).error (by rw [hall, if_pos hname]) rfl
    · intro hno gs hgs
      cases gs with
      | nil => exact hsize.trans hlen.symm
      | cons f gs =>
        obtain ⟨hs, rfl⟩ := hgs
        have hname : ¬strcaseEq f.name (lit "optlen") := fun h => hno ⟨hshort, f, rfl, h⟩
        rw [hall, if_neg hname]
        exact ends_arsFailText _ _

end Lists

/-- A route of two addresses, behind a length that is wrong. -/
theorem staysInside_iff_route :
    ∃ k ∈ arsDkinfo, ∃ pkt' l, k.kiKeyword = "ip.rr" ∧ k.kiAdd arsInit = .ok pkt' ∧
      pkt'.pLayer.getLast? = some l ∧ StaysInside numericLibc k l
        [⟨lit "optlen", lit "200"⟩, ⟨lit "data", lit "10.0.0.1/10.0.0.2"⟩] := by
  have hk : ArsDKeywordInfo.mk "ip.rr" (arsAddIpopt · arsIpoptRr) arsDSetIpoptRr ∈ arsDkinfo := by
    simp [arsDkinfo]
  obtain ⟨pkt', l, hadd, hl⟩ : ∃ pkt' l, arsAddIpopt arsInit arsIpoptRr = .ok pkt' ∧
      pkt'.pLayer.getLast? = some l := ⟨_, _, rfl, rfl⟩
  have hstays := (@staysInside_iff numericLibc _ _ hk _ _ hadd hl
    [⟨lit "optlen", lit "200"⟩, ⟨lit "data", lit "10.0.0.1/10.0.0.2"⟩]).mpr
      fun h => absurd h.1 (by simp [oneByte])
  exact ⟨_, hk, pkt', l, rfl, hadd, hl, hstays⟩

/-- The length of a `NOP` is stored behind it. -/
theorem optlen_nop_oob :
    (∃ k ∈ arsDkinfo, ∃ pkt' l, k.kiKeyword = "ip.nop" ∧ k.kiAdd arsInit = .ok pkt' ∧
      pkt'.pLayer.getLast? = some l ∧ l.lSize = 1 ∧
        k.kiSet numericLibc l (lit "optlen") (lit "1") = .error .oob) ∧
      arsDBuild numericLibc arsInit (lit "ip+ip.nop(optlen=1)") = .error .oob :=
  ⟨⟨⟨"ip.nop", (arsAddIpopt · arsIpoptNoop), arsDSetIpoptDumb⟩, by simp [arsDkinfo], _, _, rfl, rfl,
    rfl, rfl, rfl⟩, rfl⟩

end StyxWire
