import StyxWire.Ars.FieldAccess
import StyxWire.Ars.RoundTrip

/-!
# The syntax of a printed description

Whatever a packet contains, its description (`rapd.c`) is a description: it splits at the plus
signs into one piece for each layer, a piece is a name with fields in parentheses, and these split
at the commas and at the equals signs (`StyxWire.arsRapdLayers_syntax`). The printers write their
commas and plus signs by hand, and trim the last one; `StyxWire.Opened` follows the text of a layer
while it is written, from its parenthesis to the closing one.
-/

namespace StyxWire

open Mem Text

/-! ### Printed layers -/

/-- A layer as it is printed. -/
structure PrintedLayer where
  name : Word
  fields : List FieldText

/-- The layer of the description language that it is: with parentheses, without a last comma and
without a length. -/
def PrintedLayer.layer (p : PrintedLayer) : LayerText :=
  ⟨p.name, some ⟨p.fields, false, ⟨[], fun _ h => absurd h List.not_mem_nil⟩⟩⟩

/-- `name(name=value,...,name=value)`. -/
def PrintedLayer.text (p : PrintedLayer) : List UInt8 :=
  p.name.bytes ++ ch '(' :: ([ch ','].intercalate (p.fields.map FieldText.text) ++ [ch ')'])

/-- What splitting a text at the marks of the syntax yields. -/
structure Splits (text : List UInt8) (ps : List PrintedLayer) : Prop where
  layers : ps ≠ [] → text.splitOn (ch '+') = ps.map PrintedLayer.text
  fields : ∀ p ∈ ps, p.fields ≠ [] →
    ([ch ','].intercalate (p.fields.map FieldText.text)).splitOn (ch ',') =
      p.fields.map FieldText.text
  values : ∀ p ∈ ps, ∀ f ∈ p.fields, f.text.splitOn (ch '=') = [f.name.bytes, f.value.bytes]

theorem fieldsText_eq_intercalate (fs : List FieldText) :
    fieldsText fs false = [ch ','].intercalate (fs.map FieldText.text) := by
  have hmore : ∀ (f : FieldText) (fs : List FieldText),
      f.text ++ moreFields fs false = [ch ','].intercalate ((f :: fs).map FieldText.text) := by
    intro f fs
    induction fs generalizing f with
    | nil => simp [moreFields]
    | cons g fs ih =>
      rw [List.map_cons, List.map_cons, List.intercalate_cons_cons, ← List.map_cons, ← ih g]
      simp [moreFields]
  cases fs with
  | nil => rfl
  | cons f fs => exact hmore f fs

theorem PrintedLayer.text_layer (p : PrintedLayer) : p.layer.text = p.text := by
  rw [LayerText.text, layer, Option.elim_some, fieldsText_eq_intercalate, text]

/-- **The text of printed layers**, joined by plus signs, is that of a description. -/
theorem packetText_eq_intercalate (ps : List PrintedLayer) :
    packetText (ps.map PrintedLayer.layer) = [ch '+'].intercalate (ps.map PrintedLayer.text) := by
  have hmore : ∀ (p : PrintedLayer) (ps : List PrintedLayer),
      p.text ++ moreLayers (ps.map PrintedLayer.layer) =
        [ch '+'].intercalate ((p :: ps).map PrintedLayer.text) := by
    intro p ps
    induction ps generalizing p with
    | nil => simp [moreLayers]
    | cons q ps ih =>
      rw [List.map_cons, moreLayers_cons, List.map_cons, List.map_cons,
        List.intercalate_cons_cons, ← List.map_cons, ← ih q, q.text_layer]
      simp
  cases ps with
  | nil => rfl
  | cons p ps =>
    rw [List.map_cons, packetText, p.text_layer]
    exact hmore p ps

/-- **The marks are only where the syntax has them.** -/
theorem splits_intercalate (ps : List PrintedLayer) :
    Splits ([ch '+'].intercalate (ps.map PrintedLayer.text)) ps where
  layers hne := by
    refine List.splitOn_intercalate _ (fun t ht => ?_) (by simpa using hne)
    obtain ⟨p, -, rfl⟩ := List.mem_map.mp ht
    rw [← p.text_layer]
    exact p.layer.plus_notMem
  fields p _ hne := by
    refine List.splitOn_intercalate _ (fun t ht => ?_) (by simpa using hne)
    obtain ⟨f, -, rfl⟩ := List.mem_map.mp ht
    exact f.notMem (by decide) (by decide)
  values p _ f _ := by
    have hjoin : f.text = [ch '='].intercalate [f.name.bytes, f.value.bytes] := by
      rw [List.intercalate_cons_cons, List.intercalate_singleton, FieldText.text]
      simp
    rw [hjoin]
    refine List.splitOn_intercalate _ (fun t ht => ?_) (by simp)
    rcases List.mem_cons.mp ht with rfl | ht
    · exact f.name.notMem (by decide)
    · obtain rfl := List.mem_singleton.mp ht
      exact f.value.notMem (by decide)

/-! ### Values -/

/-- No character of the syntax. -/
def Free (w : List UInt8) : Prop := ∀ c ∈ w, isDelim c = false

theorem free_of_any {w : List UInt8} (h : w.any isDelim = false) : Free w := fun c hc =>
  Bool.eq_false_iff.mpr (List.any_eq_false.mp h c hc)

theorem Free.append {v w : List UInt8} (hv : Free v) (hw : Free w) : Free (v ++ w) := by
  intro c hc
  rcases List.mem_append.mp hc with hc | hc
  · exact hv c hc
  · exact hw c hc

theorem Free.flatten {ws : List (List UInt8)} (h : ∀ w ∈ ws, Free w) : Free ws.flatten := by
  intro c hc
  obtain ⟨w, hw, hc⟩ := List.mem_flatten.mp hc
  exact h w hw c hc

theorem free_fmtU (n : ℕ) : Free (fmtU n) := by
  intro c hc
  have := digitVal_of_mem_fmt (show 1 < 10 by decide) (by decide) n c hc
  exact isDelim_of_digitVal (by omega)

theorem free_fmtHex (w n : ℕ) : Free (fmtHex w n) := fun _ hc => isDelim_of_digitVal (mem_fmtHex hc)

theorem free_hexBytes (bs : List UInt8) : Free (hexBytes bs) := fun _ hc =>
  isDelim_of_digitVal ((mem_hexBytes hc).trans (by decide))

theorem free_dottedQuad (x : List UInt8) : Free (dottedQuad x) := (isWord_dottedQuad x).delim

/-- The slashes are no characters of the syntax. -/
theorem free_slashed {pieces : List (List UInt8)} (h : ∀ w ∈ pieces, Free w) :
    Free (slashed pieces) := by
  have hflat : Free (pieces.map (· ++ lit "/")).flatten := by
    refine Free.flatten fun w hw => ?_
    obtain ⟨v, hv, rfl⟩ := List.mem_map.mp hw
    exact (h v hv).append (free_of_any rfl)
  exact fun c hc => hflat c ((List.dropLast_subset _) hc)

theorem free_slashed_map {α : Type} {f : α → List UInt8} (h : ∀ a, Free (f a)) (as : List α) :
    Free (slashed (as.map f)) := by
  refine free_slashed fun w hw => ?_
  obtain ⟨a, -, rfl⟩ := List.mem_map.mp hw
  exact h a

theorem free_fmtFrag (bit : ℕ) (h : List UInt8) : Free (fmtFrag bit h) := free_fmtU _

theorem free_fmtIp6 {libc : Libc} (hlibc : libc.Inverts) {a : List UInt8} (ha : a.length = 16) :
    Free (fmtIp6 libc a) :=
  (isWord_fmtIp6 hlibc ha).delim

theorem free_fmtTcpFlags (n : ℕ) : Free (fmtTcpFlags n) := by
  have hall : (arsTcpFlags.map fun f => ch f.2).any isDelim = false := by decide
  intro c hc
  obtain ⟨f, hf, rfl⟩ := List.mem_map.mp hc
  exact free_of_any hall _ (List.mem_map.mpr ⟨f, (List.mem_filter.mp hf).1, rfl⟩)

theorem free_fmtTsFlags (n : ℕ) : Free (fmtTsFlags n) := by
  rw [fmtTsFlags]
  split_ifs
  · exact free_of_any rfl
  · exact free_of_any rfl
  · exact free_of_any rfl
  · exact free_fmtU n

theorem free_fmtTsEntry (withAddr : Bool) (x : List UInt8) : Free (fmtTsEntry withAddr x) := by
  rw [fmtTsEntry]
  split_ifs
  · exact ((free_fmtU _).append (free_of_any rfl)).append (free_dottedQuad x)
  · exact free_fmtU _

/-- **The characters of the syntax are escaped in data.** -/
theorem free_escapeBytes (bs : List UInt8) : Free (escapeBytes bs) := by
  refine Free.flatten fun w hw => ?_
  obtain ⟨b, -, rfl⟩ := List.mem_map.mp hw
  rw [escapeByte]
  split_ifs with hplain
  · obtain ⟨-, h⟩ := hplain
    intro c hc
    obtain rfl := List.mem_singleton.mp hc
    simp only [isDelim, decide_eq_false_iff_not]
    tauto
  · refine (free_of_any (by decide)).append fun c hc => ?_
    rcases mem_padZero hc with rfl | hc
    · decide
    · have := digitVal_of_mem_fmt (show 1 < 16 by decide) (Nat.le_refl _) _ c hc
      exact isDelim_of_digitVal (by omega)

/-! ### A layer while it is written -/

/-- A field and the comma after it. -/
def FieldText.comma (f : FieldText) : List UInt8 := f.text ++ [ch ',']

/-- A name, the parenthesis, and fields with a comma after each. -/
def openText (name : Word) (fs : List FieldText) : List UInt8 :=
  name.bytes ++ ch '(' :: fs.flatMap FieldText.comma

/-- The text of a layer so far is a name, the parenthesis, and fields with a comma after each. -/
def Opened (s : List UInt8) : Prop := ∃ name fs, s = openText name fs

/-- There is a field already. -/
def Listed (s : List UInt8) : Prop := ∃ name fs f, s = openText name (fs ++ [f])

/-- No comma follows the last field. -/
def Written (s : List UInt8) : Prop := ∃ name fs f, s = openText name fs ++ FieldText.text f

/-- The text is that of a printed layer, with the plus sign after it. -/
def Closed (s : List UInt8) : Prop := ∃ p : PrintedLayer, s = p.text ++ [ch '+']

/-- Fields with a comma after each, and the last one without. -/
theorem flatMap_comma (fs : List FieldText) (f : FieldText) :
    fs.flatMap FieldText.comma ++ f.text = [ch ','].intercalate ((fs ++ [f]).map FieldText.text) := by
  induction fs with
  | nil => simp
  | cons g fs ih =>
    obtain ⟨t, ts, hts⟩ := List.exists_cons_of_ne_nil
      (show (fs ++ [f]).map FieldText.text ≠ [] by simp)
    rw [List.flatMap_cons, List.cons_append, List.map_cons, hts, List.intercalate_cons_cons, ← hts,
      ← ih]
    simp [FieldText.comma]

theorem openText_concat (name : Word) (fs : List FieldText) (f : FieldText) :
    openText name (fs ++ [f]) = openText name fs ++ f.text ++ [ch ','] := by
  simp [openText, FieldText.comma]

variable {s v w : List UInt8}

theorem opened (hw : Free w) (hs : s = w ++ [ch '(']) : Opened s := ⟨⟨w, hw⟩, [], hs⟩

theorem Listed.opened (h : Listed s) : Opened s := by
  obtain ⟨name, fs, f, rfl⟩ := h
  exact ⟨name, fs ++ [f], rfl⟩

theorem Opened.written (h : Opened s) (hw : Free w) (hv : Free v) {s' : List UInt8}
    (hs' : s' = w ++ [ch '=']) : Written (s ++ s' ++ v) := by
  obtain ⟨name, fs, rfl⟩ := h
  exact ⟨name, fs, ⟨⟨w, hw⟩, ⟨v, hv⟩⟩, by simp [hs', FieldText.text]⟩

theorem Written.comma (h : Written s) : Listed (s ++ [ch ',']) := by
  obtain ⟨name, fs, f, rfl⟩ := h
  exact ⟨name, fs, f, (openText_concat name fs f).symm⟩

theorem Opened.listed (h : Opened s) {name : String} (hw : Free (lit name)) (hv : Free v) :
    Listed (s ++ field name v) := by
  have hfield : s ++ field name v = s ++ (lit name ++ [ch '=']) ++ v ++ [ch ','] := by
    rw [field, show lit "=" = [ch '='] from rfl, show lit "," = [ch ','] from rfl]
    simp only [List.append_assoc]
  rw [hfield]
  exact (h.written hw hv rfl).comma

theorem Opened.field (h : Opened s) {name : String} (hw : Free (lit name)) (hv : Free v) :
    Opened (s ++ StyxWire.field name v) :=
  (h.listed hw hv).opened

/-- A field that is written under a condition. -/
theorem Opened.fieldIf (h : Opened s) {name : String} (hw : Free (lit name)) (hv : Free v)
    (c : Bool) : Opened (s ++ StyxWire.fieldIf c name v) := by
  cases c with
  | true => exact h.field hw hv
  | false => simpa [StyxWire.fieldIf] using h

@[inherit_doc Opened.fieldIf]
theorem Listed.fieldIf (h : Listed s) {name : String} (hw : Free (lit name)) (hv : Free v)
    (c : Bool) : Listed (s ++ StyxWire.fieldIf c name v) := by
  cases c with
  | true => exact h.opened.listed hw hv
  | false => simpa [StyxWire.fieldIf] using h

/-- One more field, with the comma in front of it. -/
theorem Written.next (h : Written s) (hw : Free w) (hv : Free v) {s' : List UInt8}
    (hs' : s' = ch ',' :: (w ++ [ch '='])) : Written (s ++ s' ++ v) := by
  have hcomma : s ++ s' = s ++ [ch ','] ++ (w ++ [ch '=']) := by simp [hs']
  rw [hcomma]
  exact h.comma.opened.written hw hv rfl

/-- **The last field is written without its comma**, and the layer is closed. -/
theorem Written.close (h : Written s) : Closed (s ++ lit ")+") := by
  obtain ⟨name, fs, f, rfl⟩ := h
  refine ⟨⟨name, fs ++ [f]⟩, ?_⟩
  have hend : lit ")+" = [ch ')', ch '+'] := rfl
  rw [PrintedLayer.text, ← flatMap_comma, hend]
  simp [openText]

/-- **The last comma is trimmed**, and the layer is closed. -/
theorem Listed.trim (h : Listed s) : Closed (adbufRtrim s ++ lit ")+") := by
  obtain ⟨name, fs, f, rfl⟩ := h
  rw [openText_concat, adbufRtrim, List.dropLast_concat]
  exact Written.close ⟨name, fs, f, rfl⟩

/-- A layer without fields. -/
theorem closed_empty (hw : Free w) (hs : s = w ++ [ch '(', ch ')', ch '+']) : Closed s :=
  ⟨⟨⟨w, hw⟩, []⟩, by simp [hs, PrintedLayer.text]⟩

/-- The first field, written with the name of the layer. -/
theorem written_first {name : List UInt8} (hname : Free name) (hw : Free w) (hv : Free v)
    (hs : s = name ++ [ch '('] ++ (w ++ [ch '='])) : Written (s ++ v) := by
  rw [hs]
  exact (opened hname rfl).written hw hv rfl

/-! ### The printers -/

variable {libc : Libc} {pkt : ArsPacket} {l : ArsLayer} {text : List UInt8}

/-- What is read before the text. -/
theorem exists_of_bind_ok {α β : Type} {m : Except ArsErr α} {f : α → Except ArsErr β} {b : β}
    (h : (m >>= f) = .ok b) : ∃ a, m = .ok a ∧ f a = .ok b := by
  cases m with
  | error e => cases h
  | ok a => exact ⟨a, rfl, h⟩

theorem closed_rapdIp (h : arsRapdIp pkt l = .ok text) : Closed text := by
  rw [arsRapdIp, rdHdr_eq, bind_ok] at h
  obtain ⟨defip, -, h⟩ := exists_of_bind_ok h
  obtain rfl := Except.ok.inj h
  refine (Opened.written ?_ (free_of_any rfl : Free (lit "daddr")) (free_dottedQuad _) rfl).close
  refine .field ?_ (free_of_any rfl) (free_dottedQuad _)
  refine .field ?_ (free_of_any rfl) (free_fmtHex _ _)
  refine .field ?_ (free_of_any rfl) (free_fmtU _)
  refine .fieldIf ?_ (free_of_any rfl) (free_fmtU _) _
  refine .fieldIf ?_ (free_of_any rfl) (free_fmtFrag _ _) _
  refine .fieldIf ?_ (free_of_any rfl) (free_fmtFrag _ _) _
  refine .fieldIf ?_ (free_of_any rfl) (free_fmtFrag _ _) _
  refine .field ?_ (free_of_any rfl) (free_fmtU _)
  refine .fieldIf ?_ (free_of_any rfl) (free_fmtU _) _
  refine .field ?_ (free_of_any rfl) (free_fmtU _)
  refine .fieldIf ?_ (free_of_any rfl) (free_fmtHex _ _) _
  refine .fieldIf ?_ (free_of_any rfl) (free_fmtHex _ _) _
  refine .fieldIf ?_ (free_of_any rfl) (free_fmtHex _ _) _
  exact opened (free_of_any rfl : Free (lit "ip")) rfl

theorem closed_rapdIp6 (hlibc : libc.Inverts) (h : arsRapdIp6 libc pkt l = .ok text) :
    Closed text := by
  rw [arsRapdIp6, rdStruct_eq, bind_ok] at h
  obtain rfl := Except.ok.inj h
  have hlen := length_rdStruct l 40
  generalize l.bytes.take 40 ++ List.replicate (40 - l.lSize) 0 = ip6 at hlen
  have haddr : ∀ i, i + 16 ≤ 40 → ((ip6.drop i).take 16).length = 16 := by
    intro i hi
    rw [List.length_take, List.length_drop]
    omega
  refine (Opened.written ?_ (free_of_any rfl : Free (lit "daddr"))
    (free_fmtIp6 hlibc (haddr 24 (by omega))) rfl).close
  refine .field ?_ (free_of_any rfl) (free_fmtIp6 hlibc (haddr 8 (by omega)))
  refine .field ?_ (free_of_any rfl) (free_fmtU _)
  refine .field ?_ (free_of_any rfl) (free_fmtU _)
  refine .field ?_ (free_of_any rfl) (free_fmtU _)
  refine .field ?_ (free_of_any rfl) (free_fmtU _)
  refine .field ?_ (free_of_any rfl) (free_fmtHex _ _)
  refine .field ?_ (free_of_any rfl) (free_fmtU _)
  exact opened (free_of_any rfl : Free (lit "ip6")) rfl

theorem closed_rapdIcmp6 (h : arsRapdIcmp6 pkt l = .ok text) : Closed text := by
  rw [arsRapdIcmp6, rdHdr_eq, bind_ok] at h
  obtain rfl := Except.ok.inj h
  -- the fields in front of the second word
  have hopened : ∀ a b c, Opened (lit "icmp6(" ++ field "type" (fmtU a) ++ field "code" (fmtU b) ++
      field "cksum" (fmtHex 4 c)) := by
    intro a b c
    refine .field ?_ (free_of_any rfl) (free_fmtHex _ _)
    refine .field ?_ (free_of_any rfl) (free_fmtU _)
    refine .field ?_ (free_of_any rfl) (free_fmtU _)
    exact opened (free_of_any rfl : Free (lit "icmp6")) rfl
  refine Listed.trim ?_
  split_ifs
  · rw [← List.append_assoc]
    refine Opened.listed ?_ (free_of_any rfl) (free_fmtU _)
    exact (hopened _ _ _).field (free_of_any rfl) (free_fmtU _)
  · exact (hopened _ _ _).listed (free_of_any rfl) (free_fmtU _)

theorem closed_rapdIcmp (h : arsRapdIcmp pkt l = .ok text) : Closed text := by
  rw [arsRapdIcmp, rdHdr_eq, bind_ok] at h
  obtain rfl := Except.ok.inj h
  refine Listed.trim ?_
  refine .fieldIf ?_ (free_of_any rfl) (free_dottedQuad _) _
  refine .fieldIf ?_ (free_of_any rfl) (free_fmtU _) _
  refine .fieldIf ?_ (free_of_any rfl) (free_fmtU _) _
  refine .fieldIf ?_ (free_of_any rfl) (free_fmtU _) _
  -- the type and the code are always there
  refine Opened.listed ?_ (free_of_any rfl) (free_fmtU _)
  refine .field ?_ (free_of_any rfl) (free_fmtU _)
  exact opened (free_of_any rfl : Free (lit "icmp")) rfl

theorem closed_rapdUdp (h : arsRapdUdp pkt l = .ok text) : Closed text := by
  rw [arsRapdUdp, rdHdr_eq, bind_ok] at h
  obtain rfl := Except.ok.inj h
  refine (Opened.written ?_ (free_of_any rfl : Free (lit "cksum")) (free_fmtHex _ _) rfl).close
  refine .field ?_ (free_of_any rfl) (free_fmtU _)
  refine .field ?_ (free_of_any rfl) (free_fmtU _)
  refine .field ?_ (free_of_any rfl) (free_fmtU _)
  exact opened (free_of_any rfl : Free (lit "udp")) rfl

theorem closed_rapdTcp (h : arsRapdTcp pkt l = .ok text) : Closed text := by
  rw [arsRapdTcp, rdHdr_eq, bind_ok] at h
  obtain ⟨deftcp, -, h⟩ := exists_of_bind_ok h
  obtain rfl := Except.ok.inj h
  refine Listed.trim ?_
  refine .fieldIf ?_ (free_of_any rfl) (free_fmtU _) _
  -- the fields in front of the last one are always there
  refine Opened.listed ?_ (free_of_any rfl) (free_fmtHex _ _)
  refine .field ?_ (free_of_any rfl) (free_fmtU _)
  refine .field ?_ (free_of_any rfl) (free_fmtTcpFlags _)
  refine .fieldIf ?_ (free_of_any rfl) (free_fmtU _) _
  refine .fieldIf ?_ (free_of_any rfl) (free_fmtHex _ _) _
  refine .field ?_ (free_of_any rfl) (free_fmtU _)
  refine .field ?_ (free_of_any rfl) (free_fmtU _)
  refine .field ?_ (free_of_any rfl) (free_fmtU _)
  refine .field ?_ (free_of_any rfl) (free_fmtU _)
  exact opened (free_of_any rfl : Free (lit "tcp")) rfl

theorem closed_rapdIgrp (h : arsRapdIgrp pkt l = .ok text) : Closed text := by
  rw [arsRapdIgrp, rdHdr_eq, bind_ok] at h
  obtain rfl := Except.ok.inj h
  refine (Opened.written ?_ (free_of_any rfl : Free (lit "cksum")) (free_fmtHex _ _) rfl).close
  refine .field ?_ (free_of_any rfl) (free_fmtU _)
  refine .field ?_ (free_of_any rfl) (free_fmtU _)
  refine .field ?_ (free_of_any rfl) (free_fmtU _)
  refine .field ?_ (free_of_any rfl) (free_fmtU _)
  refine .field ?_ (free_of_any rfl) (free_fmtU _)
  refine .field ?_ (free_of_any rfl) ?_
  · refine .field ?_ (free_of_any rfl) (free_fmtU _)
    exact opened (free_of_any rfl : Free (lit "igrp")) rfl
  · split_ifs
    · exact free_of_any rfl
    · exact free_of_any rfl
    · exact free_fmtU _

theorem closed_rapdIgrpentry (h : arsRapdIgrpentry pkt l = .ok text) : Closed text := by
  rw [arsRapdIgrpentry, rdHdr_eq, bind_ok] at h
  obtain rfl := Except.ok.inj h
  refine (Opened.written ?_ (free_of_any rfl : Free (lit "hopcount")) (free_fmtU _) rfl).close
  refine .field ?_ (free_of_any rfl) (free_fmtU _)
  refine .field ?_ (free_of_any rfl) (free_fmtU _)
  refine .field ?_ (free_of_any rfl) (free_fmtU _)
  refine .field ?_ (free_of_any rfl) (free_fmtU _)
  refine .field ?_ (free_of_any rfl) (free_fmtU _)
  refine .field ?_ (free_of_any rfl) ?_
  · exact opened (free_of_any rfl : Free (lit "igrp.entry")) rfl
  · exact ((((free_fmtU _).append (free_of_any rfl)).append (free_fmtU _)).append
      (free_of_any rfl)).append (free_fmtU _)

/-! ### The options and the data -/

theorem closed_rapdUnknown {name : String} (hname : Free (lit name))
    (h : arsRapdUnknown name l = .ok text) : Closed text := by
  rw [arsRapdUnknown, rdBytes_eq (by simp), bind_ok] at h
  obtain rfl := Except.ok.inj h
  have hhex : lit "(hex=" = [ch '('] ++ (lit "hex" ++ [ch '=']) := rfl
  refine (written_first hname (free_of_any rfl : Free (lit "hex")) (free_hexBytes _) ?_).close
  rw [hhex, List.append_assoc]

theorem closed_rapdRoute {name : String} (hname : Free (lit name)) {ipopt : List UInt8}
    (h : arsRapdRoute name l ipopt = .ok text) : Closed text := by
  rw [arsRapdRoute] at h
  obtain ⟨entries, -, h⟩ := exists_of_bind_ok h
  obtain rfl := Except.ok.inj h
  have hptr : lit "(ptr=" = [ch '('] ++ (lit "ptr" ++ [ch '=']) := rfl
  refine Written.close ?_
  refine .next ?_ (free_of_any rfl : Free (lit "data")) (free_slashed_map free_dottedQuad _) rfl
  refine written_first ((free_of_any rfl : Free (lit "ip.")).append hname)
    (free_of_any rfl : Free (lit "ptr")) (free_fmtU _) ?_
  simp only [hptr, List.append_assoc]

theorem closed_rapdTs {ipopt : List UInt8} (h : arsRapdTs l ipopt = .ok text) : Closed text := by
  rw [arsRapdTs] at h
  obtain ⟨entries, -, h⟩ := exists_of_bind_ok h
  obtain rfl := Except.ok.inj h
  refine Written.close ?_
  refine .next ?_ (free_of_any rfl : Free (lit "data")) (free_slashed_map (free_fmtTsEntry _) _) rfl
  refine .next ?_ (free_of_any rfl : Free (lit "overflow")) (free_fmtU _) rfl
  refine .next ?_ (free_of_any rfl : Free (lit "flags")) (free_fmtTsFlags _) rfl
  exact written_first (free_of_any rfl : Free (lit "ip.ts")) (free_of_any rfl : Free (lit "ptr"))
    (free_fmtU _) rfl

theorem closed_rapdIpopt (h : arsRapdIpopt pkt l = .ok text) : Closed text := by
  rw [arsRapdIpopt, rdStruct_eq, bind_ok] at h
  dsimp only at h
  split_ifs at h
  · obtain rfl := Except.ok.inj h
    exact closed_empty (free_of_any rfl : Free (lit "ip.eol")) rfl
  · obtain rfl := Except.ok.inj h
    exact closed_empty (free_of_any rfl : Free (lit "ip.nop")) rfl
  · exact closed_rapdRoute (free_of_any rfl) h
  · exact closed_rapdRoute (free_of_any rfl) h
  · exact closed_rapdRoute (free_of_any rfl) h
  · exact closed_rapdTs h
  · exact closed_rapdUnknown (free_of_any rfl) h

theorem closed_rapdSack {tcpopt : List UInt8} (h : arsRapdSack l tcpopt = .ok text) :
    Closed text := by
  rw [arsRapdSack] at h
  obtain ⟨entries, -, h⟩ := exists_of_bind_ok h
  obtain rfl := Except.ok.inj h
  refine (written_first (free_of_any rfl : Free (lit "tcp.sack"))
    (free_of_any rfl : Free (lit "blocks")) (free_slashed_map (fun x => ?_) _) rfl).close
  exact ((free_fmtU _).append (free_of_any rfl)).append (free_fmtU _)

theorem closed_rapdTcpopt (h : arsRapdTcpopt pkt l = .ok text) : Closed text := by
  rw [arsRapdTcpopt, rdStruct_eq, bind_ok] at h
  dsimp only at h
  split_ifs at h
  · obtain rfl := Except.ok.inj h
    exact closed_empty (free_of_any rfl : Free (lit "tcp.eol")) rfl
  · obtain rfl := Except.ok.inj h
    exact closed_empty (free_of_any rfl : Free (lit "tcp.nop")) rfl
  · obtain rfl := Except.ok.inj h
    exact (written_first (free_of_any rfl : Free (lit "tcp.mss"))
      (free_of_any rfl : Free (lit "size")) (free_fmtU _) rfl).close
  · obtain rfl := Except.ok.inj h
    exact (written_first (free_of_any rfl : Free (lit "tcp.wscale"))
      (free_of_any rfl : Free (lit "shift")) (free_fmtU _) rfl).close
  · obtain rfl := Except.ok.inj h
    exact closed_empty (free_of_any rfl : Free (lit "tcp.sackperm")) rfl
  · exact closed_rapdSack h
  · obtain rfl := Except.ok.inj h
    exact (written_first (free_of_any rfl : Free (lit "tcp.echo"))
      (free_of_any rfl : Free (lit "info")) (free_fmtU _) rfl).close
  · obtain rfl := Except.ok.inj h
    exact (written_first (free_of_any rfl : Free (lit "tcp.echoreply"))
      (free_of_any rfl : Free (lit "info")) (free_fmtU _) rfl).close
  · obtain rfl := Except.ok.inj h
    refine (Written.next ?_ (free_of_any rfl : Free (lit "ecr")) (free_fmtU _) rfl).close
    exact written_first (free_of_any rfl : Free (lit "tcp.ts")) (free_of_any rfl : Free (lit "val"))
      (free_fmtU _) rfl
  · exact closed_rapdUnknown (free_of_any rfl) h

theorem closed_rapdData (h : arsRapdData pkt l = .ok text) : Closed text := by
  rw [arsRapdData, rdBytes_eq (by simp), bind_ok] at h
  split_ifs at h
  · obtain rfl := Except.ok.inj h
    exact (written_first (free_of_any rfl : Free (lit "data")) (free_of_any rfl : Free (lit "hex"))
      (free_hexBytes _) rfl).close
  · obtain rfl := Except.ok.inj h
    exact (written_first (free_of_any rfl : Free (lit "data")) (free_of_any rfl : Free (lit "str"))
      (free_escapeBytes _) rfl).close

/-- **Every printer writes a layer of the syntax.** -/
theorem closed_liRapd (hlibc : libc.Inverts) (t : ArsType)
    (h : arsLiRapd libc t pkt l = .ok text) : Closed text := by
  cases t with
  | ip => exact closed_rapdIp h
  | ipopt => exact @closed_rapdIpopt pkt l text h
  | icmp => exact @closed_rapdIcmp pkt l text h
  | udp => exact @closed_rapdUdp pkt l text h
  | tcp => exact closed_rapdTcp h
  | tcpopt => exact @closed_rapdTcpopt pkt l text h
  | igrp => exact @closed_rapdIgrp pkt l text h
  | igrpentry => exact @closed_rapdIgrpentry pkt l text h
  | ip6 => exact @closed_rapdIp6 libc pkt l text hlibc h
  | icmp6 => exact @closed_rapdIcmp6 pkt l text h
  | data => exact closed_rapdData h

/-! ### The description -/

/-- The layers are printed one after the other. -/
theorem exists_printed (hlibc : libc.Inverts) (hdef : pkt.NoDefault) (ls : List ArsLayer) :
    ∃ ps : List PrintedLayer, ps.length = ls.length ∧
      (ls.mapM fun l => arsLiRapd libc l.lType pkt l) =
        .ok (ps.map fun p => p.text ++ [ch '+']) := by
  induction ls with
  | nil => exact ⟨[], rfl, rfl⟩
  | cons l ls ih =>
    obtain ⟨ps, hlen, hps⟩ := ih
    obtain ⟨text, htext⟩ := arsLiRapd_ok libc hdef l
    obtain ⟨p, rfl⟩ := closed_liRapd hlibc l.lType htext
    refine ⟨p :: ps, congrArg (· + 1) hlen, ?_⟩
    rw [List.mapM_cons, htext, bind_ok, hps]
    rfl

/-- The plus sign after the last layer is trimmed. -/
theorem rtrim_printed (ps : List PrintedLayer) :
    adbufRtrim (ps.map fun p => p.text ++ [ch '+']).flatten =
      [ch '+'].intercalate (ps.map PrintedLayer.text) := by
  induction ps with
  | nil => rfl
  | cons p ps ih =>
    cases ps with
    | nil => simp [adbufRtrim]
    | cons q ps =>
      have hne : ((q :: ps).map fun p => p.text ++ [ch '+']).flatten ≠ [] := by simp
      rw [List.map_cons, List.flatten_cons, adbufRtrim, List.dropLast_append_of_ne_nil hne,
        ← adbufRtrim, ih]
      simp only [List.map_cons, List.intercalate_cons_cons]

/-- **The syntax of descriptions.** Whatever is in a buffer that is dissected, from any offset and
under any options: the description of the packet is a list of layers, joined by plus signs, with a
layer for each one of the packet; it splits at the plus signs into them, and they split at their
commas and equals signs. No name and no value has a character of the syntax, as none is a
`StyxWire.Word` otherwise. -/
theorem arsRapdLayers_syntax (libc : Libc) (hlibc : libc.Inverts) (packet : List UInt8) (ipoff : ℤ)
    (opt : ℕ) (pkt : ArsPacket)
    (h : arsSplitPacket packet ipoff (arsSetOption arsInit opt) = .ok pkt) :
    ∃ ps : List PrintedLayer, ps.length = pkt.pLayer.length ∧
      arsRapdLayers libc pkt = .ok ([ch '+'].intercalate (ps.map PrintedLayer.text)) ∧
      Splits ([ch '+'].intercalate (ps.map PrintedLayer.text)) ps := by
  have hdef : pkt.NoDefault := by
    rcases arsSplitPacket_cases packet ipoff (arsSetOption arsInit opt) with
      ⟨code, msg, herr⟩ | ⟨off, hoff, heq⟩
    · rw [herr] at h
      cases h
    · have hinv := splitLoop_inv (fresh_arsSetOption opt) hoff
      rw [heq, arsSplitPacket_eq hoff] at h
      cases he : (splitLoop packet off (arsSetOption arsInit opt)).error with
      | some e =>
        rw [he] at h
        cases h
      | none =>
        rw [he] at h
        exact Except.ok.inj h ▸ hinv.noDefault
  obtain ⟨ps, hlen, hps⟩ := exists_printed hlibc hdef pkt.pLayer
  refine ⟨ps, hlen, ?_, splits_intercalate ps⟩
  rw [arsRapdLayers, hps, bind_ok, rtrim_printed]
  rfl

set_option maxRecDepth 10000 in
/-- The description of a datagram with data is made of three layers. -/
theorem arsRapdLayers_syntax_udp :
    ∃ ps : List PrintedLayer, ps.length = 3 ∧
      arsRapdLayers numericLibc udpPacket =
        .ok ([ch '+'].intercalate (ps.map PrintedLayer.text)) ∧
      Splits ([ch '+'].intercalate (ps.map PrintedLayer.text)) ps :=
  arsRapdLayers_syntax numericLibc numericLibc_inverts udpDatagram 0 arsOptRapdHexdata udpPacket rfl

end StyxWire
