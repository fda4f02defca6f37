import StyxWire.Lib.Json

/-!
# JSON output

The writer of `output.c`: an event is opened, its fields are written one after the other, and it
is closed. All the events go to one stream, and whether a comma is due is a global of the writer.
The fields of `out_double` and `out_ipv4` are left out.

What an event writes is one line, and the line is a JSON object of the grammar that decodes to
the fields it was made of, in their order (`StyxWire.Hping.events_are_json_lines`).
-/

namespace StyxWire.Hping

open Text Json

/-! ### The writer -/

/-- A C string: the zero that ends it is not part of it. -/
structure CString where
  bytes : List UInt8
  nulFree : (0 : UInt8) ∉ bytes

/-- The characters of a string, told by their numbers. -/
def CString.chars (s : CString) : List ℕ := s.bytes.map UInt8.toNat

/-- The text of a literal. -/
def CString.lit (s : String) (h : (0 : UInt8) ∉ Text.lit s := by decide) : CString := ⟨Text.lit s, h⟩

/-- The stream, and `out_need_comma`. -/
structure Out where
  stream : List UInt8
  needComma : Bool

/-- `fputs`. -/
def Out.put (o : Out) (t : List UInt8) : Out := { o with stream := o.stream ++ t }

/-- What `put_escaped` writes for one byte. -/
def escape (c : UInt8) : List UInt8 :=
  if c = ch '"' then [ch '\\', ch '"']
  else if c = ch '\\' then [ch '\\', ch '\\']
  else if c = 0x08 then [ch '\\', ch 'b']
  else if c = 0x0C then [ch '\\', ch 'f']
  else if c = 0x0A then [ch '\\', ch 'n']
  else if c = 0x0D then [ch '\\', ch 'r']
  else if c = 0x09 then [ch '\\', ch 't']
  else if c < 0x20 then [ch '\\', ch 'u'] ++ padZero 4 (fmtX c.toNat)
  else [c]

/-- `put_escaped`. -/
def Out.putEscaped (o : Out) (s : CString) : Out := s.bytes.foldl (fun o c => o.put (escape c)) o

/-- `key`. -/
def Out.key (o : Out) (k : CString) : Out :=
  let o := if o.needComma then o.put [ch ','] else o
  { ((o.put [ch '"']).putEscaped k).put (lit "\":") with needComma := true }

/-- `out_str`. -/
def Out.str (o : Out) (k v : CString) : Out :=
  (((o.key k).put [ch '"']).putEscaped v).put [ch '"']

/-- `%lld`. -/
def fmtLld (v : ℤ) : List UInt8 := (if v < 0 then [ch '-'] else []) ++ fmtU v.natAbs

/-- `out_int`. -/
def Out.int (o : Out) (k : CString) (v : ℤ) : Out := (o.key k).put (fmtLld v)

/-- `out_uint`. -/
def Out.uint (o : Out) (k : CString) (v : ℕ) : Out := (o.key k).put (fmtU v)

/-- `out_bool`. -/
def Out.bool (o : Out) (k : CString) (v : ℤ) : Out :=
  (o.key k).put (if v ≠ 0 then lit "true" else lit "false")

/-- `out_null`. -/
def Out.null (o : Out) (k : CString) : Out := (o.key k).put (lit "null")

/-- `STYXWIRE_JSON_SCHEMA`. -/
def styxwireJsonSchema : ℤ := 1

/-- The milliseconds of `hping_wall_us()`, as they are cast to be written. -/
def wallMs (wallUs : ℤ) : ℕ := (wallUs.tdiv 1000 % 2 ^ 64).toNat

/-- `out_begin`. -/
def Out.begin (o : Out) (type : CString) (wallUs : ℤ) : Out :=
  ((({ o.put [ch '{'] with needComma := false }.int (.lit "schema") styxwireJsonSchema).str
    (.lit "type") type).uint (.lit "ts") (wallMs wallUs))

/-- `out_end`. -/
def Out.close (o : Out) : Out := { (o.put [ch '}']).put [ch '\n'] with needComma := false }

/-- A call that writes one field. -/
inductive Field
  | str (k v : CString)
  | int (k : CString) (v : ℤ)
  | uint (k : CString) (v : ℕ)
  | bool (k : CString) (v : ℤ)
  | null (k : CString)

/-- The call. -/
def Out.field (o : Out) : Field → Out
  | .str k v => o.str k v
  | .int k v => o.int k v
  | .uint k v => o.uint k v
  | .bool k v => o.bool k v
  | .null k => o.null k

/-- An event: its type, the time, and its fields. -/
structure JsonEvent where
  type : CString
  wallUs : ℤ
  fields : List Field

/-- **The calls of an event.** -/
def Out.event (o : Out) (e : JsonEvent) : Out :=
  (e.fields.foldl Out.field (o.begin e.type e.wallUs)).close

/-! ### What an event says -/

/-- A field, as a member of an object. -/
def Field.member : Field → List ℕ × Value
  | .str k v => (k.chars, .string v.chars)
  | .int k v => (k.chars, .number v 0)
  | .uint k v => (k.chars, .number v 0)
  | .bool k v => (k.chars, .bool (decide (v ≠ 0)))
  | .null k => (k.chars, .null)

/-- The fields of every event. -/
def JsonEvent.fixed (e : JsonEvent) : List Field :=
  [.int (.lit "schema") styxwireJsonSchema, .str (.lit "type") e.type,
    .uint (.lit "ts") (wallMs e.wallUs)]

/-- **What an event says**: the fixed members, and then its fields. -/
def JsonEvent.value (e : JsonEvent) : Value := .object ((e.fixed ++ e.fields).map Field.member)

/-! ### The text of a field -/

/-- A string between quotes. -/
def quoted (s : CString) : List UInt8 := ch '"' :: (s.bytes.flatMap escape ++ [ch '"'])

/-- The value of a field. -/
def Field.valueText : Field → List UInt8
  | .str _ v => quoted v
  | .int _ v => fmtLld v
  | .uint _ v => fmtU v
  | .bool _ v => if v ≠ 0 then lit "true" else lit "false"
  | .null _ => lit "null"

/-- The key of a field. -/
def Field.key : Field → CString
  | .str k _ | .int k _ | .uint k _ | .bool k _ | .null k => k

/-- A field without the comma in front of it. -/
def Field.text (f : Field) : List UInt8 := quoted f.key ++ ch ':' :: f.valueText

@[simp] theorem put_put (o : Out) (s t : List UInt8) : (o.put s).put t = o.put (s ++ t) := by
  rw [Out.put, Out.put, Out.put, List.append_assoc]

theorem putEscaped_eq (o : Out) (s : CString) : o.putEscaped s = o.put (s.bytes.flatMap escape) := by
  rw [Out.putEscaped]
  generalize s.bytes = bytes
  induction bytes generalizing o with
  | nil => rw [List.foldl_nil, List.flatMap_nil, Out.put, List.append_nil]
  | cons c bytes ih => rw [List.foldl_cons, ih, put_put, List.flatMap_cons]

/-- A field behind its comma. -/
def Out.putField (o : Out) (t : List UInt8) : Out where
  stream := o.stream ++ ((if o.needComma then [ch ','] else []) ++ t)
  needComma := true

theorem key_eq (o : Out) (k : CString) : o.key k = o.putField (quoted k ++ [ch ':']) := by
  have hcomma : (if o.needComma then o.put [ch ','] else o) =
      o.put (if o.needComma then [ch ','] else []) := by
    split_ifs
    · rfl
    · rw [Out.put, List.append_nil]
  have hcolon : lit "\":" = [ch '"', ch ':'] := by decide
  rw [Out.key, hcomma, putEscaped_eq, put_put, put_put, put_put, hcolon, quoted, Out.putField, Out.put]
  simp

/-- **A field, written**: a comma if one is due, and its text; and one is due from now on. -/
theorem field_eq (o : Out) (f : Field) : o.field f = o.putField f.text := by
  have hput : ∀ (k : CString) (t : List UInt8),
      (o.key k).put t = o.putField (quoted k ++ ch ':' :: t) := by
    intro k t
    rw [key_eq, Out.putField, Out.put, Out.putField]
    simp
  cases f with
  | str k v =>
    have hvalue : [ch '"'] ++ (v.bytes.flatMap escape ++ [ch '"']) = quoted v := rfl
    rw [Out.field, Out.str, putEscaped_eq, put_put, put_put, hput, hvalue]
    rfl
  | int k v => exact hput k _
  | uint k v => exact hput k _
  | bool k v => exact hput k _
  | null k => exact hput k _

/-- The fields behind the first one. -/
theorem foldl_field (o : Out) (h : o.needComma = true) (fs : List Field) :
    (fs.foldl Out.field o).stream = o.stream ++ (fs.map fun f => ch ',' :: f.text).flatten := by
  induction fs generalizing o with
  | nil => rw [List.foldl_nil, List.map_nil, List.flatten_nil, List.append_nil]
  | cons f fs ih =>
    rw [List.foldl_cons, field_eq, ih _ rfl, Out.putField, if_pos h, List.map_cons,
      List.flatten_cons, List.append_assoc]
    rfl

/-- The text of an event, without the end of its line. -/
def JsonEvent.line (e : JsonEvent) : List UInt8 :=
  ch '{' :: ((Field.int (.lit "schema") styxwireJsonSchema).text ++
    (((Field.str (.lit "type") e.type :: .uint (.lit "ts") (wallMs e.wallUs) :: e.fields).map
      fun f => ch ',' :: f.text).flatten ++ [ch '}']))

/-- **An event writes its line**, whatever was written before it. -/
theorem event_stream (o : Out) (e : JsonEvent) :
    (o.event e).stream = o.stream ++ (e.line ++ [ch '\n']) := by
  have hbegin : o.begin e.type e.wallUs =
      [Field.str (.lit "type") e.type, .uint (.lit "ts") (wallMs e.wallUs)].foldl Out.field
        (({ o.put [ch '{'] with needComma := false } : Out).field
          (.int (.lit "schema") styxwireJsonSchema)) := rfl
  have hclose : ∀ o : Out, o.close.stream = o.stream ++ [ch '}', ch '\n'] := by
    intro o
    rw [Out.close, put_put]
    rfl
  rw [Out.event, hbegin, ← List.foldl_append, hclose, field_eq, foldl_field _ rfl, JsonEvent.line,
    Out.putField]
  simp [Out.put]

/-! ### The text is read back -/

theorem isChar_escape (c : UInt8) : IsChar c.toNat (escape c) := by
  rw [escape]
  split_ifs with hquote hescape hb hf hn hr ht hprint
  · subst hquote
    exact .escape (by decide)
  · subst hescape
    exact .escape (by decide)
  · subst hb
    exact .escape (by decide)
  · subst hf
    exact .escape (by decide)
  · subst hn
    exact .escape (by decide)
  · subst hr
    exact .escape (by decide)
  · subst ht
    exact .escape (by decide)
  · -- four hexadecimal digits
    have hlt : c.toNat < 32 := UInt8.lt_iff_toNat_lt.mp hprint
    have hlen : (padZero 4 (fmtX c.toNat)).length = 4 := by
      have := length_fmt_le (b := 16) (by omega) (n := c.toNat) (k := 1) (by omega)
      rw [padZero, List.length_append, List.length_replicate, fmtX]
      omega
    have hhex : ∀ x ∈ padZero 4 (fmtX c.toNat), isHex x = true := by
      intro x hx
      rcases mem_padZero hx with rfl | hx
      · decide
      · exact decide_eq_true (digitVal_of_mem_fmt (by omega) (by omega) _ x hx)
    have hread : readNat 16 (padZero 4 (fmtX c.toNat)) 0 = c.toNat := by
      rw [readNat_padZero (by omega), fmtX, readNat_fmt (by omega) (by omega)]
    generalize padZero 4 (fmtX c.toNat) = t at hlen hhex hread
    obtain ⟨x, y, z, w, rfl⟩ : ∃ x y z w, t = [x, y, z, w] := List.length_eq_four.mp hlen
    exact hread ▸ .hex hhex
  · exact .unescaped hquote hescape (UInt8.not_lt.mp hprint)

/-- **A string between quotes is the string.** -/
theorem isString_quoted (s : CString) : IsString s.chars (quoted s) := by
  have hchars : ∀ bytes : List UInt8, IsChars (bytes.map UInt8.toNat) (bytes.flatMap escape) := by
    intro bytes
    induction bytes with
    | nil => exact .nil
    | cons c bytes ih =>
      rw [List.flatMap_cons]
      exact .cons (isChar_escape c) ih
  exact ⟨_, hchars s.bytes, rfl⟩

theorem isDigit_of_digitVal {c : UInt8} (h : digitVal c < 10) : isDigit c = true := by
  have hall : ∀ n < 256, digitVal (UInt8.ofNat n) < 10 → isDigit (UInt8.ofNat n) = true := by
    decide +kernel
  have hc := hall c.toNat c.toNat_lt
  rw [UInt8.ofNat_toNat] at hc
  exact hc h

theorem isInt_fmtU (n : ℕ) : IsInt (fmtU n) := by
  refine ⟨⟨fmt_ne_nil 10 n, fun c hc => isDigit_of_digitVal ?_⟩, fun hhead => ?_⟩
  · exact digitVal_of_mem_fmt (by omega) (by omega) n c hc
  · rcases Nat.eq_zero_or_pos n with rfl | hpos
    · rfl
    · exact absurd hhead (head?_fmtU hpos.ne')

/-- **A number is printed as it is.** -/
theorem prints_fmtLld (v : ℤ) : Prints (.number v 0) (fmtLld v) := by
  have hread : readNat 10 (fmtU v.natAbs) 0 = v.natAbs := readNat_fmt (by omega) (by omega) _
  rcases lt_or_ge v 0 with hneg | hpos
  · have hsign : IsSign true [ch '-'] := rfl
    have hint := Prints.int hsign (isInt_fmtU v.natAbs)
    have hv : (if true then -1 else 1) * (v.natAbs : ℤ) = v := by
      rw [if_pos rfl]
      omega
    rw [hread, hv] at hint
    rw [fmtLld, if_pos hneg]
    exact hint
  · have hsign : IsSign false [] := rfl
    have hint := Prints.int hsign (isInt_fmtU v.natAbs)
    have hv : (if false then -1 else 1) * (v.natAbs : ℤ) = v := by
      rw [if_neg Bool.false_ne_true]
      omega
    rw [hread, hv] at hint
    rw [fmtLld, if_neg (not_lt.mpr hpos)]
    exact hint

theorem printsMember (f : Field) : PrintsMember f.member f.text := by
  refine ⟨quoted f.key, f.valueText, rfl, ?_, ?_⟩
  · cases f with
    | str k _ => exact isString_quoted k
    | int k _ => exact isString_quoted k
    | uint k _ => exact isString_quoted k
    | bool k _ => exact isString_quoted k
    | null k => exact isString_quoted k
  · cases f with
    | str _ v => exact .string (isString_quoted v)
    | int _ v => exact prints_fmtLld v
    | uint _ v =>
      have hv : fmtLld v = fmtU v := by
        rw [fmtLld, if_neg (not_lt.mpr (Int.natCast_nonneg v)), Int.natAbs_natCast]
        rfl
      have hprints := prints_fmtLld v
      rw [hv] at hprints
      exact hprints
    | bool _ v =>
      rw [Field.member, Field.valueText]
      by_cases hv : v ≠ 0
      · rw [if_pos hv, decide_eq_true hv]
        exact .true
      · rw [if_neg hv, decide_eq_false hv]
        exact .false
    | null _ => exact .null

/-! ### Nothing that is not printable -/

/-- No byte is a control character. -/
def Printable (t : List UInt8) : Prop := ∀ c ∈ t, 0x20 ≤ c

theorem Printable.append {s t : List UInt8} (hs : Printable s) (ht : Printable t) :
    Printable (s ++ t) := by
  intro c hc
  rcases List.mem_append.mp hc with hc | hc
  · exact hs c hc
  · exact ht c hc

theorem Printable.cons {c : UInt8} {t : List UInt8} (hc : 0x20 ≤ c) (ht : Printable t) :
    Printable (c :: t) := by
  intro d hd
  rcases List.mem_cons.mp hd with rfl | hd
  · exact hc
  · exact ht d hd

theorem Printable.nil : Printable [] := fun _ hc => absurd hc List.not_mem_nil

theorem Printable.flatten {ts : List (List UInt8)} (h : ∀ t ∈ ts, Printable t) :
    Printable ts.flatten := by
  intro c hc
  obtain ⟨t, ht, hct⟩ := List.mem_flatten.mp hc
  exact h t ht c hct

theorem printable_of_digitVal {t : List UInt8} (h : ∀ c ∈ t, digitVal c < 16) : Printable t := by
  have hall : ∀ n < 256, digitVal (UInt8.ofNat n) < 16 → 0x20 ≤ UInt8.ofNat n := by
    decide +kernel
  intro c hc
  have hbyte := hall c.toNat c.toNat_lt
  rw [UInt8.ofNat_toNat] at hbyte
  exact hbyte (h c hc)

theorem printable_fmtU (n : ℕ) : Printable (fmtU n) := by
  refine printable_of_digitVal fun c hc => ?_
  have := digitVal_of_mem_fmt (b := 10) (by omega) (by omega) n c hc
  omega

theorem printable_escape (c : UInt8) : Printable (escape c) := by
  have htwo : ∀ x : UInt8, 0x20 ≤ x → Printable [ch '\\', x] := fun x hx =>
    .cons (by decide) (.cons hx .nil)
  rw [escape]
  split_ifs with _ _ _ _ _ _ _ hprint
  · exact htwo _ (by decide)
  · exact htwo _ (by decide)
  · exact htwo _ (by decide)
  · exact htwo _ (by decide)
  · exact htwo _ (by decide)
  · exact htwo _ (by decide)
  · exact htwo _ (by decide)
  · refine .append (htwo _ (by decide)) (printable_of_digitVal fun x hx => ?_)
    rcases mem_padZero hx with rfl | hx
    · decide
    · exact digitVal_of_mem_fmt (by omega) (by omega) _ x hx
  · exact .cons (UInt8.not_lt.mp hprint) .nil

theorem printable_quoted (s : CString) : Printable (quoted s) := by
  refine .cons (by decide) (.append ?_ (.cons (by decide) .nil))
  rw [List.flatMap_def]
  refine .flatten fun t ht => ?_
  obtain ⟨c, -, rfl⟩ := List.mem_map.mp ht
  exact printable_escape c

/-- The test of a literal. -/
theorem printable_of_all {t : List UInt8} (h : (t.all fun c => decide (0x20 ≤ c)) = true) :
    Printable t :=
  fun c hc => of_decide_eq_true (List.all_eq_true.mp h c hc)

theorem printable_text (f : Field) : Printable f.text := by
  refine .append (printable_quoted _) (.cons (by decide) ?_)
  cases f with
  | str _ v => exact printable_quoted v
  | int _ v =>
    refine .append ?_ (printable_fmtU _)
    split_ifs
    · exact .cons (by decide) .nil
    · exact .nil
  | uint _ v => exact printable_fmtU v
  | bool _ v =>
    rw [Field.valueText]
    split_ifs
    · exact printable_of_all (by decide)
    · exact printable_of_all (by decide)
  | null _ => exact printable_of_all (t := lit "null") (by decide)

/-! ### The lines of a stream -/

/-- A line that says what an event says. -/
structure IsLine (e : JsonEvent) (line : List UInt8) : Prop where
  printable : Printable line
  isText : IsText e.value line
  decode : decode line = some e.value

/-- **What an event writes is its line.** -/
theorem isLine (e : JsonEvent) : IsLine e e.line := by
  have hdecode : Json.decode e.line = some e.value := by
    have hrest : ∀ fs : List Field,
        List.Forall₂ PrintsMember (fs.map Field.member) (fs.map Field.text) := by
      intro fs
      induction fs with
      | nil => exact .nil
      | cons f fs ih => exact .cons (printsMember f) ih
    have hobject := decode_object (printsMember (.int (.lit "schema") styxwireJsonSchema))
      (hrest (.str (.lit "type") e.type :: .uint (.lit "ts") (wallMs e.wallUs) :: e.fields))
    rw [List.map_map] at hobject
    exact hobject
  refine ⟨.cons (by decide) (.append (printable_text _) (.append (.flatten ?_) ?_)),
    decode_sound hdecode, hdecode⟩
  · intro t ht
    obtain ⟨f, -, rfl⟩ := List.mem_map.mp ht
    exact .cons (by decide) (printable_text f)
  · exact .cons (by decide) .nil

/-- **The output is well-formed**, whatever the events: one line for each of them, in their order,
with no control character before its end, and the line is a JSON text whose value is the object of
the fixed members and of the fields of the event. -/
theorem events_are_json_lines (o : Out) (events : List JsonEvent) :
    ∃ lines, List.Forall₂ IsLine events lines ∧
      (events.foldl Out.event o).stream =
        o.stream ++ (lines.map fun line => line ++ [ch '\n']).flatten := by
  induction events generalizing o with
  | nil => exact ⟨[], .nil, by rw [List.foldl_nil, List.map_nil, List.flatten_nil, List.append_nil]⟩
  | cons e events ih =>
    obtain ⟨lines, hlines, hstream⟩ := ih (o.event e)
    refine ⟨e.line :: lines, .cons (isLine e) hlines, ?_⟩
    rw [List.foldl_cons, hstream, event_stream, List.map_cons, List.flatten_cons, List.append_assoc]

/-- A key with a quote, and a line feed in a value. -/
example : (({ stream := [], needComma := true } : Out).event
    ⟨.lit "x", 0, [.str (.lit "a\"") (.lit "b\n"), .int (.lit "n") (-5)]⟩).stream =
      lit "\x7b\"schema\":1,\"type\":\"x\",\"ts\":0,\"a\\\"\":\"b\\n\",\"n\":-5\x7d\n" := by
  decide

end StyxWire.Hping
