import StyxWire.Ars.Apd
import StyxWire.Lib.Search

/-!
# Fields of a description

The functions of `apdutils.c` that find a field in the text of a description, and the commands of
`script.c` that get it, test for it, set it and delete it. The commands have their arguments
already, as strings and a number; a text is a C string, without the zero at its end.

Nothing is parsed: the layer is found by its name between a plus sign and a parenthesis, and the
field by its name between a comma and an equals sign. On the text of a description this comes to
what the description says (`StyxWire.field_access`), where the first layer of a name is the first
one that is written with parentheses. A layer without them is not seen
(`StyxWire.field_access_bare`).
-/

namespace StyxWire

open Text Search

/-! ### Finding a field -/

/-- The places that `ars_d_firstfield_off` tells: of the name, of the first character of the
value, and of the last one. -/
structure FieldOff where
  fieldStart : ℕ
  valueStart : ℕ
  valueEnd : ℕ
  deriving DecidableEq

/-- The search for the layer, up to where its fields start. -/
def layerOff (packet layer : List UInt8) : Option ℕ :=
  if packet.length ≤ layer.length + 1 then none
  else
    (if packet.take (layer.length + 1) = layer ++ [ch '('] then some 0
      else (wordOff (ch '+' :: (layer ++ [ch '('])) packet).map (· + 1)).map (· + (layer.length + 1))

/-- The search for the field among those that start at `p`, and for the end of its value. -/
def fieldOff (packet : List UInt8) (p : ℕ) (field : List UInt8) : Option FieldOff :=
  if packet.length - p ≤ field.length + 1 then none
  else
    (charOff (packet.drop p) (ch ')')).bind fun j =>
      let start :=
        if (packet.drop p).take (field.length + 1) = field ++ [ch '='] then some p
        else (wordOff (ch ',' :: (field ++ [ch '='])) (packet.drop p)).bind fun i =>
          if j ≤ i then none else some (p + (i + 1))
      start.map fun fieldStart =>
        let valueStart := fieldStart + (field.length + 1)
        let w := ((charOff (packet.drop valueStart) (ch ',')).map (valueStart + ·)).getD (p + j)
        ⟨fieldStart, valueStart, (if w < p + j then w else p + j) - 1⟩

/-- `ars_d_firstfield_off`. -/
def arsDFirstfieldOff (packet layer field : List UInt8) : Option FieldOff :=
  (layerOff packet layer).bind fun p => fieldOff packet p field

/-- The loop of `ars_d_field_off`, from `p` on. -/
def fieldOffLoop (packet layer field : List UInt8) : ℕ → ℕ → Option FieldOff
  | 0, p => (arsDFirstfieldOff (packet.drop p) layer field).map fun o =>
      ⟨o.fieldStart + p, o.valueStart + p, o.valueEnd + p⟩
  | skip + 1, p => (arsDFirstfieldOff (packet.drop p) layer field).bind fun o =>
      fieldOffLoop packet layer field skip (p + o.valueEnd)

/-- `ars_d_field_off`. -/
def arsDFieldOff (packet layer field : List UInt8) (skip : ℤ) : Option FieldOff :=
  if skip ≤ 0 then arsDFirstfieldOff packet layer field
  else fieldOffLoop packet layer field skip.toNat 0

/-- `ars_d_field_get`. -/
def arsDFieldGet (packet layer field : List UInt8) (skip : ℤ) : Option (List UInt8) :=
  (arsDFieldOff packet layer field skip).map fun o =>
    (packet.drop o.valueStart).take (o.valueEnd + 1 - o.valueStart)

/-! ### The commands -/

/-- `HpingGetFieldCmd`: the result, which is empty if there is no such field. -/
def hpingGetFieldCmd (layer field : List UInt8) (skip : ℤ) (packet : List UInt8) : List UInt8 :=
  (arsDFieldGet packet layer field skip).getD []

/-- `HpingHasFieldCmd`. -/
def hpingHasFieldCmd (layer field : List UInt8) (skip : ℤ) (packet : List UInt8) : Bool :=
  (arsDFieldOff packet layer field skip).isSome

/-- `HpingSetFieldCmd`: the new packet, or the text of the error. -/
def hpingSetFieldCmd (layer field value : List UInt8) (skip : ℤ) (packet : List UInt8) :
    Except (List UInt8) (List UInt8) :=
  (arsDFieldOff packet layer field skip).elim
    (.error (lit "no such field " ++ layer ++ lit " " ++ field))
    fun o => .ok (packet.take o.valueStart ++ value ++ packet.drop (o.valueEnd + 1))

/-- `HpingDelFieldCmd`: with the field goes the comma in front of it, or else the one behind. -/
def hpingDelFieldCmd (layer field : List UInt8) (skip : ℤ) (packet : List UInt8) : List UInt8 :=
  (arsDFieldOff packet layer field skip).elim packet fun o =>
    let next := packet[o.valueEnd + 1]?
    let fstart :=
      if packet[o.fieldStart - 1]? = some (ch ',') ∧
          (next = some (ch ')') ∨ next = some (ch ',')) then o.fieldStart - 1
      else o.fieldStart
    let skipped := if packet[fstart - 1]? = some (ch '(') ∧ next = some (ch ',') then 1 else 0
    packet.take fstart ++ packet.drop (o.valueEnd + 1 + skipped)

/-! ### Descriptions -/

/-- A word of a description, which may be empty. -/
structure Word where
  bytes : List UInt8
  free : ∀ c ∈ bytes, isDelim c = false

theorem Word.ext_bytes {v w : Word} (h : v.bytes = w.bytes) : v = w := by
  cases v
  cases w
  congr

/-- A field of a layer. -/
structure FieldText where
  name : Word
  value : Word

/-- What follows the name of a layer: its fields, whether there is a comma behind the last one,
and the length, if there is one. -/
structure LayerBody where
  fields : List FieldText
  trailing : Bool
  len : Word

/-- A layer, with parentheses or without. -/
structure LayerText where
  name : Word
  body : Option LayerBody

/-- `name=value`. -/
def FieldText.text (f : FieldText) : List UInt8 := f.name.bytes ++ ch '=' :: f.value.bytes

/-- The fields behind the first one, and the comma behind the last one. -/
def moreFields (fs : List FieldText) (trailing : Bool) : List UInt8 :=
  (fs.flatMap fun f => ch ',' :: f.text) ++ if trailing then [ch ','] else []

/-- The fields of a layer. -/
def fieldsText : List FieldText → Bool → List UInt8
  | [], _ => []
  | f :: fs, trailing => f.text ++ moreFields fs trailing

/-- `name(fields)length`, or the name alone. -/
def LayerText.text (l : LayerText) : List UInt8 :=
  l.name.bytes ++ l.body.elim [] fun b =>
    ch '(' :: (fieldsText b.fields b.trailing ++ ch ')' :: b.len.bytes)

/-- The layers behind the first one. -/
def moreLayers (ls : List LayerText) : List UInt8 := ls.flatMap fun l => ch '+' :: l.text

/-- **The text of a description.** -/
def packetText : List LayerText → List UInt8
  | [] => []
  | l :: ls => l.text ++ moreLayers ls

/-- A layer of this name that is written with parentheses. -/
def LayerText.Named (layer : Word) (l : LayerText) : Prop := l.name = layer ∧ l.body.isSome = true

/-- A place for the value of a field: what there is around it. -/
structure Place where
  layers : List LayerText
  fields : List FieldText
  moreFields : List FieldText
  trailing : Bool
  len : Word
  moreLayers : List LayerText

/-- The description with some fields at a place of it. -/
def Place.fill (p : Place) (layer : Word) (fs : List FieldText) : List LayerText :=
  p.layers ++ ⟨layer, some ⟨p.fields ++ (fs ++ p.moreFields), p.trailing, p.len⟩⟩ :: p.moreLayers

/-- The place is that of the first field of the name, in the first layer of the name. -/
def Place.First (p : Place) (layer field : Word) : Prop :=
  (∀ l ∈ p.layers, ¬l.Named layer) ∧ ∀ f ∈ p.fields, f.name ≠ field

/-- There is no such field: the first layer of the name has none, or there is no layer of the
name. -/
def NoField (d : List LayerText) (layer field : Word) : Prop :=
  (∀ l ∈ d, ¬l.Named layer) ∨ ∃ ls b more, d = ls ++ ⟨layer, some b⟩ :: more ∧
    (∀ l ∈ ls, ¬l.Named layer) ∧ ∀ f ∈ b.fields, f.name ≠ field

/-! ### The texts -/

theorem Word.not_delim (w : Word) : ∀ c ∈ w.bytes, ¬isDelim c = true := by
  intro c hc
  rw [w.free c hc]
  exact Bool.false_ne_true

theorem Word.notMem (w : Word) {c : UInt8} (hc : isDelim c = true) : c ∉ w.bytes :=
  fun hmem => w.not_delim c hmem hc

/-- A word in front of a mark. -/
theorem Word.prefix_iff (v w : Word) {c c' : UInt8} (hc : isDelim c = true) (hc' : isDelim c' = true)
    (s : List UInt8) : v.bytes ++ [c] <+: w.bytes ++ c' :: s ↔ v = w ∧ c = c' := by
  rw [word_prefix_iff v.not_delim w.not_delim hc hc']
  exact and_congr_left' ⟨Word.ext_bytes, fun h => h ▸ rfl⟩

/-- A mark is in the text of a field, if it is the one between its words. -/
theorem FieldText.notMem (f : FieldText) {c : UInt8} (hc : isDelim c = true) (hne : c ≠ ch '=') :
    c ∉ f.text := by
  intro hmem
  rcases List.mem_append.mp hmem with hmem | hmem
  · exact f.name.notMem hc hmem
  · rcases List.mem_cons.mp hmem with rfl | hmem
    · exact hne rfl
    · exact f.value.notMem hc hmem

/-- There are no parentheses and no plus signs in what is between the parentheses. -/
theorem moreFields_notMem (fs : List FieldText) (trailing : Bool) {c : UInt8}
    (hc : isDelim c = true) (heq : c ≠ ch '=') (hcomma : c ≠ ch ',') :
    c ∉ moreFields fs trailing := by
  intro hmem
  rcases List.mem_append.mp hmem with hmem | hmem
  · obtain ⟨f, -, hf⟩ := List.mem_flatMap.mp hmem
    rcases List.mem_cons.mp hf with rfl | hf
    · exact hcomma rfl
    · exact f.notMem hc heq hf
  · cases trailing with
    | true => exact hcomma (List.mem_singleton.mp hmem)
    | false => exact List.not_mem_nil hmem

theorem fieldsText_notMem (fs : List FieldText) (trailing : Bool) {c : UInt8}
    (hc : isDelim c = true) (heq : c ≠ ch '=') (hcomma : c ≠ ch ',') :
    c ∉ fieldsText fs trailing := by
  cases fs with
  | nil => exact List.not_mem_nil
  | cons f fs =>
    intro hmem
    rcases List.mem_append.mp hmem with hmem | hmem
    · exact f.notMem hc heq hmem
    · exact moreFields_notMem fs trailing hc heq hcomma hmem

theorem LayerText.plus_notMem (l : LayerText) : ch '+' ∉ l.text := by
  intro hmem
  rcases List.mem_append.mp hmem with hmem | hmem
  · exact l.name.notMem (by decide) hmem
  · cases hbody : l.body with
    | none =>
      rw [hbody] at hmem
      exact List.not_mem_nil hmem
    | some b =>
      rw [hbody] at hmem
      rcases List.mem_cons.mp hmem with hmem | hmem
      · exact absurd hmem (by decide)
      · rcases List.mem_append.mp hmem with hmem | hmem
        · exact fieldsText_notMem _ _ (by decide) (by decide) (by decide) hmem
        · rcases List.mem_cons.mp hmem with hmem | hmem
          · exact absurd hmem (by decide)
          · exact b.len.notMem (by decide) hmem

theorem moreLayers_append (ls ls' : List LayerText) :
    moreLayers (ls ++ ls') = moreLayers ls ++ moreLayers ls' :=
  List.flatMap_append

theorem moreLayers_cons (l : LayerText) (ls : List LayerText) :
    moreLayers (l :: ls) = ch '+' :: (l.text ++ moreLayers ls) :=
  List.flatMap_cons

/-! ### The layer is found -/

/-- The text of a layer opens with a name and a parenthesis if the layer has both. -/
theorem LayerText.prefix_iff (layer : Word) (l : LayerText) (ls : List LayerText) :
    layer.bytes ++ [ch '('] <+: l.text ++ moreLayers ls ↔ l.Named layer := by
  rw [LayerText.Named, LayerText.text, List.append_assoc]
  cases l.body with
  | some b =>
    rw [Option.elim_some, List.cons_append, Word.prefix_iff _ _ (by decide) (by decide)]
    simp [eq_comm]
  | none =>
    rw [Option.elim_none, List.nil_append, Option.isSome_none]
    simp only [Bool.false_eq_true, and_false, iff_false]
    cases ls with
    | nil =>
      rintro ⟨t, ht⟩
      rw [moreLayers, List.flatMap_nil, List.append_nil] at ht
      refine l.name.notMem (c := ch '(') (by decide) ?_
      rw [← ht]
      simp
    | cons l' ls =>
      rw [moreLayers_cons, Word.prefix_iff _ _ (by decide) (by decide)]
      rintro ⟨-, hmark⟩
      exact absurd hmark (by decide)

/-- What `strstr` looks for. -/
theorem plusName_iff (layer : Word) (l : LayerText) (ls : List LayerText) :
    ch '+' :: (layer.bytes ++ [ch '(']) <+: moreLayers (l :: ls) ↔ l.Named layer := by
  rw [moreLayers_cons, List.cons_prefix_cons]
  exact (and_iff_right rfl).trans (LayerText.prefix_iff layer l ls)

/-- The layers of other names are passed over. -/
theorem wordOff_moreLayers {layer : Word} {ls : List LayerText} (hls : ∀ l ∈ ls, ¬l.Named layer)
    (more : List LayerText) :
    wordOff (ch '+' :: (layer.bytes ++ [ch '('])) (moreLayers (ls ++ more)) =
      (wordOff (ch '+' :: (layer.bytes ++ [ch '('])) (moreLayers more)).map
        (· + (moreLayers ls).length) := by
  induction ls with
  | nil => simp [moreLayers]
  | cons l ls ih =>
    have hl := hls l List.mem_cons_self
    have hne := (plusName_iff layer l (ls ++ more)).not.mpr hl
    rw [moreLayers_cons] at hne
    rw [List.cons_append, moreLayers_cons, wordOff_cons hne, wordOff_append l.plus_notMem,
      ih fun l' hl' => hls l' (List.mem_cons_of_mem l hl'), Option.map_map, Option.map_map,
      moreLayers_cons, List.length_cons, List.length_append]
    congr 1
    funext i
    simp only [Function.comp_apply]
    omega

/-- What is in front of the first layer of a name. -/
def layersBefore : List LayerText → List UInt8
  | [] => []
  | l :: ls => l.text ++ (moreLayers ls ++ [ch '+'])

theorem packetText_append (ls : List LayerText) (l : LayerText) (more : List LayerText) :
    packetText (ls ++ l :: more) = layersBefore ls ++ (l.text ++ moreLayers more) := by
  cases ls with
  | nil => rfl
  | cons l' ls =>
    rw [List.cons_append, packetText, moreLayers_append, moreLayers_cons, layersBefore]
    simp

/-- The layer is found behind a text without plus signs that does not open with its name. -/
theorem layerOff_front {layer : Word} {front : List UInt8} {ls : List LayerText}
    (hplus : ch '+' ∉ front)
    (hfront : ∀ ms, ¬layer.bytes ++ [ch '('] <+: front ++ moreLayers ms)
    (hls : ∀ l ∈ ls, ¬l.Named layer) (b : LayerBody) (more : List LayerText) :
    layerOff (front ++ moreLayers (ls ++ ⟨layer, some b⟩ :: more)) layer.bytes =
      some (front.length + (moreLayers ls).length + 1 + (layer.bytes.length + 1)) := by
  have hnamed : (⟨layer, some b⟩ : LayerText).Named layer := ⟨rfl, rfl⟩
  have hlong : layer.bytes.length + 1 <
      (front ++ moreLayers (ls ++ ⟨layer, some b⟩ :: more)).length := by
    rw [moreLayers_append, moreLayers_cons, LayerText.text]
    simp only [List.length_append, List.length_cons, Option.elim_some]
    omega
  have hno := hfront (ls ++ ⟨layer, some b⟩ :: more)
  rw [List.prefix_iff_eq_take, List.length_append, List.length_singleton, eq_comm] at hno
  rw [layerOff, if_neg (Nat.not_le.mpr hlong), if_neg hno, wordOff_append hplus,
    wordOff_moreLayers hls, wordOff_of_prefix ((plusName_iff layer _ more).mpr hnamed)]
  simp only [Option.map_some]
  congr 1
  omega

/-- No layer is found behind such a text, if there is none of the name. -/
theorem layerOff_front_none {layer : Word} {front : List UInt8} {ls : List LayerText}
    (hplus : ch '+' ∉ front)
    (hfront : ∀ ms, ¬layer.bytes ++ [ch '('] <+: front ++ moreLayers ms)
    (hls : ∀ l ∈ ls, ¬l.Named layer) :
    layerOff (front ++ moreLayers ls) layer.bytes = none := by
  have hno := hfront ls
  rw [List.prefix_iff_eq_take, List.length_append, List.length_singleton, eq_comm] at hno
  have hrest := wordOff_moreLayers hls []
  rw [List.append_nil] at hrest
  rw [layerOff]
  split_ifs
  · rfl
  · rw [wordOff_append hplus, hrest]
    rfl

/-- A layer of another name does not open with the name. -/
theorem LayerText.front {layer : Word} {l : LayerText} (hl : ¬l.Named layer) (ms : List LayerText) :
    ¬layer.bytes ++ [ch '('] <+: l.text ++ moreLayers ms :=
  (LayerText.prefix_iff layer l ms).not.mpr hl

/-- **The layer is found**, the first one of its name. -/
theorem layerOff_of_named {layer : Word} {ls : List LayerText} (hls : ∀ l ∈ ls, ¬l.Named layer)
    (b : LayerBody) (more : List LayerText) :
    layerOff (packetText (ls ++ ⟨layer, some b⟩ :: more)) layer.bytes =
      some ((layersBefore ls).length + (layer.bytes.length + 1)) := by
  cases ls with
  | nil =>
    have hleads := (LayerText.prefix_iff layer ⟨layer, some b⟩ more).mpr ⟨rfl, rfl⟩
    rw [List.prefix_iff_eq_take, List.length_append, List.length_singleton, eq_comm] at hleads
    have hne : ¬((⟨layer, some b⟩ : LayerText).text ++ moreLayers more).length ≤
        layer.bytes.length + 1 := by
      rw [LayerText.text]
      simp only [List.length_append, List.length_cons, Option.elim_some]
      omega
    rw [List.nil_append, packetText, layerOff, if_neg hne, if_pos hleads]
    rfl
  | cons l ls =>
    have hl := hls l List.mem_cons_self
    rw [List.cons_append, packetText, layerOff_front l.plus_notMem (LayerText.front hl)
      fun l' hl' => hls l' (List.mem_cons_of_mem l hl'), layersBefore]
    simp only [List.length_append, List.length_singleton, Nat.add_assoc]

/-- The layer is not found where there is none of its name. -/
theorem layerOff_of_not_named {layer : Word} {d : List LayerText} (hd : ∀ l ∈ d, ¬l.Named layer) :
    layerOff (packetText d) layer.bytes = none := by
  cases d with
  | nil =>
    rw [packetText, layerOff]
    exact if_pos (Nat.zero_le _)
  | cons l ls =>
    have hl := hd l List.mem_cons_self
    exact layerOff_front_none l.plus_notMem (LayerText.front hl)
      fun l' hl' => hd l' (List.mem_cons_of_mem l hl')

/-! ### The field is found -/

theorem moreFields_cons (f : FieldText) (fs : List FieldText) (trailing : Bool) :
    moreFields (f :: fs) trailing = ch ',' :: (f.text ++ moreFields fs trailing) := by
  rw [moreFields, moreFields, List.flatMap_cons, List.cons_append, List.cons_append,
    List.append_assoc]

/-- The text of a field opens with its name and an equals sign. -/
theorem FieldText.prefix_iff (field : Word) (f : FieldText) (s : List UInt8) :
    field.bytes ++ [ch '='] <+: f.text ++ s ↔ f.name = field := by
  rw [FieldText.text, List.append_assoc, List.cons_append, Word.prefix_iff _ _ (by decide) (by decide)]
  simp [eq_comm]

/-- No field starts at a parenthesis. -/
theorem not_prefix_paren (field : Word) (s : List UInt8) :
    ¬field.bytes ++ [ch '='] <+: ch ')' :: s := by
  have hempty : (⟨[], fun _ hc => absurd hc List.not_mem_nil⟩ : Word).bytes = [] := rfl
  rw [← List.nil_append (ch ')' :: s), ← hempty, Word.prefix_iff _ _ (by decide) (by decide)]
  rintro ⟨-, hmark⟩
  exact absurd hmark (by decide)

/-- The fields of other names are passed over. -/
theorem wordOff_moreFields {field : Word} {fs : List FieldText} (hfs : ∀ f ∈ fs, f.name ≠ field)
    (s : List UInt8) :
    wordOff (ch ',' :: (field.bytes ++ [ch '='])) ((fs.flatMap fun f => ch ',' :: f.text) ++ s) =
      (wordOff (ch ',' :: (field.bytes ++ [ch '='])) s).map
        (· + (fs.flatMap fun f => ch ',' :: f.text).length) := by
  induction fs with
  | nil => simp
  | cons f fs ih =>
    have hne : ¬ch ',' :: (field.bytes ++ [ch '=']) <+:
        ch ',' :: (f.text ++ ((fs.flatMap fun f => ch ',' :: f.text) ++ s)) := by
      rw [List.cons_prefix_cons, FieldText.prefix_iff]
      exact fun h => hfs f List.mem_cons_self h.2
    rw [List.flatMap_cons, List.cons_append, List.cons_append, List.append_assoc, wordOff_cons hne,
      wordOff_append (f.notMem (by decide) (by decide)),
      ih fun f' hf' => hfs f' (List.mem_cons_of_mem f hf'), Option.map_map, Option.map_map,
      List.length_cons, List.length_append]
    congr 1
    funext i
    simp only [Function.comp_apply]
    omega

/-- Where there is no such field, nothing is found in front of the parenthesis. -/
theorem le_of_wordOff {field : Word} {fs : List FieldText} (hfs : ∀ f ∈ fs, f.name ≠ field)
    (trailing : Bool) (s : List UInt8) {i : ℕ}
    (h : wordOff (ch ',' :: (field.bytes ++ [ch '='])) (fieldsText fs trailing ++ ch ')' :: s) =
      some i) : (fieldsText fs trailing).length ≤ i := by
  cases fs with
  | nil => exact Nat.zero_le i
  | cons f fs =>
    have htrailing : wordOff (ch ',' :: (field.bytes ++ [ch '=']))
        ((if trailing then [ch ','] else []) ++ ch ')' :: s) =
          (wordOff (ch ',' :: (field.bytes ++ [ch '='])) (ch ')' :: s)).map
            (· + (if trailing then [ch ','] else []).length) := by
      cases trailing with
      | false => simp
      | true =>
        have hne : ¬ch ',' :: (field.bytes ++ [ch '=']) <+: ch ',' :: ch ')' :: s := by
          rw [List.cons_prefix_cons]
          exact fun hp => not_prefix_paren field s hp.2
        exact wordOff_cons hne
    rw [fieldsText, moreFields, List.append_assoc, List.append_assoc,
      wordOff_append (f.notMem (by decide) (by decide)),
      wordOff_moreFields fun f' hf' => hfs f' (List.mem_cons_of_mem f hf'), htrailing] at h
    obtain ⟨j, hj, rfl⟩ := Option.map_eq_some_iff.mp h
    obtain ⟨k, hk, rfl⟩ := Option.map_eq_some_iff.mp hj
    obtain ⟨l, -, rfl⟩ := Option.map_eq_some_iff.mp hk
    rw [fieldsText, moreFields]
    simp only [List.length_append]
    omega

/-- **A field that is not there is not found**, whatever comes behind the layer. -/
theorem fieldOff_eq_none {field : Word} {fs : List FieldText} (hfs : ∀ f ∈ fs, f.name ≠ field)
    (trailing : Bool) (pre s : List UInt8) :
    fieldOff (pre ++ (fieldsText fs trailing ++ ch ')' :: s)) pre.length field.bytes = none := by
  rw [fieldOff]
  split_ifs with hshort hfirst
  · rfl
  · rw [List.drop_left, charOff_append (fieldsText_notMem fs trailing (by decide) (by decide)
      (by decide)), Option.bind_some]
    rw [List.drop_left] at hfirst
    have hleads : field.bytes ++ [ch '='] <+: fieldsText fs trailing ++ ch ')' :: s := by
      rw [List.prefix_iff_eq_take, List.length_append, List.length_singleton]
      exact hfirst.symm
    cases fs with
    | nil => exact absurd hleads (not_prefix_paren field s)
    | cons f fs =>
      rw [fieldsText, List.append_assoc, FieldText.prefix_iff] at hleads
      exact absurd hleads (hfs f List.mem_cons_self)
  · rw [List.drop_left, charOff_append (fieldsText_notMem fs trailing (by decide) (by decide)
      (by decide)), Option.bind_some]
    dsimp only
    cases hword : wordOff (ch ',' :: (field.bytes ++ [ch '=']))
      (fieldsText fs trailing ++ ch ')' :: s) with
    | none => rfl
    | some i => rw [Option.bind_some, if_pos (le_of_wordOff hfs trailing s hword), Option.map_none]

/-- What is in front of the first field of a name. -/
def fieldsBefore : List FieldText → List UInt8
  | [] => []
  | f :: fs => f.text ++ ((fs.flatMap fun f => ch ',' :: f.text) ++ [ch ','])

theorem fieldsText_append (fs : List FieldText) (f : FieldText) (more : List FieldText)
    (trailing : Bool) : fieldsText (fs ++ f :: more) trailing =
      fieldsBefore fs ++ (f.text ++ moreFields more trailing) := by
  cases fs with
  | nil => rfl
  | cons g fs =>
    rw [List.cons_append, fieldsText, fieldsBefore, moreFields, moreFields, List.flatMap_append,
      List.flatMap_cons]
    simp

/-- Either nothing follows a field, or a comma. -/
theorem moreFields_cases (fs : List FieldText) (trailing : Bool) :
    (fs = [] ∧ trailing = false ∧ moreFields fs trailing = []) ∨
      ∃ r, moreFields fs trailing = ch ',' :: r := by
  cases fs with
  | nil =>
    cases trailing with
    | false => exact Or.inl ⟨rfl, rfl, rfl⟩
    | true => exact Or.inr ⟨[], rfl⟩
  | cons f fs => exact Or.inr ⟨_, moreFields_cons f fs trailing⟩

/-- **A field that is there is found**, the first one of its name, and so is the end of its
value. -/
theorem fieldOff_eq_some {field : Word} {fs : List FieldText} (hfs : ∀ f ∈ fs, f.name ≠ field)
    (value : Word) (more : List FieldText) (trailing : Bool) (pre s : List UInt8) :
    fieldOff (pre ++ (fieldsText (fs ++ ⟨field, value⟩ :: more) trailing ++ ch ')' :: s)) pre.length
        field.bytes =
      some ⟨pre.length + (fieldsBefore fs).length,
        pre.length + (fieldsBefore fs).length + (field.bytes.length + 1),
        pre.length + (fieldsBefore fs).length + (field.bytes.length + 1) + value.bytes.length -
          1⟩ := by
  set f : FieldText := ⟨field, value⟩
  set body := fieldsText (fs ++ f :: more) trailing
  have htext : body = fieldsBefore fs ++ (f.text ++ moreFields more trailing) :=
    fieldsText_append fs f more trailing
  have hftext : f.text = field.bytes ++ ch '=' :: value.bytes := rfl
  have hflen : f.text.length = field.bytes.length + 1 + value.bytes.length := by
    rw [hftext, List.length_append, List.length_cons]
    omega
  have hlen : body.length = (fieldsBefore fs).length +
      (field.bytes.length + 1 + value.bytes.length + (moreFields more trailing).length) := by
    rw [htext, List.length_append, List.length_append, hflen]
  have hparen : ch ')' ∉ body := fieldsText_notMem _ _ (by decide) (by decide) (by decide)
  -- The place where the field starts.
  have hstart : (if (body ++ ch ')' :: s).take (field.bytes.length + 1) = field.bytes ++ [ch '='] then
        some pre.length
      else (wordOff (ch ',' :: (field.bytes ++ [ch '='])) (body ++ ch ')' :: s)).bind fun i =>
        if body.length ≤ i then none else some (pre.length + (i + 1))) =
      some (pre.length + (fieldsBefore fs).length) := by
    have hfirst : ∀ {g : FieldText} {r : List UInt8},
        (g.text ++ r).take (field.bytes.length + 1) = field.bytes ++ [ch '='] ↔ g.name = field := by
      intro g r
      rw [← FieldText.prefix_iff field g r, List.prefix_iff_eq_take, List.length_append,
        List.length_singleton, eq_comm]
    cases fs with
    | nil =>
      rw [htext, fieldsBefore, List.nil_append, List.append_assoc, if_pos (hfirst.mpr rfl)]
      rfl
    | cons g fs =>
      have hg : g.name ≠ field := hfs g List.mem_cons_self
      have hsplit : body ++ ch ')' :: s = g.text ++ ((fs.flatMap fun f => ch ',' :: f.text) ++
          (ch ',' :: (f.text ++ (moreFields more trailing ++ ch ')' :: s)))) := by
        rw [htext, fieldsBefore]
        simp
      have hhere : ch ',' :: (field.bytes ++ [ch '=']) <+:
          ch ',' :: (f.text ++ (moreFields more trailing ++ ch ')' :: s)) := by
        rw [List.cons_prefix_cons, FieldText.prefix_iff]
        exact ⟨rfl, rfl⟩
      rw [fieldsBefore, List.length_append, List.length_append, List.length_singleton] at hlen ⊢
      rw [hsplit, if_neg (hfirst.not.mpr hg), wordOff_append (g.notMem (by decide) (by decide)),
        wordOff_moreFields fun f' hf' => hfs f' (List.mem_cons_of_mem g hf'), wordOff_of_prefix hhere]
      simp only [Option.map_some, Option.bind_some]
      rw [if_neg (by omega)]
      congr 1
      omega
  -- The end of the value.
  have hend : ∀ vs, vs = pre.length + (fieldsBefore fs).length + (field.bytes.length + 1) →
      (let w := ((charOff ((pre ++ (body ++ ch ')' :: s)).drop vs) (ch ',')).map (vs + ·)).getD
          (pre.length + body.length)
        if w < pre.length + body.length then w else pre.length + body.length) =
      vs + value.bytes.length := by
    rintro vs hvs
    have hdrop : (pre ++ (body ++ ch ')' :: s)).drop vs =
        value.bytes ++ (moreFields more trailing ++ ch ')' :: s) := by
      have hsplit : pre ++ (body ++ ch ')' :: s) = (pre ++ (fieldsBefore fs ++
          (field.bytes ++ [ch '=']))) ++ (value.bytes ++ (moreFields more trailing ++ ch ')' :: s)) := by
        rw [htext, hftext]
        simp
      rw [hsplit]
      refine List.drop_left' ?_
      simp only [List.length_append, List.length_singleton]
      omega
    rw [hdrop]
    rcases moreFields_cases more trailing with ⟨-, -, hnil⟩ | ⟨r, hr⟩
    · rw [hnil, List.length_nil] at hlen
      rw [hnil, List.nil_append]
      cases hcomma : charOff (value.bytes ++ ch ')' :: s) (ch ',') with
      | none =>
        rw [Option.map_none, Option.getD_none]
        dsimp only
        rw [if_neg (lt_irrefl _)]
        omega
      | some k =>
        have hle := charOff_append_le (value.notMem (by decide)) hcomma
        rw [Option.map_some, Option.getD_some]
        dsimp only
        rw [if_neg (by omega)]
        omega
    · rw [hr, List.length_cons] at hlen
      rw [hr, List.cons_append, charOff_append (value.notMem (by decide)), Option.map_some,
        Option.getD_some]
      dsimp only
      rw [if_pos (by omega)]
  rw [fieldOff, if_neg, List.drop_left, charOff_append hparen, Option.bind_some]
  · dsimp only
    rw [hstart, Option.map_some]
    have hvalue := hend _ rfl
    dsimp only at hvalue
    rw [hvalue]
  · simp only [List.length_append, List.length_cons]
    omega

/-! ### The places of a description -/

namespace Place

variable {p : Place} {layer field : Word}

/-- What is in front of the fields of the layer. -/
def pre (p : Place) (layer : Word) : List UInt8 :=
  layersBefore p.layers ++ (layer.bytes ++ [ch '('])

/-- What is behind the fields of the layer. -/
def post (p : Place) : List UInt8 := p.len.bytes ++ StyxWire.moreLayers p.moreLayers

theorem packetText_fill (p : Place) (layer : Word) (fs : List FieldText) :
    packetText (p.fill layer fs) = p.pre layer ++
      (fieldsText (p.fields ++ (fs ++ p.moreFields)) p.trailing ++ ch ')' :: p.post) := by
  rw [fill, packetText_append, LayerText.text, pre, post]
  simp

/-- What is in front of the value. -/
def before (p : Place) (layer field : Word) : List UInt8 :=
  p.pre layer ++ (fieldsBefore p.fields ++ (field.bytes ++ [ch '=']))

/-- What is behind the value. -/
def after (p : Place) : List UInt8 :=
  StyxWire.moreFields p.moreFields p.trailing ++ ch ')' :: p.post

theorem packetText_fill_value (p : Place) (layer field value : Word) :
    packetText (p.fill layer [⟨field, value⟩]) =
      p.before layer field ++ (value.bytes ++ p.after) := by
  rw [packetText_fill, List.singleton_append, fieldsText_append, FieldText.text, before, after]
  simp

/-- The layer is found, and the field is looked for in it. -/
theorem fieldOff_layer (hlayers : ∀ l ∈ p.layers, ¬l.Named layer) (fs : List FieldText)
    (field : List UInt8) : arsDFieldOff (packetText (p.fill layer fs)) layer.bytes field 0 =
      fieldOff (packetText (p.fill layer fs)) (p.pre layer).length field := by
  have hlayer : layerOff (packetText (p.fill layer fs)) layer.bytes = some (p.pre layer).length := by
    rw [fill, layerOff_of_named hlayers, pre]
    simp
  rw [arsDFieldOff, if_pos le_rfl, arsDFirstfieldOff, hlayer, Option.bind_some]

/-- **The places that are told** for the first field of its name. -/
theorem fieldOff_fill (h : p.First layer field) (value : Word) :
    ∃ o, arsDFieldOff (packetText (p.fill layer [⟨field, value⟩])) layer.bytes field.bytes 0 = some o ∧
      o.fieldStart = (p.pre layer ++ fieldsBefore p.fields).length ∧
      o.valueStart = (p.before layer field).length ∧
      o.valueEnd + 1 = (p.before layer field ++ value.bytes).length := by
  have hfield := fieldOff_eq_some h.2 value p.moreFields p.trailing (p.pre layer) p.post
  rw [← List.singleton_append, ← packetText_fill] at hfield
  refine ⟨_, (fieldOff_layer h.1 _ _).trans hfield, ?_, ?_, ?_⟩
  · rw [List.length_append]
  · rw [before]
    simp only [List.length_append, List.length_singleton]
    omega
  · rw [before]
    simp only [List.length_append, List.length_singleton]
    omega

/-- Without the field nothing is told, if it was the only one of its name. -/
theorem fieldOff_fill_nil (h : p.First layer field) (hmore : ∀ f ∈ p.moreFields, f.name ≠ field) :
    arsDFieldOff (packetText (p.fill layer [])) layer.bytes field.bytes 0 = none := by
  have hnone : ∀ f ∈ p.fields ++ ([] ++ p.moreFields), f.name ≠ field := by
    intro f hf
    rcases List.mem_append.mp hf with hf | hf
    · exact h.2 f hf
    · exact hmore f hf
  rw [fieldOff_layer h.1, packetText_fill, fieldOff_eq_none hnone]

/-- **Getting after setting**, or getting what is there. -/
theorem getField_fill (h : p.First layer field) (value : Word) :
    hpingGetFieldCmd layer.bytes field.bytes 0 (packetText (p.fill layer [⟨field, value⟩])) =
      value.bytes := by
  obtain ⟨o, ho, -, hstart, hend⟩ := fieldOff_fill h value
  have hlen : o.valueEnd + 1 - o.valueStart = value.bytes.length := by
    rw [hend, hstart, List.length_append]
    omega
  rw [hpingGetFieldCmd, arsDFieldGet, ho, Option.map_some, Option.getD_some, hlen, hstart,
    packetText_fill_value, List.drop_left, List.take_left]

/-- **Setting a field** changes its value and nothing else. -/
theorem setField_fill (h : p.First layer field) (value value' : Word) :
    hpingSetFieldCmd layer.bytes field.bytes value'.bytes 0
      (packetText (p.fill layer [⟨field, value⟩])) =
        .ok (packetText (p.fill layer [⟨field, value'⟩])) := by
  obtain ⟨o, ho, -, hstart, hend⟩ := fieldOff_fill h value
  rw [hpingSetFieldCmd, ho, Option.elim_some, hstart, hend, packetText_fill_value,
    packetText_fill_value, List.take_left, ← List.append_assoc _ _ p.after, List.drop_left,
    List.append_assoc]

/-- The last character of the fields in front of another one is a comma, and there is no parenthesis
in front of that. -/
theorem fieldsBefore_cons (f : FieldText) (fs : List FieldText) :
    ∃ c s, fieldsBefore (f :: fs) = s ++ [c] ++ [ch ','] ∧ c ≠ ch '(' ∧
      ∀ more trailing, fieldsText (f :: fs ++ more) trailing =
        s ++ [c] ++ StyxWire.moreFields more trailing := by
  set s := f.text ++ fs.flatMap fun f => ch ',' :: f.text with hs
  have hne : s ≠ [] := by
    rw [hs, FieldText.text]
    simp
  have hlast : s.getLast hne ≠ ch '(' := by
    intro hlast
    have hmem : ch '(' ∈ s := hlast ▸ List.getLast_mem hne
    rcases List.mem_append.mp hmem with hmem | hmem
    · exact f.notMem (by decide) (by decide) hmem
    · obtain ⟨g, -, hg⟩ := List.mem_flatMap.mp hmem
      rcases List.mem_cons.mp hg with hg | hg
      · exact absurd hg (by decide)
      · exact g.notMem (by decide) (by decide) hg
  refine ⟨s.getLast hne, s.dropLast, ?_, hlast, fun more trailing => ?_⟩
  · rw [List.dropLast_append_getLast, fieldsBefore, hs, List.append_assoc]
  · rw [List.dropLast_append_getLast, List.cons_append, fieldsText, StyxWire.moreFields, hs,
      StyxWire.moreFields, List.flatMap_append]
    simp

/-- **Deleting a field** takes it out with one comma, and changes nothing else. -/
theorem delField_fill (h : p.First layer field) (value : Word) :
    hpingDelFieldCmd layer.bytes field.bytes 0 (packetText (p.fill layer [⟨field, value⟩])) =
      packetText (p.fill layer []) := by
  obtain ⟨o, ho, hfield, -, hend⟩ := fieldOff_fill h value
  set t := packetText (p.fill layer [⟨field, value⟩]) with ht
  have htext : t = p.before layer field ++ value.bytes ++ p.after := by
    rw [ht, packetText_fill_value, List.append_assoc]
  have hnext : t[o.valueEnd + 1]? = p.after.head? := by
    rw [hend, htext, List.getElem?_append_right le_rfl, Nat.sub_self, List.head?_eq_getElem?]
  have hdrop : ∀ k, t.drop (o.valueEnd + 1 + k) = p.after.drop k := by
    intro k
    rw [hend, htext, List.drop_append, List.drop_eq_nil_of_le (Nat.le_add_right _ _),
      List.nil_append, Nat.add_sub_cancel_left]
  have hafter : p.after.head? = some (ch ')') ∧ p.moreFields = [] ∧ p.trailing = false ∧
      p.after = ch ')' :: p.post ∨ p.after.head? = some (ch ',') := by
    rcases moreFields_cases p.moreFields p.trailing with ⟨hfs, htrailing, hnil⟩ | ⟨r, hr⟩
    · exact Or.inl ⟨by rw [after, hnil]; rfl, hfs, htrailing, by rw [after, hnil]; rfl⟩
    · exact Or.inr (by rw [after, hr]; rfl)
  have hmark : p.after.head? = some (ch ')') ∨ p.after.head? = some (ch ',') :=
    hafter.imp_left And.left
  rw [hpingDelFieldCmd, ho, Option.elim_some]
  dsimp only
  rw [hnext, hfield]
  have hstart : t = (p.pre layer ++ fieldsBefore p.fields) ++
      (field.bytes ++ ch '=' :: (value.bytes ++ p.after)) := by
    rw [htext, before]
    simp
  have hfill := packetText_fill p layer []
  rw [List.nil_append] at hfill
  rw [hfill]
  cases hfields : p.fields with
  | nil =>
    -- The character in front is the parenthesis, and a comma can be behind only.
    rw [hfields, fieldsBefore, List.append_nil] at hstart
    have hlast : t[(p.pre layer).length - 1]? = some (ch '(') := by
      rw [hstart, pre]
      simp
    have hne : ¬(some (ch '(') = some (ch ',') ∧
        (p.after.head? = some (ch ')') ∨ p.after.head? = some (ch ','))) := by
      rintro ⟨hparen, -⟩
      exact absurd (Option.some.inj hparen) (by decide)
    have htake : t.take (p.pre layer).length = p.pre layer := by
      rw [hstart, List.take_left]
    rw [fieldsBefore, List.append_nil, hlast, if_neg hne, hlast, htake, List.nil_append]
    rcases hafter with ⟨hhead, hmore, -, hafter⟩ | hhead
    · have hother : ¬(some (ch '(') = some (ch '(') ∧ p.after.head? = some (ch ',')) := by
        rintro ⟨-, hcomma⟩
        exact absurd (Option.some.inj (hhead.symm.trans hcomma)) (by decide)
      rw [if_neg hother, hdrop, hmore, hafter]
      rfl
    · rw [if_pos ⟨rfl, hhead⟩, hdrop, after]
      rw [after] at hhead
      congr 1
      cases hmore : p.moreFields with
      | nil =>
        cases htrailing : p.trailing with
        | false =>
          rw [hmore, htrailing] at hhead
          exact absurd (Option.some.inj hhead) (by decide)
        | true => rfl
      | cons g gs =>
        rw [moreFields_cons]
        rfl
  | cons f fs =>
    -- The character in front is a comma.
    obtain ⟨c, s, hbefore, hc, hfieldsText⟩ := fieldsBefore_cons f fs
    rw [hfields, hbefore] at hstart
    have hlen : (p.pre layer ++ fieldsBefore (f :: fs)).length - 1 =
        (p.pre layer ++ (s ++ [c])).length := by
      rw [hbefore]
      simp only [List.length_append, List.length_singleton]
      omega
    have hcomma : t[(p.pre layer ++ (s ++ [c])).length]? = some (ch ',') := by
      rw [hstart, ← List.append_assoc (p.pre layer), List.append_assoc,
        List.getElem?_append_right le_rfl, Nat.sub_self]
      rfl
    have hlast : t[(p.pre layer ++ (s ++ [c])).length - 1]? = some c := by
      have hsplit : t = (p.pre layer ++ s) ++ (c :: ch ',' :: (field.bytes ++
          ch '=' :: (value.bytes ++ p.after))) := by
        rw [hstart]
        simp
      have hone : (p.pre layer ++ (s ++ [c])).length - 1 = (p.pre layer ++ s).length := by
        simp only [List.length_append, List.length_singleton]
        omega
      rw [hone, hsplit, List.getElem?_append_right le_rfl, Nat.sub_self]
      rfl
    have htake : t.take (p.pre layer ++ (s ++ [c])).length = p.pre layer ++ (s ++ [c]) := by
      have hsplit : t = (p.pre layer ++ (s ++ [c])) ++ (ch ',' :: (field.bytes ++
          ch '=' :: (value.bytes ++ p.after))) := by
        rw [hstart]
        simp
      rw [hsplit, List.take_left]
    have hne : ¬(some c = some (ch '(') ∧ p.after.head? = some (ch ',')) := by
      rintro ⟨hparen, -⟩
      exact hc (Option.some.inj hparen)
    rw [hlen, hcomma, if_pos ⟨rfl, hmark⟩, hlast, if_neg hne, htake, hdrop, hfieldsText, after,
      List.drop_zero]
    simp

end Place

/-- A description has a first field of the name in its first layer of the name, or it has no
such field. -/
theorem place_or_noField (d : List LayerText) (layer field : Word) :
    (∃ (p : Place) (value : Word), p.First layer field ∧ d = p.fill layer [⟨field, value⟩]) ∨
      NoField d layer field := by
  rcases first_or_none (LayerText.Named layer) d with hnone | ⟨ls, l, more, rfl, hl, hls⟩
  · exact Or.inr (Or.inl hnone)
  · obtain ⟨name, body⟩ := l
    obtain ⟨rfl, hbody⟩ := hl
    obtain ⟨⟨fields, trailing, len⟩, rfl⟩ := Option.isSome_iff_exists.mp hbody
    rcases first_or_none (fun f : FieldText => f.name = field) fields with
      hnone | ⟨fs, f, fs', rfl, hf, hfs⟩
    · exact Or.inr (Or.inr ⟨ls, _, more, rfl, hls, hnone⟩)
    · obtain ⟨name', value⟩ := f
      obtain rfl : name' = field := hf
      exact Or.inl ⟨⟨ls, fs, fs', trailing, len, more⟩, value, ⟨hls, hfs⟩, rfl⟩

/-- Nothing is told of a field that is not there. -/
theorem fieldOff_of_noField {d : List LayerText} {layer field : Word} (h : NoField d layer field) :
    arsDFieldOff (packetText d) layer.bytes field.bytes 0 = none := by
  rcases h with hnone | ⟨ls, ⟨fields, trailing, len⟩, more, rfl, hls, hfields⟩
  · rw [arsDFieldOff, if_pos le_rfl, arsDFirstfieldOff, layerOff_of_not_named hnone,
      Option.bind_none]
  · have hfill : ls ++ ⟨layer, some ⟨fields, trailing, len⟩⟩ :: more =
        (⟨ls, fields, [], trailing, len, more⟩ : Place).fill layer [] := by
      rw [Place.fill, List.append_nil, List.append_nil]
    rw [hfill]
    exact Place.fieldOff_fill_nil ⟨hls, hfields⟩ fun f hf => absurd hf List.not_mem_nil

/-- **The laws of field access**, where a layer is seen if it is written with parentheses. The
field is at a place of the description: it is got there, it is set there and nothing else is
changed, and it is taken out there, with one comma; or it is not there, and then nothing is got,
nothing is set, and nothing is deleted. -/
theorem field_access (d : List LayerText) (layer field : Word) :
    (∃ (p : Place) (value : Word), p.First layer field ∧ d = p.fill layer [⟨field, value⟩] ∧
      hpingHasFieldCmd layer.bytes field.bytes 0 (packetText d) = true ∧
      hpingGetFieldCmd layer.bytes field.bytes 0 (packetText d) = value.bytes ∧
      hpingSetFieldCmd layer.bytes field.bytes
        (hpingGetFieldCmd layer.bytes field.bytes 0 (packetText d)) 0 (packetText d) =
          .ok (packetText d) ∧
      (∀ value' : Word,
        hpingSetFieldCmd layer.bytes field.bytes value'.bytes 0 (packetText d) =
          .ok (packetText (p.fill layer [⟨field, value'⟩])) ∧
        hpingGetFieldCmd layer.bytes field.bytes 0 (packetText (p.fill layer [⟨field, value'⟩])) =
          value'.bytes) ∧
      hpingDelFieldCmd layer.bytes field.bytes 0 (packetText d) = packetText (p.fill layer []) ∧
      ((∀ f ∈ p.moreFields, f.name ≠ field) →
        hpingHasFieldCmd layer.bytes field.bytes 0 (packetText (p.fill layer [])) = false)) ∨
    (NoField d layer field ∧
      hpingHasFieldCmd layer.bytes field.bytes 0 (packetText d) = false ∧
      hpingGetFieldCmd layer.bytes field.bytes 0 (packetText d) = [] ∧
      (∀ value : Word, hpingSetFieldCmd layer.bytes field.bytes value.bytes 0 (packetText d) =
        .error (lit "no such field " ++ layer.bytes ++ lit " " ++ field.bytes)) ∧
      hpingDelFieldCmd layer.bytes field.bytes 0 (packetText d) = packetText d) := by
  rcases place_or_noField d layer field with ⟨p, value, hfirst, rfl⟩ | hnone
  · refine Or.inl ⟨p, value, hfirst, rfl, ?_, Place.getField_fill hfirst value, ?_, fun value' =>
      ⟨Place.setField_fill hfirst value value', Place.getField_fill hfirst value'⟩,
      Place.delField_fill hfirst value, fun hmore => ?_⟩
    · obtain ⟨o, ho, -⟩ := Place.fieldOff_fill hfirst value
      rw [hpingHasFieldCmd, ho]
      rfl
    · rw [Place.getField_fill hfirst value, Place.setField_fill hfirst value value]
    · rw [hpingHasFieldCmd, Place.fieldOff_fill_nil hfirst hmore]
      rfl
  · have hoff := fieldOff_of_noField hnone
    refine Or.inr ⟨hnone, ?_, ?_, fun value => ?_, ?_⟩
    · rw [hpingHasFieldCmd, hoff]
      rfl
    · rw [hpingGetFieldCmd, arsDFieldGet, hoff]
      rfl
    · rw [hpingSetFieldCmd, hoff]
      rfl
    · rw [hpingDelFieldCmd, hoff]
      rfl

/-- The first layer has no fields and no parentheses, and the fields of the second one are taken
for those of the first. -/
theorem field_access_bare :
    (∀ libc, ∃ pkt, arsDBuild libc arsInit (lit "ip+ip(ttl=1)") = .ok pkt) ∧
      hpingGetFieldCmd (lit "ip") (lit "ttl") 0 (lit "ip+ip(ttl=1)") = lit "1" ∧
      hpingSetFieldCmd (lit "ip") (lit "ttl") (lit "9") 0 (lit "ip+ip(ttl=1)") =
        .ok (lit "ip+ip(ttl=9)") ∧
      hpingDelFieldCmd (lit "ip") (lit "ttl") 0 (lit "ip+ip(ttl=1)") = lit "ip+ip()" := by
  refine ⟨fun libc => ⟨_, rfl⟩, by decide, by decide, by decide⟩

end StyxWire
