import StyxWire.Ars.FieldAccess
import StyxWire.Ars.Grammar

/-!
# Skipped layers

With a skip, `ars_d_field_off` looks for the field itself in each of the layers that are skipped,
and goes on from the last character of the value that is found (`StyxWire.Reached`). So it comes to
the right layer if every layer that is skipped has the field, and gives up where one has not
(`StyxWire.fieldOffLoop_cases`).

`StyxWire.skipCounts_iff` says for which layers of a description the skip counts the layers of the
name. A layer without parentheses, which is not seen, is one that has not the field.
-/

namespace StyxWire

open Text Search

instance : DecidableEq Word := fun v w =>
  decidable_of_iff (v.bytes = w.bytes) ⟨Word.ext_bytes, fun h => h ▸ rfl⟩

instance (layer : Word) (l : LayerText) : Decidable (l.Named layer) :=
  inferInstanceAs (Decidable (_ ∧ _))

/-- The layer has a field of this name. -/
def LayerText.Has (field : Word) (l : LayerText) : Prop :=
  ∃ b ∈ l.body, ∃ f ∈ b.fields, f.name = field

/-- The layers of a name that are written with parentheses. -/
def seen (layer : Word) (d : List LayerText) : List LayerText :=
  d.filter fun l => decide (l.Named layer)

/-- The first `n` layers of the name that are written with parentheses are there, and have the
field. -/
def SeenHave (layer field : Word) (d : List LayerText) (n : ℕ) : Prop :=
  n ≤ (seen layer d).length ∧ ∀ l ∈ (seen layer d).take n, l.Has field

section Seen

variable {layer field : Word} {ls more : List LayerText} {l : LayerText}

theorem seen_append (ls ls' : List LayerText) :
    seen layer (ls ++ ls') = seen layer ls ++ seen layer ls' := List.filter_append _ _

theorem seen_cons (hl : l.Named layer) (ls : List LayerText) :
    seen layer (l :: ls) = l :: seen layer ls := List.filter_cons_of_pos (decide_eq_true hl)

theorem seen_cons_not (hl : ¬l.Named layer) (ls : List LayerText) :
    seen layer (l :: ls) = seen layer ls :=
  List.filter_cons_of_neg (by rw [decide_eq_true_iff]; exact hl)

theorem seen_eq_nil (hls : ∀ l ∈ ls, ¬l.Named layer) : seen layer ls = [] := by
  rw [seen, List.filter_eq_nil_iff]
  exact fun l hl => by rw [decide_eq_true_iff]; exact hls l hl

/-- The first layer of the name, and the others. -/
theorem seenHave_succ (hls : ∀ l ∈ ls, ¬l.Named layer) (hl : l.Named layer) (n : ℕ) :
    SeenHave layer field (ls ++ l :: more) (n + 1) ↔ l.Has field ∧ SeenHave layer field more n := by
  rw [SeenHave, SeenHave, seen_append, seen_eq_nil hls, List.nil_append, seen_cons hl,
    List.length_cons, List.take_succ_cons, List.forall_mem_cons, Nat.add_le_add_iff_right]
  exact and_left_comm

/-- The first of the layers, up to one of them. -/
theorem seenHave_iff (hl : l.Named layer) :
    SeenHave layer field (ls ++ l :: more) ((seen layer ls).length + 1) ↔
      (∀ m ∈ seen layer ls, m.Has field) ∧ l.Has field := by
  have htake : (seen layer (ls ++ l :: more)).take ((seen layer ls).length + 1) =
      seen layer ls ++ [l] := by
    rw [seen_append, seen_cons hl, ← List.singleton_append, ← List.append_assoc]
    exact List.take_left' (by rw [List.length_append, List.length_singleton])
  have hlen : (seen layer ls).length + 1 ≤ (seen layer (ls ++ l :: more)).length := by
    rw [seen_append, seen_cons hl, List.length_append, List.length_cons]
    omega
  rw [SeenHave, htake, and_iff_right hlen, List.forall_mem_append, List.forall_mem_singleton]

/-- How many layers have the name. -/
def nameCount (layer : Word) (ls : List LayerText) : ℕ := ls.countP fun l => decide (l.name = layer)

theorem length_seen (layer : Word) (ls : List LayerText) :
    (seen layer ls).length = ls.countP fun l => decide (l.Named layer) :=
  List.countP_eq_length_filter.symm

theorem length_seen_le (layer : Word) (ls : List LayerText) :
    (seen layer ls).length ≤ nameCount layer ls := by
  rw [length_seen]
  refine List.countP_mono_left fun l _ hl => ?_
  rw [decide_eq_true_iff] at hl ⊢
  exact hl.1

/-- All layers of the name are seen, if so many are. -/
theorem named_of_length_seen (h : (seen layer ls).length = nameCount layer ls) (hl : l ∈ ls)
    (hname : l.name = layer) : l.Named layer := by
  obtain ⟨s, t, rfl⟩ := List.append_of_mem hl
  by_contra hno
  have hs := length_seen_le layer s
  have ht := length_seen_le layer t
  rw [seen_append, seen_cons_not hno, List.length_append, nameCount, List.countP_append,
    List.countP_cons_of_pos (by rw [decide_eq_true_iff]; exact hname), ← nameCount,
    ← nameCount] at h
  omega

theorem length_seen_eq (h : ∀ l ∈ ls, l.name = layer → l.body.isSome = true) :
    (seen layer ls).length = nameCount layer ls := by
  rw [length_seen, nameCount]
  refine List.countP_congr fun l hl => ?_
  rw [decide_eq_true_iff, decide_eq_true_iff]
  exact ⟨And.left, fun hname => ⟨hname, h l hl hname⟩⟩

theorem LayerText.Has.body_isSome (h : l.Has field) : l.body.isSome = true := by
  obtain ⟨b, hb, -⟩ := h
  rw [Option.mem_def.mp hb]
  rfl

/-- A layer with fields of which none has the name. -/
theorem not_has_iff {name : Word} {b : LayerBody} :
    ¬(⟨name, some b⟩ : LayerText).Has field ↔ ∀ f ∈ b.fields, f.name ≠ field := by
  rw [LayerText.Has]
  simp

end Seen

/-! ### Places in a description -/

namespace Place

variable {p : Place} {layer field value : Word}

/-- The layer that the place is in. -/
def layerText (p : Place) (layer field value : Word) : LayerText :=
  ⟨layer, some ⟨p.fields ++ ⟨field, value⟩ :: p.moreFields, p.trailing, p.len⟩⟩

theorem fill_value (p : Place) (layer field value : Word) :
    p.fill layer [⟨field, value⟩] = p.layers ++ p.layerText layer field value :: p.moreLayers := rfl

theorem layerText_has (p : Place) (layer field value : Word) :
    (p.layerText layer field value).Has field :=
  ⟨_, rfl, ⟨field, value⟩, List.mem_append_right _ List.mem_cons_self, rfl⟩

/-- The places that are to be told of the field. -/
def told (p : Place) (layer field value : Word) : FieldOff :=
  ⟨(p.pre layer ++ fieldsBefore p.fields).length, (p.before layer field).length,
    (p.before layer field ++ value.bytes).length - 1⟩

/-- The last character of the value, or the equals sign if the value is empty. -/
theorem exists_last (p : Place) (layer field value : Word) :
    ∃ w c, p.before layer field ++ value.bytes = w ++ [c] ∧ (isDelim c = false ∨ c = ch '=') := by
  rcases List.eq_nil_or_concat value.bytes with hnil | ⟨v, c, hv⟩
  · refine ⟨p.pre layer ++ (fieldsBefore p.fields ++ field.bytes), ch '=', ?_, Or.inr rfl⟩
    rw [hnil, before]
    simp
  · rw [List.concat_eq_append] at hv
    refine ⟨p.before layer field ++ v, c, ?_, Or.inl (value.free c ?_)⟩
    · rw [hv, List.append_assoc]
    · rw [hv]
      exact List.mem_append_right _ List.mem_cons_self

/-- The text up to the end of the layer. -/
theorem packetText_layers (p : Place) (layer field value : Word) :
    packetText (p.layers ++ [p.layerText layer field value]) =
      p.before layer field ++ value.bytes ++
        (StyxWire.moreFields p.moreFields p.trailing ++ ch ')' :: p.len.bytes) := by
  have hfill := packetText_fill_value { p with moreLayers := [] } layer field value
  rw [fill_value] at hfill
  refine hfill.trans ?_
  rw [after, post, ← List.append_assoc]
  simp [before, pre, StyxWire.moreLayers]

end Place

/-! ### The way of the search -/

/-- **Where the search goes on**: at the start of the description, or in a layer behind its field,
where no layer starts. -/
inductive Reached (layer : Word) : List LayerText → List LayerText → ℕ → Prop
  | start (rest : List LayerText) : Reached layer [] rest 0
  | inside {before rest : List LayerText} {i : ℕ} {front : List UInt8} (hne : before ≠ [])
    (hdrop : (packetText (before ++ rest)).drop i = front ++ moreLayers rest)
    (hlen : i + front.length = (packetText before).length) (hplus : ch '+' ∉ front)
    (hfront : ∀ ms, ¬layer.bytes ++ [ch '('] <+: front ++ moreLayers ms) :
    Reached layer before rest i

section Reached

variable {layer field : Word} {before ls rest more : List LayerText} {i : ℕ}

theorem packetText_append_of_ne (hne : before ≠ []) (ls : List LayerText) :
    packetText (before ++ ls) = packetText before ++ moreLayers ls := by
  obtain ⟨l, ls', rfl⟩ := List.exists_cons_of_ne_nil hne
  rw [List.cons_append, packetText, packetText, moreLayers_append, List.append_assoc]

theorem layersBefore_append (hne : before ≠ []) (ls : List LayerText) :
    layersBefore (before ++ ls) = packetText before ++ (moreLayers ls ++ [ch '+']) := by
  obtain ⟨l, ls', rfl⟩ := List.exists_cons_of_ne_nil hne
  rw [List.cons_append, layersBefore, packetText, moreLayers_append]
  simp

/-- **The next layer of the name is found**, and the search is in front of it. -/
theorem Reached.layerOff_eq {b : LayerBody}
    (h : Reached layer before (ls ++ ⟨layer, some b⟩ :: more) i) (hls : ∀ l ∈ ls, ¬l.Named layer) :
    i ≤ (layersBefore (before ++ ls)).length ∧
      layerOff ((packetText (before ++ (ls ++ ⟨layer, some b⟩ :: more))).drop i) layer.bytes =
        some ((layersBefore (before ++ ls)).length - i + (layer.bytes.length + 1)) := by
  cases h with
  | start => exact ⟨Nat.zero_le _, layerOff_of_named hls b more⟩
  | inside hne hdrop hlen hplus hfront =>
    have hbefore : (layersBefore (before ++ ls)).length =
        (packetText before).length + ((moreLayers ls).length + 1) := by
      rw [layersBefore_append hne]
      simp only [List.length_append, List.length_singleton]
    refine ⟨by omega, ?_⟩
    rw [hdrop, layerOff_front hplus hfront hls]
    congr 1
    omega

/-- There is no other layer of the name. -/
theorem Reached.layerOff_eq_none (h : Reached layer before ls i) (hls : ∀ l ∈ ls, ¬l.Named layer) :
    layerOff ((packetText (before ++ ls)).drop i) layer.bytes = none := by
  cases h with
  | start => exact layerOff_of_not_named hls
  | inside hne hdrop hlen hplus hfront =>
    rw [hdrop]
    exact layerOff_front_none hplus hfront hls

/-- The field is looked for in the next layer of the name. -/
theorem Reached.firstfield_eq {b : LayerBody}
    (h : Reached layer before (ls ++ ⟨layer, some b⟩ :: more) i) (hls : ∀ l ∈ ls, ¬l.Named layer)
    (field : List UInt8) :
    ∃ pre : List UInt8,
      pre.length + i = (layersBefore (before ++ ls) ++ (layer.bytes ++ [ch '('])).length ∧
      arsDFirstfieldOff ((packetText (before ++ (ls ++ ⟨layer, some b⟩ :: more))).drop i)
        layer.bytes field =
          fieldOff (pre ++ (fieldsText b.fields b.trailing ++ ch ')' ::
            (b.len.bytes ++ moreLayers more))) pre.length field := by
  obtain ⟨hle, hoff⟩ := h.layerOff_eq hls
  have hpre : ((layersBefore (before ++ ls) ++ (layer.bytes ++ [ch '('])).drop i).length =
      (layersBefore (before ++ ls)).length - i + (layer.bytes.length + 1) := by
    simp only [List.length_drop, List.length_append, List.length_singleton]
    omega
  have htext : packetText (before ++ (ls ++ ⟨layer, some b⟩ :: more)) =
      (layersBefore (before ++ ls) ++ (layer.bytes ++ [ch '('])) ++
        (fieldsText b.fields b.trailing ++ ch ')' :: (b.len.bytes ++ moreLayers more)) := by
    rw [← List.append_assoc, packetText_append, LayerText.text]
    simp
  have hdrop : (packetText (before ++ (ls ++ ⟨layer, some b⟩ :: more))).drop i =
      (layersBefore (before ++ ls) ++ (layer.bytes ++ [ch '('])).drop i ++
        (fieldsText b.fields b.trailing ++ ch ')' :: (b.len.bytes ++ moreLayers more)) := by
    rw [htext, List.drop_append_of_le_length]
    rw [List.length_append]
    omega
  refine ⟨(layersBefore (before ++ ls) ++ (layer.bytes ++ [ch '('])).drop i, ?_, ?_⟩
  · rw [hpre, List.length_append, List.length_append, List.length_singleton]
    omega
  · rw [arsDFirstfieldOff, hoff, Option.bind_some, ← hpre, hdrop]

/-- The next layer of the name does not have the field. -/
theorem Reached.firstfield_none {b : LayerBody}
    (h : Reached layer before (ls ++ ⟨layer, some b⟩ :: more) i) (hls : ∀ l ∈ ls, ¬l.Named layer)
    (hfields : ∀ f ∈ b.fields, f.name ≠ field) :
    arsDFirstfieldOff ((packetText (before ++ (ls ++ ⟨layer, some b⟩ :: more))).drop i) layer.bytes
      field.bytes = none := by
  obtain ⟨pre, -, hfirst⟩ := h.firstfield_eq hls field.bytes
  rw [hfirst, fieldOff_eq_none hfields]

/-- **The next layer of the name has the field.** -/
theorem Reached.firstfield_some {p : Place} {value : Word} (hp : p.layers = before ++ ls)
    (h : Reached layer before (ls ++ p.layerText layer field value :: p.moreLayers) i)
    (hls : ∀ l ∈ ls, ¬l.Named layer) (hfields : ∀ f ∈ p.fields, f.name ≠ field) :
    ∃ o, arsDFirstfieldOff ((packetText (p.fill layer [⟨field, value⟩])).drop i) layer.bytes
        field.bytes = some o ∧
      ⟨o.fieldStart + i, o.valueStart + i, o.valueEnd + i⟩ = p.told layer field value := by
  obtain ⟨pre, hpre, hfirst⟩ := h.firstfield_eq hls field.bytes
  have htext : p.fill layer [⟨field, value⟩] =
      before ++ (ls ++ p.layerText layer field value :: p.moreLayers) := by
    rw [Place.fill_value, hp, List.append_assoc]
  rw [htext]
  refine ⟨_, hfirst.trans (fieldOff_eq_some hfields value p.moreFields p.trailing pre _), ?_⟩
  rw [Place.told, Place.before, Place.pre, hp]
  simp only [List.length_append, List.length_singleton, FieldOff.mk.injEq] at hpre ⊢
  refine ⟨?_, ?_, ?_⟩
  all_goals omega

/-- **The search goes on** behind the field. -/
theorem reached_told (p : Place) (layer field value : Word) :
    Reached layer (p.layers ++ [p.layerText layer field value]) p.moreLayers
      (p.told layer field value).valueEnd := by
  obtain ⟨w, c, hw, hc⟩ := p.exists_last layer field value
  have hend : (p.told layer field value).valueEnd = w.length := by
    rw [Place.told]
    dsimp only
    rw [hw, List.length_append, List.length_singleton, Nat.add_sub_cancel]
  have hne : p.layers ++ [p.layerText layer field value] ≠ [] := by simp
  have htext := p.packetText_layers layer field value
  set tail := StyxWire.moreFields p.moreFields p.trailing ++ ch ')' :: p.len.bytes with htail
  rw [hw, List.append_assoc, List.singleton_append] at htext
  have hplus : ch '+' ∉ tail := by
    intro hmem
    rcases List.mem_append.mp hmem with hmem | hmem
    · exact moreFields_notMem _ _ (by decide) (by decide) (by decide) hmem
    · rcases List.mem_cons.mp hmem with hmem | hmem
      · exact absurd hmem (by decide)
      · exact p.len.notMem (by decide) hmem
  -- a word, and a mark that is not the parenthesis of a layer
  obtain ⟨v, m, r, hmr, hm, hparen⟩ : ∃ (v : Word) (m : UInt8) (r : List UInt8),
      c :: tail = v.bytes ++ m :: r ∧ isDelim m = true ∧ m ≠ ch '(' := by
    rcases hc with hc | rfl
    · have hfree : ∀ d ∈ [c], isDelim d = false := fun d hd => List.mem_singleton.mp hd ▸ hc
      rcases moreFields_cases p.moreFields p.trailing with ⟨-, -, hnil⟩ | ⟨r, hr⟩
      · exact ⟨⟨[c], hfree⟩, ch ')', _, by rw [htail, hnil]; rfl, by decide, by decide⟩
      · exact ⟨⟨[c], hfree⟩, ch ',', _, by rw [htail, hr]; rfl, by decide, by decide⟩
    · exact ⟨⟨[], fun _ hc => absurd hc List.not_mem_nil⟩, ch '=', tail, rfl, by decide, by decide⟩
  rw [hend]
  refine @Reached.inside layer _ _ _ (c :: tail) hne ?_ ?_ ?_ fun ms => ?_
  · rw [packetText_append_of_ne hne, htext, List.append_assoc, List.drop_left]
  · rw [htext, List.length_append]
  · intro hmem
    rcases List.mem_cons.mp hmem with rfl | hmem
    · rcases hc with hc | hc
      · exact absurd hc (by decide)
      · exact absurd hc (by decide)
    · exact hplus hmem
  · rw [hmr, List.append_assoc, List.cons_append, Word.prefix_iff _ _ (by decide) hm]
    exact fun h => hparen h.2.symm

/-- **One search**: the next layer of the name has the field, or there is none, or it does not have
the field. -/
theorem Reached.firstfield_cases (h : Reached layer before rest i) :
    (∃ (p : Place) (value : Word) (ls : List LayerText), p.layers = before ++ ls ∧
      rest = ls ++ p.layerText layer field value :: p.moreLayers ∧ (∀ l ∈ ls, ¬l.Named layer) ∧
      (∀ f ∈ p.fields, f.name ≠ field) ∧
      ∃ o, arsDFirstfieldOff ((packetText (before ++ rest)).drop i) layer.bytes field.bytes =
          some o ∧
        ⟨o.fieldStart + i, o.valueStart + i, o.valueEnd + i⟩ = p.told layer field value) ∨
    (∀ n, ¬SeenHave layer field rest (n + 1)) ∧
      arsDFirstfieldOff ((packetText (before ++ rest)).drop i) layer.bytes field.bytes = none := by
  rcases first_or_none (LayerText.Named layer) rest with hno | ⟨ls, l, more, rfl, hl, hls⟩
  · refine Or.inr ⟨fun n hseen => ?_, ?_⟩
    · have hlen := hseen.1
      rw [seen_eq_nil hno] at hlen
      exact Nat.not_succ_le_zero n hlen
    · rw [arsDFirstfieldOff, h.layerOff_eq_none hno, Option.bind_none]
  · have hnamed := hl
    obtain ⟨name, body⟩ := l
    obtain ⟨rfl, hbody⟩ := hl
    obtain ⟨⟨fields, trailing, len⟩, rfl⟩ := Option.isSome_iff_exists.mp hbody
    rcases first_or_none (fun f : FieldText => f.name = field) fields with
      hno | ⟨fs, ⟨name', value⟩, fs', rfl, hf, hfs⟩
    · refine Or.inr ⟨fun n hseen => ?_, h.firstfield_none hls hno⟩
      exact not_has_iff.mpr hno ((seenHave_succ hls hnamed n).mp hseen).1
    · obtain rfl : name' = field := hf
      let p : Place := ⟨before ++ ls, fs, fs', trailing, len, more⟩
      obtain ⟨o, ho, htold⟩ := @Reached.firstfield_some name name' before ls i p value rfl h hls hfs
      rw [Place.fill_value, List.append_assoc] at ho
      exact Or.inl ⟨p, value, ls, rfl, rfl, hls, hfs, o, ho, htold⟩

/-- **The search for a field behind skipped layers.** Each of the layers of the name that it meets
has to have the field; then it tells the places in the layer behind those that are skipped. The
induction is on the skip. -/
theorem fieldOffLoop_cases (h : Reached layer before rest i) (skip : ℕ) :
    (∃ (p : Place) (value : Word) (ls : List LayerText), p.layers = before ++ ls ∧
      rest = ls ++ p.layerText layer field value :: p.moreLayers ∧
      (seen layer ls).length = skip ∧ (∀ l ∈ seen layer ls, l.Has field) ∧
      (∀ f ∈ p.fields, f.name ≠ field) ∧
      fieldOffLoop (packetText (before ++ rest)) layer.bytes field.bytes skip i =
        some (p.told layer field value)) ∨
    ¬SeenHave layer field rest (skip + 1) ∧
      fieldOffLoop (packetText (before ++ rest)) layer.bytes field.bytes skip i = none := by
  induction skip generalizing before rest i with
  | zero =>
    rcases @Reached.firstfield_cases layer field before rest i h with
      ⟨p, value, ls, hp, hrest, hls, hfs, o, ho, htold⟩ | ⟨hno, hnone⟩
    · have hseen := seen_eq_nil hls
      refine Or.inl ⟨p, value, ls, hp, hrest, by rw [hseen]; rfl, ?_, hfs, ?_⟩
      · rw [hseen]
        exact fun l hl => absurd hl List.not_mem_nil
      · rw [fieldOffLoop, ho, Option.map_some, htold]
    · exact Or.inr ⟨hno 0, by rw [fieldOffLoop, hnone, Option.map_none]⟩
  | succ skip ih =>
    rcases @Reached.firstfield_cases layer field before rest i h with
      ⟨p, value, ls, hp, hrest, hls, hfs, o, ho, htold⟩ | ⟨hno, hnone⟩
    · have hnamed : (p.layerText layer field value).Named layer := ⟨rfl, rfl⟩
      have hend : i + o.valueEnd = (p.told layer field value).valueEnd := by
        rw [← htold]
        exact Nat.add_comm _ _
      have htext : before ++ rest =
          p.layers ++ [p.layerText layer field value] ++ p.moreLayers := by
        rw [hrest, hp]
        simp
      rw [fieldOffLoop, ho, Option.bind_some, hend, htext]
      have hhas := p.layerText_has layer field value
      rcases ih (reached_told p layer field value) with
        ⟨q, value', ls', hq, hmore, hlen, hhave, hfs', hloop⟩ | ⟨hno, hloop⟩
      · refine Or.inl ⟨q, value', ls ++ p.layerText layer field value :: ls', ?_, ?_, ?_, ?_, hfs',
          hloop⟩
        · rw [hq, hp]
          simp
        · rw [hrest, hmore]
          simp
        · rw [seen_append, seen_eq_nil hls, List.nil_append, seen_cons hnamed, List.length_cons,
            hlen]
        · rw [seen_append, seen_eq_nil hls, List.nil_append, seen_cons hnamed]
          exact List.forall_mem_cons.mpr ⟨hhas, hhave⟩
      · refine Or.inr ⟨fun hseen => hno ?_, hloop⟩
        rw [hrest] at hseen
        exact ((seenHave_succ hls hnamed _).mp hseen).2
    · exact Or.inr ⟨hno (skip + 1), by rw [fieldOffLoop, hnone, Option.bind_none]⟩

end Reached

/-! ### What the skip counts -/

theorem arsDFieldOff_nat (packet layer field : List UInt8) (skip : ℕ) :
    arsDFieldOff packet layer field skip = fieldOffLoop packet layer field skip 0 := by
  cases skip with
  | zero =>
    rw [arsDFieldOff, if_pos (by omega), fieldOffLoop, List.drop_zero]
    exact Option.map_id'.symm
  | succ skip => rw [arsDFieldOff, if_neg (by omega), Int.toNat_natCast]

/-- **The skip counts layers**: behind as many layers of the name as there are in front of this
layer, the field is found if and only if this layer has it, and then it is the first one of the
name in this layer that is told and got. -/
structure SkipCounts (ls : List LayerText) (l : LayerText) (more : List LayerText) (field : Word) :
    Prop where
  found : (arsDFieldOff (packetText (ls ++ l :: more)) l.name.bytes field.bytes
    (nameCount l.name ls)).isSome = true ↔ l.Has field
  told : ∀ (p : Place) (value : Word), p.layers = ls → p.layerText l.name field value = l →
    (∀ f ∈ p.fields, f.name ≠ field) →
      arsDFieldOff (packetText (ls ++ l :: more)) l.name.bytes field.bytes (nameCount l.name ls) =
        some (p.told l.name field value) ∧
      arsDFieldGet (packetText (ls ++ l :: more)) l.name.bytes field.bytes (nameCount l.name ls) =
        some value.bytes

section SkipCounts

variable {ls more : List LayerText} {l : LayerText} {layer field : Word}

/-- What is got is the value, if the places are those of the field. -/
theorem fieldGet_told {p : Place} {value : Word} {skip : ℤ}
    (h : arsDFieldOff (packetText (p.fill layer [⟨field, value⟩])) layer.bytes field.bytes skip =
      some (p.told layer field value)) :
    arsDFieldGet (packetText (p.fill layer [⟨field, value⟩])) layer.bytes field.bytes skip =
      some value.bytes := by
  have hlen : (p.told layer field value).valueEnd + 1 - (p.told layer field value).valueStart =
      value.bytes.length := by
    obtain ⟨w, c, hw, -⟩ := p.exists_last layer field value
    have hpos := congrArg List.length hw
    rw [Place.told]
    simp only [List.length_append, List.length_singleton] at hpos ⊢
    omega
  rw [arsDFieldGet, h, Option.map_some, hlen, Place.packetText_fill_value, Place.told,
    List.drop_left, List.take_left]

/-- The place of the field in a layer that has it. -/
theorem LayerText.Has.exists_place (h : l.Has field) (ls more : List LayerText) :
    ∃ (p : Place) (value : Word), p.layers = ls ∧ p.layerText l.name field value = l ∧
      p.moreLayers = more ∧ ∀ f ∈ p.fields, f.name ≠ field := by
  obtain ⟨name, body⟩ := l
  obtain ⟨⟨fields, trailing, len⟩, rfl, g, hg, hname⟩ := h
  rcases first_or_none (fun f : FieldText => f.name = field) fields with
    hno | ⟨fs, ⟨name', value⟩, fs', rfl, hf, hfs⟩
  · exact absurd hname (hno g hg)
  · obtain rfl : name' = field := hf
    exact ⟨⟨ls, fs, fs', trailing, len, more⟩, value, rfl, rfl, rfl, hfs⟩

/-- There is one place of the first field of a name in a layer. -/
theorem told_unique {p q : Place} {value value' : Word} (hlayers : p.layers = q.layers)
    (hlayer : p.layerText layer field value = q.layerText layer field value')
    (hp : ∀ f ∈ p.fields, f.name ≠ field) (hq : ∀ f ∈ q.fields, f.name ≠ field) :
    p.told layer field value = q.told layer field value' ∧ value = value' := by
  have hfields := congrArg LayerBody.fields
    (Option.some.inj (congrArg LayerText.body hlayer))
  rcases same_or_behind hfields with ⟨hsame, hvalue, -⟩ | ⟨s, hs⟩ | ⟨s, hs⟩
  · obtain rfl := (FieldText.mk.inj hvalue).2
    refine ⟨?_, rfl⟩
    rw [Place.told, Place.told, Place.before, Place.before, Place.pre, Place.pre, hlayers, hsame]
  · refine absurd rfl (hq ⟨field, value⟩ ?_)
    rw [hs]
    exact List.mem_append_right _ List.mem_cons_self
  · refine absurd rfl (hp ⟨field, value'⟩ ?_)
    rw [hs]
    exact List.mem_append_right _ List.mem_cons_self

/-- The place in a layer is in front of those in the layers behind it. -/
theorem told_lt {p q : Place} {value value' : Word} {s : List LayerText}
    (h : q.layers = p.layers ++ p.layerText layer field value :: s) :
    (p.told layer field value).valueStart < (q.told layer field value').valueStart := by
  have hne : p.layers ++ [p.layerText layer field value] ≠ [] := by simp
  have hq : q.layers = p.layers ++ [p.layerText layer field value] ++ s := by
    rw [h]
    simp
  rw [Place.told, Place.told]
  dsimp only
  rw [Place.before.eq_1 q, Place.pre, hq, layersBefore_append hne, p.packetText_layers]
  simp only [List.length_append, List.length_cons]
  omega

/-- A layer without parentheses is not seen. -/
theorem seen_bare (hbody : l.body = none) (ls more : List LayerText) :
    seen layer (ls ++ more) = seen layer (ls ++ l :: more) := by
  have hno : ¬l.Named layer := by
    rintro ⟨-, hsome⟩
    rw [hbody] at hsome
    cases hsome
  rw [seen_append, seen_append, seen_cons_not hno]

theorem mem_seen {m : LayerText} (hm : m ∈ ls) (hnamed : m.Named layer) : m ∈ seen layer ls :=
  List.mem_filter.mpr ⟨hm, decide_eq_true hnamed⟩

/-- **What is found**: the field in this layer, or in a layer behind it, or nothing. -/
theorem fieldOff_cases (ls : List LayerText) (l : LayerText) (more : List LayerText)
    (field : Word) :
    (∃ (p : Place) (value : Word), p.layers = ls ∧ p.layerText l.name field value = l ∧
      p.moreLayers = more ∧ (∀ f ∈ p.fields, f.name ≠ field) ∧
      (∀ m ∈ ls, m.name = l.name → m.Has field) ∧
      arsDFieldOff (packetText (ls ++ l :: more)) l.name.bytes field.bytes
        (nameCount l.name ls) = some (p.told l.name field value)) ∨
    (∃ (p : Place) (value : Word) (s : List LayerText), p.layers = ls ++ l :: s ∧
      (seen l.name p.layers).length = nameCount l.name ls ∧
      (∀ m ∈ seen l.name p.layers, m.Has field) ∧
      SeenHave l.name field (ls ++ l :: more) (nameCount l.name ls + 1) ∧
      arsDFieldOff (packetText (ls ++ l :: more)) l.name.bytes field.bytes
        (nameCount l.name ls) = some (p.told l.name field value)) ∨
    ¬SeenHave l.name field (ls ++ l :: more) (nameCount l.name ls + 1) ∧
      arsDFieldOff (packetText (ls ++ l :: more)) l.name.bytes field.bytes
        (nameCount l.name ls) = none := by
  have hloop := @fieldOffLoop_cases l.name field [] (ls ++ l :: more) 0 (.start _)
    (nameCount l.name ls)
  rw [List.nil_append, ← arsDFieldOff_nat] at hloop
  rcases hloop with ⟨p, value, ls', hp, hd, hlen, hhave, hpf, hoff⟩ | hnone
  · rw [List.nil_append] at hp
    obtain rfl := hp
    have hnamed : (p.layerText l.name field value).Named l.name := ⟨rfl, rfl⟩
    rcases same_or_behind hd with ⟨hls, hlayer, hmore⟩ | ⟨s, hs⟩ | ⟨s, hs⟩
    · refine Or.inl ⟨p, value, hls.symm, hlayer.symm, hmore.symm, hpf, fun m hm hname => ?_, hoff⟩
      rw [← hls] at hlen hhave
      exact hhave m (mem_seen hm (named_of_length_seen hlen hm hname))
    · refine Or.inr (Or.inl ⟨p, value, s, hs, hlen, hhave, ?_, hoff⟩)
      rw [hd, ← hlen]
      exact (seenHave_iff hnamed).mpr ⟨hhave, p.layerText_has l.name field value⟩
    · -- a layer in front of this one has too few in front of it
      have hle := length_seen_le l.name ls
      rw [hs, seen_append, seen_cons hnamed, List.length_append, List.length_cons, ← hs] at hle
      omega
  · exact Or.inr (Or.inr hnone)

/-- **The skip counts the layers of the name except for those without the field**: the layer is
found if it has the field and every layer of the name in front of it has the field too; if it has
not, nothing is found, unless it is written without parentheses, and enough layers in front of it
and behind it have the field. -/
theorem skipCounts_iff (ls : List LayerText) (l : LayerText) (more : List LayerText)
    (field : Word) : SkipCounts ls l more field ↔
      (l.Has field → ∀ m ∈ ls, m.name = l.name → m.Has field) ∧
        (l.body = none →
          ¬SeenHave l.name field (ls ++ more) (nameCount l.name ls + 1)) := by
  constructor
  · rintro ⟨hfound, htold⟩
    rcases fieldOff_cases ls l more field with ⟨p, value, -, hlayer, -, -, hhave, -⟩ |
      ⟨q, value', s, hq, -, -, -, hoff⟩ | ⟨hno, hnone⟩
    · refine ⟨fun _ => hhave, fun hbody => ?_⟩
      rw [← hlayer] at hbody
      cases hbody
    · have hl := hfound.mp (by rw [hoff]; rfl)
      -- the places that are told are too far behind
      obtain ⟨p, value, hp, hlayer, -, hpf⟩ := hl.exists_place ls more
      have heq := Option.some.inj ((htold p value hp hlayer hpf).1.symm.trans hoff)
      have hq' : q.layers = p.layers ++ p.layerText l.name field value :: s := by
        rw [hq, hp, hlayer]
      have hlt := @told_lt l.name field p q value value' s hq'
      rw [heq] at hlt
      exact absurd hlt (lt_irrefl _)
    · refine ⟨fun hl => ?_, fun hbody hseen => ?_⟩
      · have hsome := hfound.mpr hl
        rw [hnone] at hsome
        cases hsome
      · rw [SeenHave, seen_bare hbody] at hseen
        exact hno hseen
  · rintro ⟨hhave, hbare⟩
    rcases fieldOff_cases ls l more field with ⟨q, value', hq, hlayer', hmore, hqf, -, hoff⟩ |
      ⟨q, value', s, hq, hlen, hall, hseen, hoff⟩ | ⟨hno, hnone⟩
    · have hl := q.layerText_has l.name field value'
      rw [hlayer'] at hl
      refine ⟨iff_of_true (by rw [hoff]; rfl) hl, fun p value hp hlayer hpf => ?_⟩
      obtain ⟨htold, rfl⟩ := told_unique (hp.trans hq.symm) (hlayer.trans hlayer'.symm) hpf hqf
      have hfill : ls ++ l :: more = q.fill l.name [⟨field, value⟩] := by
        rw [Place.fill_value, hq, hlayer', hmore]
      refine ⟨hoff.trans (congrArg some htold.symm), ?_⟩
      rw [hfill] at hoff ⊢
      exact fieldGet_told hoff
    · exfalso
      cases hbody : l.body with
      | none =>
        rw [SeenHave, ← seen_bare hbody] at hseen
        exact hbare hbody hseen
      | some b =>
        have hnamed : l.Named l.name := ⟨rfl, by rw [hbody]; rfl⟩
        have hmem : l ∈ q.layers := hq ▸ List.mem_append_right _ List.mem_cons_self
        have hl := hall l (mem_seen hmem hnamed)
        -- all layers of the name in front are seen, and this one is one more
        have hfront := length_seen_eq fun m hm hname => (hhave hl m hm hname).body_isSome
        rw [hq, seen_append, seen_cons hnamed, List.length_append, List.length_cons] at hlen
        omega
    · have hl : ¬l.Has field := by
        intro hl
        have hall := hhave hl
        have hlen := length_seen_eq fun m hm hname => (hall m hm hname).body_isSome
        rw [← hlen] at hno
        refine hno ((seenHave_iff ⟨rfl, hl.body_isSome⟩).mpr ⟨fun m hm => ?_, hl⟩)
        obtain ⟨hm, hname⟩ := List.mem_filter.mp hm
        exact hall m hm (of_decide_eq_true hname).1
      refine ⟨iff_of_false (by rw [hnone]; exact Bool.false_ne_true) hl,
        fun p value _ hlayer _ => ?_⟩
      rw [← hlayer] at hl
      exact absurd (p.layerText_has l.name field value) hl

end SkipCounts

/-- The field of the second layer is not found behind a first layer without it. -/
theorem skip_without_field : ∃ (ls : List LayerText) (l : LayerText) (field : Word),
    packetText (ls ++ [l]) = lit "ip(tos=0)+ip(ttl=1)" ∧
      (∀ libc, ∃ pkt, arsDBuild libc arsInit (lit "ip(tos=0)+ip(ttl=1)") = .ok pkt) ∧
      l.name.bytes = lit "ip" ∧ nameCount l.name ls = 1 ∧ field.bytes = lit "ttl" ∧ l.Has field ∧
      arsDFieldOff (lit "ip(tos=0)+ip(ttl=1)") (lit "ip") (lit "ttl") 1 = none ∧
      ¬SkipCounts ls l [] field := by
  have hword : ∀ s : String, IsWord (lit s) → ∃ w : Word, w.bytes = lit s :=
    fun s hs => ⟨⟨lit s, hs.delim⟩, rfl⟩
  obtain ⟨ip, hip⟩ := hword "ip" (by decide)
  obtain ⟨tos, htos⟩ := hword "tos" (by decide)
  obtain ⟨ttl, httl⟩ := hword "ttl" (by decide)
  obtain ⟨zero, hzero⟩ := hword "0" (by decide)
  obtain ⟨one, hone⟩ := hword "1" (by decide)
  obtain ⟨len, hlen⟩ : ∃ w : Word, w.bytes = [] := ⟨⟨[], fun _ hc => absurd hc List.not_mem_nil⟩, rfl⟩
  have htext : packetText [⟨ip, some ⟨[⟨tos, zero⟩], false, len⟩⟩,
      ⟨ip, some ⟨[⟨ttl, one⟩], false, len⟩⟩] = lit "ip(tos=0)+ip(ttl=1)" := by
    simp only [packetText, LayerText.text, Option.elim_some, fieldsText, FieldText.text, moreLayers,
      moreFields, List.flatMap_cons, List.flatMap_nil, hip, htos, httl, hzero, hone, hlen]
    rfl
  have hnone : arsDFieldOff (lit "ip(tos=0)+ip(ttl=1)") (lit "ip") (lit "ttl") 1 = none := by decide
  have hhas : LayerText.Has ttl ⟨ip, some ⟨[⟨ttl, one⟩], false, len⟩⟩ :=
    ⟨_, rfl, _, List.mem_cons_self, rfl⟩
  have hcount : nameCount ip [⟨ip, some ⟨[⟨tos, zero⟩], false, len⟩⟩] = 1 := by simp [nameCount]
  refine ⟨_, _, ttl, htext, fun libc => ⟨_, rfl⟩, hip, hcount, httl, hhas, hnone, fun h => ?_⟩
  have hfound := h.found.mpr hhas
  rw [hcount, List.singleton_append, htext, hip, httl, Nat.cast_one, hnone] at hfound
  cases hfound

end StyxWire
