import StyxWire.Ars.Grammar

/-!
# Values that are no words

A value of a description has to be a word (`StyxWire.IsWord`). The printers write others:
nothing at all, where there is nothing to write, and texts that are longer than a token
can be. `ars_d_build` never accepts them (`StyxWire.arsDBuild_of_not_isWord`): for a value
that is missing, the machine takes the delimiter after it, and for one that is too long
what fits in a token; either way the token after that is neither a comma nor a brace.
-/

namespace StyxWire

open Mem Text ArsLayer

/-! ### The tokens around the value -/

/-- A token that opens with a character that is no delimiter. -/
theorem exists_arsDTokens {c : UInt8} (hc : isDelim c = false) (t : List UInt8) :
    ∃ w toks, arsDTokens (c :: t) = (c :: w) :: toks := by
  have hparser : arsDParser (c :: t) arsMaxTsize =
      some (c :: (arsDWord 11998 t).1, (arsDWord 11998 t).2) := by
    rw [arsDParser, if_neg (by decide), if_neg (by simp [hc]),
      show arsMaxTsize - 1 = 11998 + 1 from rfl, arsDWord, if_neg (by simp [hc])]
  exact ⟨_, _, arsDTokens_of_arsDParser hparser⟩

/-- A token that goes on where a comma or a brace should be. -/
def GoesOn (toks : List (List UInt8)) : Prop := ∀ t ∈ toks.head?, t ≠ lit ")" ∧ t ≠ lit ","

theorem goesOn_cons {c : UInt8} (h1 : c ≠ ch ')') (h2 : c ≠ ch ',') (w : List UInt8)
    (toks : List (List UInt8)) : GoesOn ((c :: w) :: toks) := by
  rintro t ⟨⟩
  exact ⟨fun h => h1 (List.cons.inj h).1, fun h => h2 (List.cons.inj h).1⟩

theorem goesOn_of_not_delim {c : UInt8} (hc : isDelim c = false) (t : List UInt8) :
    GoesOn (arsDTokens (c :: t)) := by
  obtain ⟨w, toks, h⟩ := exists_arsDTokens hc t
  rw [h]
  refine goesOn_cons ?_ ?_ w toks
  · rintro rfl
    exact absurd hc (by decide)
  · rintro rfl
    exact absurd hc (by decide)

/-- A word that is longer than a token can be. -/
theorem arsDTokens_long {v : List UInt8} (hv : ∀ c ∈ v, isDelim c = false)
    (hlong : arsMaxTsize ≤ v.length) (t : List UInt8) :
    ∃ w toks, arsDTokens (v ++ t) = w :: toks ∧ GoesOn toks := by
  have hmax : arsMaxTsize = 12000 := rfl
  have hword : ∀ (n : ℕ) (s : List UInt8), (∀ c ∈ s, isDelim c = false) → n ≤ s.length →
      arsDWord n (s ++ t) = (s.take n, s.drop n ++ t) := by
    intro n
    induction n with
    | zero => exact fun _ _ _ => rfl
    | succ n ih =>
      rintro (_ | ⟨c, s⟩) hs hn
      · cases hn
      · have hc := hs c List.mem_cons_self
        rw [List.cons_append, arsDWord, if_neg (by simp [hc]),
          ih s (fun d hd => hs d (List.mem_cons_of_mem _ hd)) (Nat.le_of_succ_le_succ hn)]
        rfl
  have hparser : arsDParser (v ++ t) arsMaxTsize = some (v.take 11999, v.drop 11999 ++ t) := by
    rw [← hword 11999 v hv (by omega)]
    obtain ⟨c, s, rfl⟩ := List.exists_cons_of_ne_nil (List.ne_nil_of_length_pos (l := v) (by omega))
    have hc := hv c List.mem_cons_self
    rw [List.cons_append, arsDParser, if_neg (by decide), if_neg (by simp [hc])]
    rfl
  refine ⟨_, _, arsDTokens_of_arsDParser hparser, ?_⟩
  -- what did not fit in the token
  have hlen : (v.drop 11999).length = v.length - 11999 := List.length_drop
  obtain ⟨c, s, hcs⟩ := List.exists_cons_of_ne_nil
    (List.ne_nil_of_length_pos (show 0 < (v.drop 11999).length by omega))
  rw [hcs, List.cons_append]
  exact goesOn_of_not_delim (hv c (List.mem_of_mem_drop (by rw [hcs]; exact List.mem_cons_self))) _

/-- **The token that is taken for the value**, and the one after it. -/
theorem arsDTokens_of_not_isWord {v : List UInt8} (hv : ∀ c ∈ v, isDelim c = false)
    (hno : ¬IsWord v) {c : UInt8} (hc : isDelim c = true) {t : List UInt8}
    (ht : GoesOn (arsDTokens t)) :
    ∃ w toks, arsDTokens (v ++ c :: t) = w :: toks ∧ GoesOn toks := by
  by_cases hnil : v = []
  · rw [hnil, List.nil_append, arsDTokens_delim hc]
    exact ⟨_, _, rfl, ht⟩
  · refine arsDTokens_long hv ?_ _
    by_contra hlt
    exact hno ⟨hnil, hv, Nat.lt_of_not_le hlt⟩

/-! ### The text around the value -/

/-- What follows a layer is nothing, or a plus. -/
theorem exists_descText (ds : List LayerDesc) (d : LayerDesc) (es : List LayerDesc) :
    ∃ tail, (∀ c ∈ tail.head?, c = ch '+') ∧
      descText (ds ++ d :: es) =
        (ds.map fun d => d.text ++ lit "+").flatten ++ (d.text ++ tail) := by
  by_cases hnil : es = []
  · refine ⟨[], fun c hc => absurd hc (by simp), ?_⟩
    rw [hnil, descText_concat, List.append_nil]
  · obtain ⟨e, es, rfl⟩ := List.exists_cons_of_ne_nil hnil
    have hne : ((e :: es).map fun d => d.text ++ lit "+").flatten ≠ [] := by
      rw [List.map_cons, List.flatten_cons]
      exact List.append_ne_nil_of_left_ne_nil
        (List.append_ne_nil_of_right_ne_nil _ (by decide)) _
    refine ⟨ch '+' :: adbufRtrim ((e :: es).map fun d => d.text ++ lit "+").flatten, ?_, ?_⟩
    · rintro c ⟨⟩
      rfl
    · have heq : ((ds ++ d :: e :: es).map fun d => d.text ++ lit "+").flatten =
          (ds.map fun d => d.text ++ lit "+").flatten ++
            (d.text ++ ch '+' :: ((e :: es).map fun d => d.text ++ lit "+").flatten) := by
        rw [List.map_append, List.flatten_append, List.map_cons, List.flatten_cons,
          List.append_assoc d.text]
        rfl
      rw [descText, heq, adbufRtrim, List.dropLast_append_of_ne_nil (by simp),
        List.dropLast_append_of_ne_nil (by simp), List.dropLast_cons_of_ne_nil hne]
      rfl

/-- What follows a value is a brace at the end of the layer, or a comma and the name of the next
field. -/
theorem exists_layerText (kw : String) (fs : List DField) (name : String) (v : List UInt8)
    (gs : List DField) :
    ∃ c s, (LayerDesc.mk kw (fs ++ ⟨name, v⟩ :: gs)).text = lit kw ++ ch '(' ::
        ((fs.map DField.text).flatten ++ (lit name ++ ch '=' :: (v ++ c :: s))) ∧
      (c = ch ')' ∧ s = [] ∨ c = ch ',' ∧ ∃ g ∈ gs, ∃ s', s = lit g.name ++ ch '=' :: s') := by
  by_cases hnil : gs = []
  · refine ⟨ch ')', [], ?_, Or.inl ⟨rfl, rfl⟩⟩
    rw [hnil, LayerDesc.text, rtrim_fields]
    simp [lit]
  · obtain ⟨g, gs, rfl⟩ := List.exists_cons_of_ne_nil hnil
    have hg : ((g :: gs).map DField.text).flatten =
        lit g.name ++ ch '=' :: (g.value ++ ch ',' :: (gs.map DField.text).flatten) := by
      simp [DField.text, field, lit]
    have heq : ((fs ++ ⟨name, v⟩ :: g :: gs).map DField.text).flatten =
        (fs.map DField.text).flatten ++ (lit name ++ ch '=' :: (v ++ ch ',' ::
          (lit g.name ++ ch '=' :: (g.value ++ ch ',' :: (gs.map DField.text).flatten)))) := by
      rw [← hg]
      simp [DField.text, field, lit]
    refine ⟨ch ',', lit g.name ++ ch '=' ::
      (adbufRtrim (g.value ++ ch ',' :: (gs.map DField.text).flatten) ++ lit ")"), ?_,
      Or.inr ⟨rfl, g, List.mem_cons_self, _, rfl⟩⟩
    have htrim : adbufRtrim ((fs ++ ⟨name, v⟩ :: g :: gs).map DField.text).flatten =
        (fs.map DField.text).flatten ++ (lit name ++ ch '=' :: (v ++ ch ',' ::
          (lit g.name ++ ch '=' ::
            adbufRtrim (g.value ++ ch ',' :: (gs.map DField.text).flatten)))) := by
      rw [heq]
      simp [adbufRtrim, List.dropLast_append_of_ne_nil, List.dropLast_cons_of_ne_nil]
    rw [LayerDesc.text, htrim]
    simp [lit]

/-- **A value that is no word is fatal**, whatever is around it. -/
theorem arsDBuild_of_not_isWord (libc : Libc) {ds : List LayerDesc} (hds : ∀ d ∈ ds, d.Wf)
    (hlen : ds.length < arsMaxLayer) {kw : String} (hkw : IsWord (lit kw)) {fs : List DField}
    (hfs : ∀ f ∈ fs, f.Wf) {name : String} (hname : IsWord (lit name)) {v : List UInt8}
    (hv : ∀ c ∈ v, isDelim c = false) (hno : ¬IsWord v) {gs : List DField}
    (hgs : ∀ g ∈ gs, IsWord (lit g.name)) (es : List LayerDesc) :
    ∃ e, arsDBuild libc arsInit (descText (ds ++ ⟨kw, fs ++ ⟨name, v⟩ :: gs⟩ :: es)) =
      .error e := by
  obtain ⟨tail, htail, hdesc⟩ := exists_descText ds ⟨kw, fs ++ ⟨name, v⟩ :: gs⟩ es
  obtain ⟨c, s, htext, hnext⟩ := exists_layerText kw fs name v gs
  have hdelim : isDelim c = true := by
    rcases hnext with ⟨rfl, -⟩ | ⟨rfl, -⟩
    · decide
    · decide
  have hon : GoesOn (arsDTokens (s ++ tail)) := by
    rcases hnext with ⟨-, rfl⟩ | ⟨-, g, hg, s', rfl⟩
    · rw [List.nil_append]
      cases tail with
      | nil => exact fun t ht => by cases ht
      | cons d tail =>
        obtain rfl := htail d rfl
        rw [arsDTokens_delim (by decide)]
        exact goesOn_cons (by decide) (by decide) [] _
    · have hword := hgs g hg
      obtain ⟨d, w, hdw⟩ := List.exists_cons_of_ne_nil hword.ne_nil
      rw [hdw, List.cons_append, List.cons_append]
      exact goesOn_of_not_delim (hword.delim d (by rw [hdw]; exact List.mem_cons_self)) _
  obtain ⟨w, toks, htoks, hon'⟩ := arsDTokens_of_not_isWord hv hno hdelim hon
  have htokens : arsDTokens (descText (ds ++ ⟨kw, fs ++ ⟨name, v⟩ :: gs⟩ :: es)) =
      (ds.flatMap fun d => d.tokens ++ [lit "+"]) ++
        ([lit kw, lit "("] ++ (fs.flatMap DField.tokens ++ ([lit name, lit "=", w] ++ toks))) := by
    have heq : lit kw ++ ch '(' :: ((fs.map DField.text).flatten ++
        (lit name ++ ch '=' :: (v ++ c :: s))) ++ tail =
        lit kw ++ ch '(' :: ((fs.map DField.text).flatten ++
          (lit name ++ ch '=' :: (v ++ c :: (s ++ tail)))) := by
      simp
    rw [hdesc, arsDTokens_layers hds, htext, heq, arsDTokens_word hkw (by rintro d ⟨⟩; decide),
      arsDTokens_delim (by decide), arsDTokens_fields hfs,
      arsDTokens_word hname (by rintro d ⟨⟩; decide), arsDTokens_delim (by decide), htoks]
    rfl
  have hinit : arsInit.pLayer.length = 0 := rfl
  rw [arsDBuild, htokens]
  refine foldlM_layers_error hds (fun _ => rfl) (by omega) fun pkt' k fld' hdef hpkt => ?_
  refine foldlM_no_value hfs hname w hon' hdef ?_ k fld'
  omega

/-! ### Accepted descriptions -/

/-- A description as the printers write them: a value has no delimiters, but may be no word. -/
structure LayerDesc.Plain (d : LayerDesc) : Prop where
  kw : IsWord (lit d.kw)
  names : ∀ f ∈ d.fields, IsWord (lit f.name)
  values : ∀ f ∈ d.fields, ∀ c ∈ f.value, isDelim c = false

theorem LayerDesc.Wf.plain {d : LayerDesc} (h : d.Wf) : d.Plain :=
  ⟨h.kw, fun f hf => (h.fields f hf).name, fun f hf => (h.fields f hf).value.delim⟩

theorem noFields_plain {kw : String} (hkw : IsWord (lit kw)) : (LayerDesc.mk kw []).Plain :=
  ⟨hkw, fun _ hf => absurd hf List.not_mem_nil, fun _ hf => absurd hf List.not_mem_nil⟩

theorem oneField_plain {kw name : String} {v : List UInt8} (hkw : IsWord (lit kw))
    (hname : IsWord (lit name)) (hv : ∀ c ∈ v, isDelim c = false) :
    (LayerDesc.mk kw [⟨name, v⟩]).Plain :=
  ⟨hkw, List.forall_mem_singleton.mpr hname, List.forall_mem_singleton.mpr hv⟩

/-- What is not so for all members of a list is not so for a first one. -/
theorem exists_first {α : Type*} {p : α → Prop} {as : List α} (h : ¬∀ a ∈ as, p a) :
    ∃ bs a cs, as = bs ++ a :: cs ∧ (∀ b ∈ bs, p b) ∧ ¬p a := by
  induction as with
  | nil => exact absurd (fun _ ha => absurd ha List.not_mem_nil) h
  | cons a as ih =>
    by_cases ha : p a
    · have hrest : ¬∀ b ∈ as, p b := fun hall => h (List.forall_mem_cons.mpr ⟨ha, hall⟩)
      obtain ⟨bs, b, cs, rfl, hbs, hb⟩ := ih hrest
      exact ⟨a :: bs, b, cs, rfl, List.forall_mem_cons.mpr ⟨ha, hbs⟩, hb⟩
    · exact ⟨[], a, as, rfl, fun _ hb => absurd hb List.not_mem_nil, ha⟩

/-- **In what `ars_d_build` accepts all values are words.** -/
theorem wf_of_arsDBuild {libc : Libc} {ds : List LayerDesc} (hds : ∀ d ∈ ds, d.Plain)
    (hlen : ds.length ≤ arsMaxLayer) {built : ArsPacket}
    (h : arsDBuild libc arsInit (descText ds) = .ok built) : ∀ d ∈ ds, d.Wf := by
  by_contra hno
  obtain ⟨bs, ⟨kw, fields⟩, cs, rfl, hbs, hd⟩ := exists_first hno
  obtain ⟨hkw, hnames, hvalues⟩ := hds ⟨kw, fields⟩ (by simp)
  have hfields : ¬∀ f ∈ fields, f.Wf := fun hall => hd ⟨hkw, hall⟩
  obtain ⟨fs, ⟨name, v⟩, gs, rfl, hfs, hf⟩ := exists_first hfields
  have hname := hnames ⟨name, v⟩ (by simp)
  have hword : ¬IsWord v := fun hv => hf ⟨hname, hv⟩
  have hgs : ∀ g ∈ gs, IsWord (lit g.name) := fun g hg => hnames g (by simp [hg])
  rw [List.length_append, List.length_cons] at hlen
  obtain ⟨e, he⟩ := arsDBuild_of_not_isWord libc hbs (by omega) hkw hfs hname
    (hvalues ⟨name, v⟩ (by simp)) hword hgs cs
  rw [he] at h
  cases h

end StyxWire
