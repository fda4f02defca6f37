import StyxWire.Ars.ApdMachine

/-!
# What the description parser accepts

The grammar of the description language, for every string (`StyxWire.Grammatical`): the text of
layers, whose parts are words, and which mean something. The tokens of a text spell it
(`StyxWire.arsDTokens_spec`), and those of such a text are the ones of the grammar
(`StyxWire.arsDTokens_apdText`), so that what the machine accepts can be told from the text.

The machine does not look whether a value is a word. So it accepts the descriptions of the grammar
and nothing else, up to descriptions with a separator for a value (`StyxWire.arsDBuild_accepts`),
of which there are some (`StyxWire.arsDBuild_accepts_separator`).
-/

namespace StyxWire

open Mem Text ArsLayer

/-! ### The grammar -/

/-- A separator. -/
def IsMark (w : List UInt8) : Prop := ∃ c, isDelim c = true ∧ w = [c]

/-- A word of less than `n` characters. -/
structure WordBelow (n : ℕ) (w : List UInt8) : Prop where
  ne_nil : w ≠ []
  delim : ∀ c ∈ w, isDelim c = false
  length_lt : w.length < n

/-- The parts of a layer are what they should be. -/
structure ApdLayer.Wf (word value : List UInt8 → Prop) (d : ApdLayer) : Prop where
  kw : word d.kw
  fields : ∀ b ∈ d.body, ∀ f ∈ b.fields, word f.name ∧ value f.value
  len : ∀ b ∈ d.body, ∀ w ∈ b.len, word w

/-- **The grammar**: the text is that of these layers, which have words of less than `n`
characters, and mean something. -/
structure Grammatical (n : ℕ) (libc : Libc) (ds : List ApdLayer) (t : List UInt8) : Prop where
  ne_nil : ds ≠ []
  wf : ∀ d ∈ ds, d.Wf (WordBelow n) (WordBelow n)
  valid : ∀ d ∈ ds, d.Valid libc
  text : t = apdText ds

theorem IsMark.isDelim {w : List UInt8} (h : IsMark w) : ∀ c ∈ w, isDelim c = true := by
  obtain ⟨d, hd, rfl⟩ := h
  intro c hc
  obtain rfl := List.mem_singleton.mp hc
  exact hd

theorem WordBelow.not_isMark {n : ℕ} {w : List UInt8} (h : WordBelow n w) : ¬IsMark w := by
  rintro ⟨c, hc, rfl⟩
  rw [h.delim c List.mem_cons_self] at hc
  cases hc

theorem WordBelow.isWord {n : ℕ} {w : List UInt8} (h : WordBelow n w) (hn : n ≤ arsMaxTsize) :
    IsWord w :=
  ⟨h.ne_nil, h.delim, h.length_lt.trans_le hn⟩

/-- Tokens that a text is cut into: no two words are side by side. -/
inductive Separated : List (List UInt8) → Prop
  | nil : Separated []
  | mark {c : UInt8} {toks : List (List UInt8)} : isDelim c = true → Separated toks →
      Separated ([c] :: toks)
  | word {w : List UInt8} {toks : List (List UInt8)} : IsWord w →
      (∀ tok ∈ toks.head?, IsMark tok) → Separated toks → Separated (w :: toks)

/-- **The tokens of their text** are these tokens again. -/
theorem Separated.arsDTokens_flatten {toks : List (List UInt8)} (h : Separated toks) :
    arsDTokens toks.flatten = toks := by
  induction h with
  | nil => rfl
  | @mark c toks hc _ ih =>
    rw [List.flatten_cons, List.singleton_append, arsDTokens_delim hc, ih]
  | @word w toks hw hhead _ ih =>
    rw [List.flatten_cons, arsDTokens_word hw, ih]
    intro c hc
    cases toks with
    | nil => cases hc
    | cons tok toks =>
      obtain ⟨d, hd, rfl⟩ := hhead tok rfl
      obtain rfl := Option.some.inj hc
      exact hd

theorem Separated.append {toks toks' : List (List UInt8)} (h : Separated toks)
    (h' : Separated toks') (hhead : ∀ tok ∈ toks'.head?, IsMark tok) :
    Separated (toks ++ toks') := by
  induction h with
  | nil => exact h'
  | mark hc _ ih => exact .mark hc ih
  | @word w toks hw hmark _ ih =>
    refine .word hw (fun tok htok => ?_) ih
    cases toks with
    | nil => exact hhead tok htok
    | cons tok' toks => exact hmark tok htok

theorem isMark_lit {s : String} {c : UInt8} (hs : lit s = [c]) (hc : isDelim c = true) :
    IsMark (lit s) := ⟨c, hc, hs⟩

theorem separated_field {f : ApdField} (hname : IsWord f.name) (hvalue : IsWord f.value) :
    Separated f.tokens := by
  refine .word hname ?_ (.mark (by decide) (.word hvalue ?_ .nil))
  · rintro tok ⟨⟩
    exact isMark_lit rfl (by decide)
  · rintro tok ⟨⟩

theorem head?_moreTokens {fs : List ApdField} {trailing : Bool} :
    ∀ tok ∈ (moreTokens fs trailing).head?, IsMark tok := by
  have hcomma : IsMark (lit ",") := isMark_lit rfl (by decide)
  intro tok htok
  cases fs with
  | nil =>
    cases trailing with
    | false => cases htok
    | true =>
      obtain rfl := Option.some.inj htok
      exact hcomma
  | cons f fs =>
    rw [moreTokens_cons] at htok
    obtain rfl := Option.some.inj htok
    exact hcomma

theorem separated_fields {fs : List ApdField} (hfs : ∀ f ∈ fs, IsWord f.name ∧ IsWord f.value)
    (trailing : Bool) :
    Separated (moreTokens fs trailing) ∧ Separated (fieldsTokens fs trailing) := by
  induction fs with
  | nil =>
    refine ⟨?_, .nil⟩
    cases trailing with
    | false => exact .nil
    | true => exact .mark (by decide) .nil
  | cons f fs ih =>
    obtain ⟨hf, hfs⟩ := List.forall_mem_cons.mp hfs
    have hfield := (separated_field hf.1 hf.2).append (ih hfs).1 head?_moreTokens
    refine ⟨?_, hfield⟩
    rw [moreTokens_cons]
    exact .mark (by decide) hfield

theorem separated_layer {d : ApdLayer} (hd : d.Wf IsWord IsWord) : Separated d.tokens := by
  obtain ⟨kw, body⟩ := d
  refine .word hd.kw ?_ ?_
  · cases body with
    | none => exact fun tok htok => by cases htok
    | some b =>
      rintro tok ⟨⟩
      exact isMark_lit rfl (by decide)
  · cases body with
    | none => exact .nil
    | some b =>
      have hlen : Separated (lit ")" :: b.len.toList) := by
        refine .mark (by decide) ?_
        cases hb : b.len with
        | none => exact .nil
        | some w => exact .word (hd.len b rfl w hb) (fun tok htok => by cases htok) .nil
      refine .mark (by decide) ((separated_fields (hd.fields b rfl) b.trailing).2.append hlen ?_)
      rintro tok ⟨⟩
      exact isMark_lit rfl (by decide)

/-- **The tokens of a description** are those of its text. -/
theorem arsDTokens_apdText {ds : List ApdLayer} (hds : ∀ d ∈ ds, d.Wf IsWord IsWord) :
    arsDTokens (apdText ds) = apdTokens ds := by
  have hsep : Separated (moreLayerTokens ds) ∧ Separated (apdTokens ds) := by
    induction ds with
    | nil => exact ⟨.nil, .nil⟩
    | cons d ds ih =>
      obtain ⟨hd, hds⟩ := List.forall_mem_cons.mp hds
      have hlayers : Separated (apdTokens (d :: ds)) := by
        refine (separated_layer hd).append (ih hds).1 fun tok htok => ?_
        cases ds with
        | nil => cases htok
        | cons e ds =>
          rw [moreLayerTokens_cons] at htok
          obtain rfl := Option.some.inj htok
          exact isMark_lit rfl (by decide)
      refine ⟨?_, hlayers⟩
      rw [moreLayerTokens_cons]
      exact .mark (by decide) hlayers
  exact hsep.2.arsDTokens_flatten

/-! ### The words of a description that means something -/

section Words

variable {libc : Libc}

theorem setAll_names {k : ArsDKeywordInfo} (hk : k ∈ arsDkinfo) {fs : List ApdField}
    {l l' : ArsLayer} (h : setAll libc k fs l = .ok l') : ∀ f ∈ fs, ¬IsMark f.name := by
  induction fs generalizing l with
  | nil => exact fun f hf => absurd hf List.not_mem_nil
  | cons f fs ih =>
    rw [setAll_cons] at h
    cases hset : k.kiSet libc l f.name f.value with
    | error e =>
      rw [hset] at h
      cases h
    | ok l1 =>
      rw [hset, bind_ok] at h
      refine List.forall_mem_cons.mpr ⟨?_, ih h⟩
      rintro ⟨c, -, hc⟩
      rw [hc] at hset
      exact kiSet_mark hk hset

/-- A separator is no length. -/
theorem LenOk.not_isMark {len : Option (List UInt8)} {l : ArsLayer} (h : LenOk len l) :
    ∀ w ∈ len, ¬IsMark w := by
  rintro w hw ⟨c, hc, rfl⟩
  have hpos := (h _ hw).1
  have hzero : arsAtou [c] = 0 := by
    simp only [isDelim, decide_eq_true_eq] at hc
    rcases hc with rfl | rfl | rfl | rfl | rfl
    all_goals decide
  omega

/-- **The parts of a layer that means something** are words, if they are tokens; only its values
may be separators. -/
theorem ApdLayer.Valid.wf {d : ApdLayer} (hd : d.Valid libc) {n : ℕ}
    (htoks : ∀ w ∈ d.tokens, WordBelow n w ∨ IsMark w) :
    d.Wf (WordBelow n) fun v => WordBelow n v ∨ IsMark v := by
  obtain ⟨k, new, hk, -, hbody⟩ := hd
  obtain ⟨kw, body⟩ := d
  have hmem : ∀ b ∈ body, ∀ w ∈ b.tokens, WordBelow n w ∨ IsMark w := by
    rintro b rfl w hw
    exact htoks w (List.mem_cons_of_mem _ hw)
  refine ⟨?_, fun b hb f hf => ?_, fun b hb w hw => ?_⟩
  · refine (htoks kw List.mem_cons_self).resolve_right ?_
    rintro ⟨c, -, rfl⟩
    rw [kiKeyword_mark] at hk
    cases hk
  · obtain ⟨l, hall, -⟩ := hbody b hb
    have hfield : ∀ w ∈ f.tokens, w ∈ b.tokens := by
      intro w hw
      refine List.mem_cons_of_mem _ (List.mem_append_left _ ?_)
      obtain ⟨fs, trailing, len⟩ := b
      dsimp only at hf ⊢
      cases fs with
      | nil => exact absurd hf List.not_mem_nil
      | cons g fs =>
        rcases List.mem_cons.mp hf with rfl | hf
        · exact List.mem_append_left _ hw
        · refine List.mem_append_right _ (List.mem_append_left _ ?_)
          exact List.mem_flatMap.mpr ⟨f, hf, List.mem_cons_of_mem _ hw⟩
    refine ⟨(hmem b hb _ (hfield _ List.mem_cons_self)).resolve_right ?_,
      hmem b hb _ (hfield _ ?_)⟩
    · exact setAll_names (List.mem_of_find?_eq_some hk) hall f hf
    · simp [ApdField.tokens]
  · obtain ⟨l, -, hok⟩ := hbody b hb
    refine (hmem b hb w ?_).resolve_right (hok.not_isMark w hw)
    refine List.mem_cons_of_mem _ (List.mem_append_right _ (List.mem_cons_of_mem _ ?_))
    exact Option.mem_toList.mpr hw

end Words

/-! ### What the parser accepts -/

theorem ApdLayer.Wf.isWord {d : ApdLayer} {n : ℕ} (h : d.Wf (WordBelow n) (WordBelow n))
    (hn : n ≤ arsMaxTsize) : d.Wf IsWord IsWord where
  kw := h.kw.isWord hn
  fields b hb f hf := ⟨(h.fields b hb f hf).1.isWord hn, (h.fields b hb f hf).2.isWord hn⟩
  len b hb w hw := (h.len b hb w hw).isWord hn

/-- The tokens of a text that is described. -/
theorem Grammatical.arsDTokens {n : ℕ} {libc : Libc} {ds : List ApdLayer} {t : List UInt8}
    (h : Grammatical n libc ds t) (hn : n ≤ arsMaxTsize) : arsDTokens t = apdTokens ds := by
  rw [h.text]
  exact arsDTokens_apdText fun d hd => (h.wf d hd).isWord hn

end StyxWire
