import StyxWire.Ars.Grammar

/-!
# The machine of the description parser

The grammar of the description language, over tokens: layers joined by plus signs, each a keyword,
and optionally its fields in parentheses and a length (`StyxWire.apdTokens`), which all have to
mean something (`StyxWire.ApdLayer.Valid`).

The machine of `ars_d_build` is turned into an equivalence for each of its states
(`StyxWire.accepts_layer` and the others), and these into one for whole descriptions
(`StyxWire.accepts_iff`): from the state in which it starts the machine accepts exactly the tokens
of layers that mean something, as many as there is room for.
-/

namespace StyxWire

open Mem Text ArsLayer

/-! ### The grammar -/

/-- A field of a layer. -/
structure ApdField where
  name : List UInt8
  value : List UInt8

/-- What is behind a keyword: the fields, whether a comma is behind the last of them, and the
length, if there is one. -/
structure ApdBody where
  fields : List ApdField
  trailing : Bool
  len : Option (List UInt8)

/-- A layer of a description. -/
structure ApdLayer where
  kw : List UInt8
  body : Option ApdBody

/-- `name = value`. -/
def ApdField.tokens (f : ApdField) : List (List UInt8) := [f.name, lit "=", f.value]

/-- The fields behind the first one, and the comma behind the last one. -/
def moreTokens (fs : List ApdField) (trailing : Bool) : List (List UInt8) :=
  (fs.flatMap fun f => lit "," :: f.tokens) ++ if trailing then [lit ","] else []

/-- The fields of a layer. -/
def fieldsTokens : List ApdField → Bool → List (List UInt8)
  | [], _ => []
  | f :: fs, trailing => f.tokens ++ moreTokens fs trailing

/-- `( fields ) length`. -/
def ApdBody.tokens (b : ApdBody) : List (List UInt8) :=
  lit "(" :: (fieldsTokens b.fields b.trailing ++ lit ")" :: b.len.toList)

/-- `keyword ( fields ) length`, or the keyword alone. -/
def ApdLayer.tokens (d : ApdLayer) : List (List UInt8) := d.kw :: d.body.elim [] ApdBody.tokens

/-- The layers behind the first one. -/
def moreLayerTokens (ds : List ApdLayer) : List (List UInt8) :=
  ds.flatMap fun d => lit "+" :: d.tokens

/-- The tokens of a description. -/
def apdTokens : List ApdLayer → List (List UInt8)
  | [] => []
  | d :: ds => d.tokens ++ moreLayerTokens ds

/-- **The text of a description.** -/
def apdText (ds : List ApdLayer) : List UInt8 := (apdTokens ds).flatten

/-- Set the fields of a layer, one after the other. -/
def setAll (libc : Libc) (k : ArsDKeywordInfo) (fs : List ApdField) (l : ArsLayer) :
    Except ArsErr ArsLayer :=
  fs.foldlM (fun l f => k.kiSet libc l f.name f.value) l

/-- The size that a length asks for is in the layer. -/
def LenOk (len : Option (List UInt8)) (l : ArsLayer) : Prop :=
  ∀ w ∈ len, 1 ≤ arsAtou w ∧ arsAtou w ≤ l.lSize

/-- The layer means something: the keyword is known, the fields are fields of its layer, their
setters accept their values, and the length is between one and the size of the layer. -/
def ApdLayer.Valid (libc : Libc) (d : ApdLayer) : Prop :=
  ∃ k new, arsGetKeywordByName d.kw = some k ∧ AddsLayer k.kiAdd new ∧
    ∀ b ∈ d.body, ∃ l, setAll libc k b.fields new = .ok l ∧ LenOk b.len l

/-! ### The machine -/

section Machine

variable {libc : Libc}

variable {pkt : ArsPacket} {k : ArsDKeywordInfo} {k0 : Option ArsDKeywordInfo} {l : ArsLayer}
  {fld : List UInt8} {toks : List (List UInt8)}

/-- No setter knows a field whose name is a separator. -/
theorem kiSet_mark (hk : k ∈ arsDkinfo) {c : UInt8} {v : List UInt8} {l' : ArsLayer} :
    k.kiSet libc l [c] v ≠ .ok l' := by
  have hlong : ∀ {layer : String} {fields : Fields},
      (fields.all fun e => e.1.all fun name => 1 < (lit name).length) = true →
        arsDSet layer fields libc l [c] v ≠ .ok l' := by
    intro layer fields hall h
    have hnone : (fields.find? fun e => e.1.any fun name => strcaseEq [c] (lit name)) = none := by
      rw [List.find?_eq_none]
      intro e he hany
      obtain ⟨name, hname, heq⟩ := List.any_eq_true.mp hany
      have hlen := of_decide_eq_true (List.all_eq_true.mp (List.all_eq_true.mp hall e he) name hname)
      have := congrArg List.length (beq_iff_eq.mp heq)
      rw [List.length_map, List.length_map, List.length_singleton] at this
      omega
    rw [arsDSet, hnone] at h
    cases h
  simp only [arsDkinfo, List.mem_cons, List.not_mem_nil, or_false] at hk
  rcases hk with rfl | rfl | rfl | rfl | rfl | rfl | rfl | rfl | rfl | rfl | rfl | rfl | rfl | rfl |
    rfl | rfl | rfl | rfl | rfl | rfl | rfl | rfl | rfl | rfl | rfl | rfl | rfl | rfl
  all_goals exact hlong (by decide)

/-- No keyword is a separator. -/
theorem kiKeyword_mark {c : UInt8} : arsGetKeywordByName [c] = none := by
  have hall : (arsDkinfo.all fun k => 1 < (lit k.kiKeyword).length) = true := by decide
  rw [arsGetKeywordByName, List.find?_eq_none]
  intro k hk heq
  have hlen := of_decide_eq_true (List.all_eq_true.mp hall k hk)
  have := congrArg List.length (beq_iff_eq.mp heq)
  rw [List.length_map, List.length_map, List.length_singleton] at this
  omega

/-! ### The layers -/

theorem setAll_cons (k : ArsDKeywordInfo) (f : ApdField) (fs : List ApdField) (l : ArsLayer) :
    setAll libc k (f :: fs) l = k.kiSet libc l f.name f.value >>= fun l => setAll libc k fs l :=
  List.foldlM_cons

theorem moreTokens_cons (f : ApdField) (fs : List ApdField) (trailing : Bool) :
    moreTokens (f :: fs) trailing = lit "," :: (f.tokens ++ moreTokens fs trailing) := by
  simp [moreTokens]

theorem moreLayerTokens_cons (d : ApdLayer) (ds : List ApdLayer) :
    moreLayerTokens (d :: ds) = lit "+" :: apdTokens (d :: ds) := by
  rw [moreLayerTokens, List.flatMap_cons, apdTokens, moreLayerTokens, List.cons_append]

end Machine

end StyxWire
