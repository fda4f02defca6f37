import Mathlib.Data.List.Forall2
import StyxWire.Ars.Apd
import StyxWire.Ars.SplitSpec

/-!
# The meaning of a description

What a description says, apart from how it is written: a list of layers, each a keyword
and a list of fields (`StyxWire.LayerDesc`). `StyxWire.Builds` is its meaning: the layer
that one of them builds is a new layer of its keyword, with its fields set one after the
other.

The main result (`StyxWire.arsDBuild_iff`) is that `ars_d_build`, on the text of a list of
layers, builds what they mean and fails if they mean nothing. Text and machine are met
half way, at the tokens: those of a text are the expected ones (`StyxWire.arsDTokens_desc`)
if every name and every value is a word, and over them the machine goes from layer to
layer (`StyxWire.foldlM_layer`).
-/

namespace StyxWire

open Mem Text ArsLayer

/-! ### Tokens of a text -/

/-- A token of more than one kind of character: not empty, without delimiters, and not longer
than a token can be. -/
structure IsWord (w : List UInt8) : Prop where
  ne_nil : w ≠ []
  delim : ∀ c ∈ w, isDelim c = false
  length_lt : w.length < arsMaxTsize

instance (w : List UInt8) : Decidable (IsWord w) :=
  decidable_of_iff (w ≠ [] ∧ w.any isDelim = false ∧ w.length < arsMaxTsize)
    ⟨fun h => ⟨h.1, fun c hc => Bool.eq_false_iff.mpr (List.any_eq_false.mp h.2.1 c hc), h.2.2⟩,
      fun h => ⟨h.1, List.any_eq_false.mpr fun c hc => Bool.eq_false_iff.mp (h.2 c hc), h.3⟩⟩

theorem arsDWord_eq {w t : List UInt8} {n : ℕ} (hw : ∀ c ∈ w, isDelim c = false)
    (hn : w.length ≤ n) (ht : ∀ c ∈ t.head?, isDelim c = true) : arsDWord n (w ++ t) = (w, t) := by
  induction w generalizing n with
  | nil =>
    cases n with
    | zero => rfl
    | succ n =>
      cases t with
      | nil => rfl
      | cons c t => rw [List.nil_append, arsDWord, if_pos (ht c rfl)]
  | cons c w ih =>
    obtain ⟨m, rfl⟩ : ∃ m, n = m + 1 := ⟨n - 1, by rw [List.length_cons] at hn; omega⟩
    rw [List.length_cons] at hn
    have hc := hw c List.mem_cons_self
    rw [List.cons_append, arsDWord, if_neg (by simp [hc]),
      ih (fun d hd => hw d (List.mem_cons_of_mem _ hd)) (by omega)]

theorem arsDParser_word {w t : List UInt8} (hw : IsWord w) (ht : ∀ c ∈ t.head?, isDelim c = true) :
    arsDParser (w ++ t) arsMaxTsize = some (w, t) := by
  obtain ⟨hne, hdelim, hlen⟩ := hw
  have hword := @arsDWord_eq w t (arsMaxTsize - 1) hdelim (by omega) ht
  obtain ⟨c, w, rfl⟩ := List.exists_cons_of_ne_nil hne
  have hc := hdelim c List.mem_cons_self
  rw [List.cons_append, arsDParser, if_neg (by decide), if_neg (by simp [hc])]
  exact congrArg some hword

theorem arsDParser_delim {c : UInt8} (hc : isDelim c = true) (t : List UInt8) :
    arsDParser (c :: t) arsMaxTsize = some ([c], t) := by
  rw [arsDParser, if_neg (by decide), if_pos ⟨hc, by decide⟩]

theorem arsDWord_length (n : ℕ) (t : List UInt8) :
    (arsDWord n t).1.length + (arsDWord n t).2.length = t.length := by
  induction n generalizing t with
  | zero => simp [arsDWord]
  | succ n ih =>
    cases t with
    | nil => rfl
    | cons c t =>
      rw [arsDWord]
      split_ifs
      · simp
      · have := ih t
        simp only [List.length_cons]
        omega

/-- A token takes something of the text. -/
theorem arsDParser_length {t next rest : List UInt8}
    (h : arsDParser t arsMaxTsize = some (next, rest)) : rest.length < t.length := by
  cases t with
  | nil => cases h
  | cons c t =>
    rw [arsDParser, if_neg (by decide)] at h
    split_ifs at h with hc
    · obtain ⟨rfl, rfl⟩ := Prod.mk.inj (Option.some.inj h)
      exact Nat.lt_succ_self _
    · have hlen := arsDWord_length (arsMaxTsize - 1) (c :: t)
      have hone : isDelim c = false := by
        have h1 : 1 < arsMaxTsize := by decide
        simpa [h1] using hc
      have hne : 0 < (arsDWord (arsMaxTsize - 1) (c :: t)).1.length := by
        rw [show arsMaxTsize - 1 = 11998 + 1 from rfl, arsDWord, if_neg (by simp [hone])]
        exact Nat.succ_pos _
      rw [Option.some.inj h] at hlen hne
      exact lt_of_lt_of_le (Nat.lt_add_of_pos_left hne) hlen.le

/-- One token for each character is enough. -/
theorem arsDTokensFrom_eq {n : ℕ} {t : List UInt8} (h : t.length ≤ n) :
    arsDTokensFrom n t = arsDTokens t := by
  have key : ∀ n m (t : List UInt8), t.length ≤ n → t.length ≤ m →
      arsDTokensFrom n t = arsDTokensFrom m t := by
    intro n
    induction n with
    | zero =>
      intro m t hn _
      obtain rfl := List.length_eq_zero_iff.mp (Nat.le_zero.mp hn)
      cases m <;> rfl
    | succ n ih =>
      intro m t hn hm
      cases m with
      | zero =>
        obtain rfl := List.length_eq_zero_iff.mp (Nat.le_zero.mp hm)
        rfl
      | succ m =>
        rw [arsDTokensFrom, arsDTokensFrom]
        split
        · rfl
        · next next rest hp =>
          have := arsDParser_length hp
          rw [ih m rest (by omega) (by omega)]
  exact key n t.length t h (Nat.le_refl _)

theorem arsDTokens_of_arsDParser {t next rest : List UInt8}
    (h : arsDParser t arsMaxTsize = some (next, rest)) :
    arsDTokens t = next :: arsDTokens rest := by
  have hlen := arsDParser_length h
  obtain ⟨n, hn⟩ : ∃ n, t.length = n + 1 := ⟨t.length - 1, by omega⟩
  rw [arsDTokens, hn, arsDTokensFrom, h]
  exact congrArg _ (arsDTokensFrom_eq (by omega))

@[simp] theorem arsDTokens_nil : arsDTokens [] = [] := rfl

/-- **A delimiter is a token.** -/
theorem arsDTokens_delim {c : UInt8} (hc : isDelim c = true) (t : List UInt8) :
    arsDTokens (c :: t) = [c] :: arsDTokens t :=
  arsDTokens_of_arsDParser (arsDParser_delim hc t)

/-- **A word is a token** if a delimiter or nothing follows. -/
theorem arsDTokens_word {w t : List UInt8} (hw : IsWord w)
    (ht : ∀ c ∈ t.head?, isDelim c = true) : arsDTokens (w ++ t) = w :: arsDTokens t :=
  arsDTokens_of_arsDParser (arsDParser_word hw ht)

/-! ### Descriptions -/

/-- A field of a layer. -/
structure DField where
  /-- The name. -/
  name : String
  /-- The value. -/
  value : List UInt8

/-- A layer: a keyword, and the fields that are set. -/
structure LayerDesc where
  /-- The keyword. -/
  kw : String
  /-- The fields. -/
  fields : List DField

/-- A field and the comma after it. -/
def DField.text (f : DField) : List UInt8 := field f.name f.value

/-- `keyword(name=value,...,name=value)`. -/
def LayerDesc.text (d : LayerDesc) : List UInt8 :=
  lit d.kw ++ lit "(" ++ adbufRtrim (d.fields.map DField.text).flatten ++ lit ")"

/-- The layers, with a plus in between. -/
def descText (ds : List LayerDesc) : List UInt8 :=
  adbufRtrim (ds.map fun d => d.text ++ lit "+").flatten

/-- The tokens of a field and the comma after it. -/
def DField.tokens (f : DField) : List (List UInt8) := [lit f.name, lit "=", f.value, lit ","]

/-- The tokens of a layer. -/
def LayerDesc.tokens (d : LayerDesc) : List (List UInt8) :=
  [lit d.kw, lit "("] ++ (d.fields.flatMap DField.tokens).dropLast ++ [lit ")"]

/-- The names and the values are words. -/
structure DField.Wf (f : DField) : Prop where
  name : IsWord (lit f.name)
  value : IsWord f.value

@[inherit_doc DField.Wf]
structure LayerDesc.Wf (d : LayerDesc) : Prop where
  kw : IsWord (lit d.kw)
  fields : ∀ f ∈ d.fields, f.Wf

/-- The text of a field in front of another text. -/
theorem arsDTokens_field {f : DField} (hf : f.Wf) {c : UInt8} (hc : isDelim c = true)
    (t : List UInt8) :
    arsDTokens (lit f.name ++ lit "=" ++ f.value ++ c :: t) =
      lit f.name :: lit "=" :: f.value :: arsDTokens (c :: t) := by
  have heq : lit f.name ++ lit "=" ++ f.value ++ c :: t =
      lit f.name ++ (ch '=' :: (f.value ++ c :: t)) := by simp [lit]
  have hc' : ∀ d ∈ (c :: t).head?, isDelim d = true := by
    rintro d ⟨⟩
    exact hc
  rw [heq, arsDTokens_word hf.name (by rintro d ⟨⟩; decide), arsDTokens_delim (by decide),
    arsDTokens_word hf.value hc']
  rfl

/-- Fields with a comma after each. -/
theorem arsDTokens_fields {fs : List DField} (hfs : ∀ f ∈ fs, f.Wf) (t : List UInt8) :
    arsDTokens ((fs.map DField.text).flatten ++ t) = fs.flatMap DField.tokens ++ arsDTokens t := by
  induction fs with
  | nil => rfl
  | cons f fs ih =>
    have heq : ((f :: fs).map DField.text).flatten ++ t =
        lit f.name ++ lit "=" ++ f.value ++ ch ',' :: ((fs.map DField.text).flatten ++ t) := by
      simp [DField.text, field, lit]
    rw [heq, arsDTokens_field (hfs f List.mem_cons_self) (by decide), arsDTokens_delim (by decide),
      ih fun g hg => hfs g (List.mem_cons_of_mem _ hg)]
    rfl

theorem rtrim_fields (fs : List DField) (f : DField) :
    adbufRtrim ((fs ++ [f]).map DField.text).flatten =
      (fs.map DField.text).flatten ++ (lit f.name ++ lit "=" ++ f.value) := by
  have heq : ((fs ++ [f]).map DField.text).flatten =
      (fs.map DField.text).flatten ++ (lit f.name ++ lit "=" ++ f.value) ++ [ch ','] := by
    simp [DField.text, field, lit]
  rw [heq, adbufRtrim, List.dropLast_concat]

/-- **The tokens of a layer.** -/
theorem arsDTokens_layer {d : LayerDesc} (hd : d.Wf) (t : List UInt8) :
    arsDTokens (d.text ++ t) = d.tokens ++ arsDTokens t := by
  have hopen : ∀ s, arsDTokens (lit d.kw ++ ch '(' :: s) =
      lit d.kw :: lit "(" :: arsDTokens s := by
    intro s
    rw [arsDTokens_word hd.kw (by rintro c ⟨⟩; decide), arsDTokens_delim (by decide)]
    rfl
  rcases List.eq_nil_or_concat d.fields with hnil | ⟨fs, f, hfs⟩
  · have heq : d.text ++ t = lit d.kw ++ ch '(' :: (ch ')' :: t) := by
      simp [LayerDesc.text, hnil, adbufRtrim, lit]
    rw [heq, hopen, arsDTokens_delim (by decide), LayerDesc.tokens, hnil]
    rfl
  · rw [List.concat_eq_append] at hfs
    have hwf := hd.fields
    rw [hfs] at hwf
    have heq : d.text ++ t = lit d.kw ++ ch '(' ::
        ((fs.map DField.text).flatten ++ (lit f.name ++ lit "=" ++ f.value ++ ch ')' :: t)) := by
      rw [LayerDesc.text, hfs, rtrim_fields]
      simp [lit]
    rw [heq, hopen, arsDTokens_fields (fun g hg => hwf g (by simp [hg])),
      arsDTokens_field (hwf f (by simp)) (by decide), arsDTokens_delim (by decide),
      LayerDesc.tokens, hfs]
    simp [DField.tokens, lit]

/-- Layers with a plus after each. -/
theorem arsDTokens_layers {ds : List LayerDesc} (hds : ∀ d ∈ ds, d.Wf) (t : List UInt8) :
    arsDTokens ((ds.map fun d => d.text ++ lit "+").flatten ++ t) =
      ds.flatMap (fun d => d.tokens ++ [lit "+"]) ++ arsDTokens t := by
  induction ds with
  | nil => rfl
  | cons d ds ih =>
    have heq : ((d :: ds).map fun d => d.text ++ lit "+").flatten ++ t =
        d.text ++ ch '+' :: ((ds.map fun d => d.text ++ lit "+").flatten ++ t) := by
      simp [lit]
    rw [heq, arsDTokens_layer (hds d List.mem_cons_self), arsDTokens_delim (by decide),
      ih fun g hg => hds g (List.mem_cons_of_mem _ hg)]
    simp [lit]

theorem descText_concat (ds : List LayerDesc) (d : LayerDesc) :
    descText (ds ++ [d]) = (ds.map fun d => d.text ++ lit "+").flatten ++ d.text := by
  have heq : ((ds ++ [d]).map fun d => d.text ++ lit "+").flatten =
      (ds.map fun d => d.text ++ lit "+").flatten ++ d.text ++ [ch '+'] := by
    simp [lit]
  rw [descText, heq, adbufRtrim, List.dropLast_concat]

/-- **The tokens of a description.** -/
theorem arsDTokens_desc {ds : List LayerDesc} {d : LayerDesc} (hds : ∀ d ∈ ds, d.Wf)
    (hd : d.Wf) :
    arsDTokens (descText (ds ++ [d])) =
      ds.flatMap (fun d => d.tokens ++ [lit "+"]) ++ d.tokens := by
  have h := arsDTokens_layer hd []
  rw [List.append_nil, arsDTokens_nil, List.append_nil] at h
  rw [descText_concat, arsDTokens_layers hds, h]


/-! ### The layers that are added -/

/-- `add` appends the layer `l`, unless the packet is full. -/
def AddsLayer (add : ArsPacket → Except ArsErr ArsPacket) (l : ArsLayer) : Prop :=
  ∀ pkt : ArsPacket, pkt.NoDefault → add pkt =
    if h : pkt.pLayer.length < arsMaxLayer then .ok (pkt.push l h)
    else .error (.ars .nospace (lit "No space for the next layer"))

theorem AddsLayer.unique {add : ArsPacket → Except ArsErr ArsPacket} {l l' : ArsLayer}
    (h : AddsLayer add l) (h' : AddsLayer add l') : l = l' := by
  have heq := (h arsInit fun _ => rfl).symm.trans (h' arsInit fun _ => rfl)
  have hroom : arsInit.pLayer.length < arsMaxLayer := by decide
  rw [dif_pos hroom, dif_pos hroom] at heq
  have hlayers := congrArg ArsPacket.pLayer (Except.ok.inj heq)
  exact List.singleton_injective hlayers

theorem addsLayer_generic {size : ℕ} {t : ArsType} (h : t.hdrSize ≤ size) :
    AddsLayer (fun pkt => arsAddGeneric pkt size t h)
      (full t 0 (List.replicate size 0) (by simpa using h)) :=
  fun _ hdef => arsAddGeneric_eq hdef h

theorem AddsLayer.map {add : ArsPacket → Except ArsErr ArsPacket} {l : ArsLayer}
    (h : AddsLayer add l) (f : ArsPacket → ArsPacket) (g : ArsLayer → ArsLayer)
    (hf : ∀ (pkt : ArsPacket) l h, f (pkt.push l h) = pkt.push (g l) h) :
    AddsLayer (fun pkt => (add pkt).map f) (g l) := by
  intro pkt hdef
  dsimp only
  rw [h pkt hdef]
  split_ifs with hroom
  · exact congrArg Except.ok (hf pkt l hroom)
  · rfl

theorem AddsLayer.bind {add : ArsPacket → Except ArsErr ArsPacket} {l l' : ArsLayer}
    (h : AddsLayer add l) {k : ArsPacket → Except ArsErr ArsPacket}
    (hk : ∀ (p : ArsPacket) h, k (p.push l h) = .ok (p.push l' h)) :
    AddsLayer (fun pkt => add pkt >>= k) l' := by
  intro pkt hdef
  dsimp only
  rw [h pkt hdef]
  split_ifs with hroom
  · exact hk pkt hroom
  · rfl

/-- A new IP option, of `n` bytes. -/
def ipoptNew (option n : ℕ) : ArsLayer :=
  let l := (full .ipopt 0 (List.replicate n 0) (ArsType.hdrSize_le rfl _)).write 0 [UInt8.ofNat option]
  if option = arsIpoptEnd ∨ option = arsIpoptNoop then l
  else
    let l := l.write 1 [UInt8.ofNat n]
    if option = arsIpoptLsrr ∨ option = arsIpoptSsrr ∨ option = arsIpoptRr then
      (l.write 1 [UInt8.ofNat (n - 2 - 3)]).write 2 [4]
    else if option = arsIpoptTimestamp then
      ((l.write 1 [UInt8.ofNat (n - 2 - 4)]).write 2 [5]).write 3 [0]
    else l

theorem addsLayer_ipopt {option n : ℕ} (hn : arsIpoptLen option = some n) :
    AddsLayer (arsAddIpopt · option) (ipoptNew option n) := by
  simp only [arsAddIpopt, hn]
  refine (addsLayer_generic _).bind fun p h => ?_
  simp only [writeLast_push, ipoptNew]
  split_ifs
  all_goals rfl

/-- A new TCP option, of `n` bytes. -/
def tcpoptNew (option n : ℕ) : ArsLayer :=
  let l := (full .tcpopt 0 (List.replicate n 0) (ArsType.hdrSize_le rfl _)).write 0 [UInt8.ofNat option]
  let l :=
    if option ≠ arsTcpoptEol ∧ option ≠ arsTcpoptNop then l.write 1 [UInt8.ofNat n] else l
  if option = arsTcpoptEchorequest ∨ option = arsTcpoptEchoreply then
    l.write 2 (List.replicate 4 0)
  else if option = arsTcpoptTimestamp then l.write 2 (List.replicate 8 0)
  else l

theorem addsLayer_tcpopt {option n : ℕ} (hn : arsTcpoptLen option = some n) :
    AddsLayer (arsAddTcpopt · option) (tcpoptNew option n) := by
  simp only [arsAddTcpopt, hn]
  refine (addsLayer_generic _).bind fun p h => ?_
  rw [tcpoptNew]
  by_cases hkind : option ≠ arsTcpoptEol ∧ option ≠ arsTcpoptNop
  · simp only [if_pos hkind, writeLast_push]
    split_ifs
    all_goals rfl
  · simp only [if_neg hkind, writeLast_push]
    split_ifs
    all_goals rfl

theorem exists_addsLayer_hdr {size : ℕ} {t : ArsType} (h : t.hdrSize ≤ size) (off off' : ℕ)
    (src src' : List UInt8) :
    ∃ l, AddsLayer (fun pkt => (arsAddGeneric pkt size t h).map fun pkt =>
      (pkt.writeLast off src).writeLast off' src') l :=
  ⟨_, (addsLayer_generic h).map _ (fun l => (l.write off src).write off' src')
    fun _ _ h => by rw [writeLast_push, writeLast_push]⟩

/-- **Each keyword adds one layer**, always the same. -/
theorem exists_addsLayer {k : ArsDKeywordInfo} (hk : k ∈ arsDkinfo) :
    ∃ l, AddsLayer k.kiAdd l := by
  have hgen : ∀ {size : ℕ} {t : ArsType} (h : t.hdrSize ≤ size),
      ∃ l, AddsLayer (fun pkt => arsAddGeneric pkt size t h) l :=
    fun h => ⟨_, addsLayer_generic h⟩
  have hwrite : ∀ {size : ℕ} {t : ArsType} (h : t.hdrSize ≤ size) (off : ℕ) (src : List UInt8),
      ∃ l, AddsLayer (fun pkt => (arsAddGeneric pkt size t h).map (·.writeLast off src)) l :=
    fun h off src => ⟨_, (addsLayer_generic h).map _ (·.write off src) fun _ _ h =>
      writeLast_push h off src⟩
  simp only [arsDkinfo, List.mem_cons, List.not_mem_nil, or_false] at hk
  rcases hk with rfl | rfl | rfl | rfl | rfl | rfl | rfl | rfl | rfl | rfl | rfl | rfl | rfl | rfl |
    rfl | rfl | rfl | rfl | rfl | rfl | rfl | rfl | rfl | rfl | rfl | rfl | rfl | rfl
  all_goals dsimp only
  all_goals first
    | exact hgen _
    | exact hwrite _ _ _
    | exact exists_addsLayer_hdr _ _ _ _ _
    | exact ⟨_, addsLayer_ipopt rfl⟩
    | exact ⟨_, addsLayer_tcpopt rfl⟩

/-! ### The meaning -/

/-- Set the fields of a layer, one after the other. -/
def setFields (libc : Libc) (k : ArsDKeywordInfo) (fs : List DField) (l : ArsLayer) :
    Except ArsErr ArsLayer :=
  fs.foldlM (fun l f => k.kiSet libc l (lit f.name) f.value) l

theorem setFields_cons (libc : Libc) (k : ArsDKeywordInfo) (f : DField) (fs : List DField)
    (l : ArsLayer) :
    setFields libc k (f :: fs) l =
      k.kiSet libc l (lit f.name) f.value >>= fun l => setFields libc k fs l :=
  List.foldlM_cons

/-- One field, whose setter is `s`. -/
theorem setFields_single {libc : Libc} {k : ArsDKeywordInfo} {name : String} {v : List UInt8}
    (s : Setter) (hs : ∀ l, k.kiSet libc l (lit name) v = s libc v l) (l : ArsLayer) :
    setFields libc k [⟨name, v⟩] l = s libc v l := by
  rw [setFields_cons, hs]
  cases s libc v l <;> rfl

theorem setFields_append (libc : Libc) (k : ArsDKeywordInfo) (fs gs : List DField)
    (l : ArsLayer) :
    setFields libc k (fs ++ gs) l =
      setFields libc k fs l >>= fun l => setFields libc k gs l :=
  List.foldlM_append

/-- **The meaning of a layer**: a new layer of the keyword, with the fields set. -/
def LayerDesc.build (libc : Libc) (d : LayerDesc) : Except ArsErr ArsLayer :=
  match arsGetKeywordByName (lit d.kw) with
  | none => arsFailText .invalid (lit "Unknown keyword: '" ++ lit d.kw ++ lit "'")
  | some k =>
    match k.kiAdd arsInit with
    | .ok ⟨[l], _, _, _, _, _⟩ => setFields libc k d.fields l
    | _ => .error .oob

/-- The layer builds `l`. -/
def Builds (libc : Libc) (d : LayerDesc) (l : ArsLayer) : Prop := d.build libc = .ok l

/-- A layer whose keyword is not known builds nothing. -/
theorem not_builds {libc : Libc} {d : LayerDesc} (hk : arsGetKeywordByName (lit d.kw) = none)
    (l : ArsLayer) : ¬Builds libc d l := by
  intro hl
  rw [Builds, LayerDesc.build, hk] at hl
  cases hl

theorem build_eq {libc : Libc} {d : LayerDesc} {k : ArsDKeywordInfo} {l : ArsLayer}
    (hk : arsGetKeywordByName (lit d.kw) = some k) (hl : AddsLayer k.kiAdd l) :
    d.build libc = setFields libc k d.fields l := by
  have hroom : arsInit.pLayer.length < arsMaxLayer := by decide
  rw [LayerDesc.build, hk]
  dsimp only
  rw [hl arsInit fun _ => rfl, dif_pos hroom]
  rfl

theorem updateLast_push {pkt : ArsPacket} {l : ArsLayer} (h : pkt.pLayer.length < arsMaxLayer)
    (f : ArsLayer → Except ArsErr ArsLayer) :
    (pkt.push l h).updateLast f = (f l).map fun l' => pkt.push l' h := by
  have hlast : (pkt.push l h).pLayer.getLast? = some l := by simp [ArsPacket.push]
  rw [ArsPacket.updateLast, hlast]
  dsimp only
  cases f l with
  | error e => rfl
  | ok l' => exact congrArg Except.ok (mapLast_push h _)

theorem IsWord.ne_delim {w : List UInt8} (hw : IsWord w) {s : String}
    (hs : ∃ c, lit s = [c] ∧ isDelim c = true) : w ≠ lit s := by
  rintro rfl
  obtain ⟨c, hc, hdelim⟩ := hs
  have := hw.delim c (by rw [hc]; exact List.mem_cons_self)
  rw [hdelim] at this
  cases this

/-! ### The machine -/

section Machine

variable {libc : Libc}

/-- The name of the last field. -/
def lastField (fs : List DField) (fld : List UInt8) : List UInt8 :=
  fs.foldl (fun _ f => lit f.name) fld

/-- A field, up to its value. -/
theorem foldlM_field {f : DField} (hname : IsWord (lit f.name)) {pkt : ArsPacket}
    (h : pkt.pLayer.length < arsMaxLayer) (k : ArsDKeywordInfo) (l : ArsLayer)
    (fld v : List UInt8) :
    [lit f.name, lit "=", v].foldlM (arsDStep libc) ⟨pkt.push l h, .fieldOrCbrace, some k, fld⟩ =
      (k.kiSet libc l (lit f.name) v).map fun l' =>
        ⟨pkt.push l' h, .commaOrCbrace, some k, lit f.name⟩ := by
  have hne : lit f.name ≠ lit ")" := hname.ne_delim ⟨_, rfl, by decide⟩
  rw [List.foldlM_cons, arsDStep]
  dsimp only
  rw [if_neg hne, bind_ok, List.foldlM_cons, arsDStep]
  dsimp only
  rw [if_neg (not_not.mpr rfl), bind_ok, List.foldlM_cons, arsDStep]
  dsimp only
  rw [updateLast_push]
  cases k.kiSet libc l (lit f.name) v <;> rfl

/-- **Fields with a comma after each** are set one after the other. -/
theorem foldlM_fields {fs : List DField} (hfs : ∀ f ∈ fs, f.Wf) {pkt : ArsPacket}
    (h : pkt.pLayer.length < arsMaxLayer) (k : ArsDKeywordInfo) (l : ArsLayer)
    (fld : List UInt8) :
    (fs.flatMap DField.tokens).foldlM (arsDStep libc)
        ⟨pkt.push l h, .fieldOrCbrace, some k, fld⟩ =
      (setFields libc k fs l).map fun l' =>
        ⟨pkt.push l' h, .fieldOrCbrace, some k, lastField fs fld⟩ := by
  induction fs generalizing l fld with
  | nil => rfl
  | cons f fs ih =>
    have hsplit : (f :: fs).flatMap DField.tokens =
        [lit f.name, lit "=", f.value] ++ lit "," :: fs.flatMap DField.tokens := by
      simp [DField.tokens]
    rw [hsplit, List.foldlM_append, foldlM_field (hfs f List.mem_cons_self).name, setFields_cons]
    cases hset : k.kiSet libc l (lit f.name) f.value with
    | error e => rfl
    | ok l' =>
      rw [bind_ok]
      exact ih (fun g hg => hfs g (List.mem_cons_of_mem _ hg)) l' (lit f.name)

/-- A keyword and the brace: a new layer. -/
theorem foldlM_open {kw : String} {k : ArsDKeywordInfo} {l : ArsLayer}
    (hk : arsGetKeywordByName (lit kw) = some k) (hl : AddsLayer k.kiAdd l) {pkt : ArsPacket}
    (hdef : pkt.NoDefault) (hroom : pkt.pLayer.length < arsMaxLayer)
    (k0 : Option ArsDKeywordInfo) (fld : List UInt8) (toks : List (List UInt8)) :
    ([lit kw, lit "("] ++ toks).foldlM (arsDStep libc) ⟨pkt, .layer, k0, fld⟩ =
      toks.foldlM (arsDStep libc) ⟨pkt.push l hroom, .fieldOrCbrace, some k, fld⟩ := by
  rw [List.cons_append, List.foldlM_cons, arsDStep]
  dsimp only
  rw [hk]
  dsimp only
  rw [hl pkt hdef, dif_pos hroom]
  rfl

/-- A word that is no keyword. -/
theorem foldlM_unknown {kw : String} (hk : arsGetKeywordByName (lit kw) = none) (pkt : ArsPacket)
    (k0 : Option ArsDKeywordInfo) (fld : List UInt8) (toks : List (List UInt8)) :
    ∃ e, (lit kw :: toks).foldlM (arsDStep libc) ⟨pkt, .layer, k0, fld⟩ = .error e := by
  rw [List.foldlM_cons, arsDStep]
  dsimp only
  rw [hk]
  exact ⟨_, rfl⟩

/-- **A layer**: what it means is appended to the packet. -/
theorem foldlM_layer {d : LayerDesc} (hd : d.Wf) {pkt : ArsPacket} (hdef : pkt.NoDefault)
    (hroom : pkt.pLayer.length < arsMaxLayer) (k0 : Option ArsDKeywordInfo) (fld : List UInt8) :
    (∃ l pkt' k fld', Builds libc d l ∧ Extends pkt [l] pkt' ∧
      d.tokens.foldlM (arsDStep libc) ⟨pkt, .layer, k0, fld⟩ = .ok ⟨pkt', .lenOrPlus, k, fld'⟩) ∨
    (¬∃ l, Builds libc d l) ∧
      ∃ e, d.tokens.foldlM (arsDStep libc) ⟨pkt, .layer, k0, fld⟩ = .error e := by
  cases hk : arsGetKeywordByName (lit d.kw) with
  | none =>
    refine Or.inr ⟨?_, foldlM_unknown hk pkt k0 fld _⟩
    rintro ⟨l, hl⟩
    exact not_builds hk l hl
  | some k =>
    obtain ⟨l0, hadd⟩ := exists_addsLayer (List.mem_of_find?_eq_some hk)
    have hbuild := @build_eq libc d k l0 hk hadd
    have hrun : d.tokens.foldlM (arsDStep libc) ⟨pkt, .layer, k0, fld⟩ =
        (d.build libc).map fun l =>
          ⟨pkt.push l hroom, .lenOrPlus, some k, lastField d.fields fld⟩ := by
      rw [hbuild, LayerDesc.tokens, List.append_assoc, foldlM_open hk hadd hdef hroom]
      rcases List.eq_nil_or_concat d.fields with hnil | ⟨fs, f, hfs⟩
      · rw [hnil]
        rfl
      · rw [List.concat_eq_append] at hfs
        have hwf := hd.fields
        rw [hfs] at hwf
        have htoks : ((fs ++ [f]).flatMap DField.tokens).dropLast ++ [lit ")"] =
            fs.flatMap DField.tokens ++ ([lit f.name, lit "=", f.value] ++ [lit ")"]) := by
          simp [DField.tokens]
        rw [hfs, htoks, List.foldlM_append, foldlM_fields fun g hg => hwf g (by simp [hg]),
          setFields_append]
        cases setFields libc k fs l0 with
        | error e => rfl
        | ok l1 =>
          rw [bind_ok, setFields_cons, Except.map, bind_ok, List.foldlM_append, foldlM_field (hwf f (by simp)).name]
          cases k.kiSet libc l1 (lit f.name) f.value with
          | error e => rfl
          | ok l2 =>
            rw [lastField, List.foldl_append]
            rfl
    rw [hrun]
    cases hb : d.build libc with
    | error e =>
      refine Or.inr ⟨?_, e, rfl⟩
      rintro ⟨l, hl⟩
      rw [Builds, hb] at hl
      cases hl
    | ok l => exact Or.inl ⟨l, _, _, _, hb, extends_push hroom, rfl⟩

theorem arsDStep_plus (pkt : ArsPacket) (k : Option ArsDKeywordInfo) (fld : List UInt8) :
    arsDStep libc ⟨pkt, .lenOrPlus, k, fld⟩ (lit "+") = .ok ⟨pkt, .layer, k, fld⟩ := rfl

/-- **Layers with a plus after each.** -/
theorem foldlM_layers {ds : List LayerDesc} (hds : ∀ d ∈ ds, d.Wf) {pkt : ArsPacket}
    (hdef : pkt.NoDefault) (hroom : pkt.pLayer.length + ds.length ≤ arsMaxLayer)
    (k0 : Option ArsDKeywordInfo) (fld : List UInt8) :
    (∃ ls pkt' k fld', List.Forall₂ (Builds libc) ds ls ∧ Extends pkt ls pkt' ∧
      (ds.flatMap fun d => d.tokens ++ [lit "+"]).foldlM (arsDStep libc) ⟨pkt, .layer, k0, fld⟩ =
        .ok ⟨pkt', .layer, k, fld'⟩) ∨
    (¬∃ ls, List.Forall₂ (Builds libc) ds ls) ∧
      ∃ e, (ds.flatMap fun d => d.tokens ++ [lit "+"]).foldlM (arsDStep libc)
        ⟨pkt, .layer, k0, fld⟩ = .error e := by
  induction ds generalizing pkt k0 fld with
  | nil => exact Or.inl ⟨[], pkt, k0, fld, .nil, ⟨(List.append_nil _).symm, rfl⟩, rfl⟩
  | cons d ds ih =>
    rw [List.length_cons] at hroom
    have hwf := hds d List.mem_cons_self
    rw [List.flatMap_cons, List.append_assoc, List.foldlM_append]
    rcases foldlM_layer hwf hdef (by omega) k0 fld with
      ⟨l, pkt1, k1, fld1, hl, hext, hok⟩ | ⟨hno, e, herr⟩
    · rw [hok, bind_ok, List.cons_append, List.nil_append, List.foldlM_cons, arsDStep_plus, bind_ok]
      have hlen := hext.length
      rw [List.length_singleton] at hlen
      rcases ih (fun g hg => hds g (List.mem_cons_of_mem _ hg)) (hext.noDefault hdef)
        (by omega) k1 fld1 with ⟨ls, pkt2, k2, fld2, hls, hext2, hok2⟩ | ⟨hno, e, herr⟩
      · exact Or.inl ⟨l :: ls, pkt2, k2, fld2, .cons hl hls, hext.trans hext2, hok2⟩
      · refine Or.inr ⟨?_, e, herr⟩
        rintro ⟨_, hls⟩
        cases hls with
        | cons _ hls => exact hno ⟨_, hls⟩
    · rw [herr]
      refine Or.inr ⟨?_, e, rfl⟩
      rintro ⟨_, hls⟩
      cases hls with
      | cons hl _ => exact hno ⟨_, hl⟩

/-- What follows some layers fails wherever it starts: all of it fails. -/
theorem foldlM_layers_error {ds : List LayerDesc} (hds : ∀ d ∈ ds, d.Wf) {pkt : ArsPacket}
    (hdef : pkt.NoDefault) (hroom : pkt.pLayer.length + ds.length ≤ arsMaxLayer)
    {k0 : Option ArsDKeywordInfo} {fld : List UInt8} {toks : List (List UInt8)}
    (h : ∀ (pkt' : ArsPacket) k fld', pkt'.NoDefault →
      pkt'.pLayer.length = pkt.pLayer.length + ds.length →
      ∃ e, toks.foldlM (arsDStep libc) ⟨pkt', .layer, k, fld'⟩ >>= arsDFinish = .error e) :
    ∃ e, ((ds.flatMap fun d => d.tokens ++ [lit "+"]) ++ toks).foldlM (arsDStep libc)
      ⟨pkt, .layer, k0, fld⟩ >>= arsDFinish = .error e := by
  rw [List.foldlM_append]
  rcases foldlM_layers hds hdef hroom k0 fld with
    ⟨ls, pkt', k, fld', hls, hext, hok⟩ | ⟨-, e, herr⟩
  · rw [hok, bind_ok]
    exact h pkt' k fld' (hext.noDefault hdef) (by rw [hext.length, hls.length_eq])
  · rw [herr]
    exact ⟨e, rfl⟩

/-- **A value that is missing** is fatal: the delimiter after it is taken for the value, and
then a comma or a brace is missing. -/
theorem foldlM_no_value {kw : String} {fs : List DField} (hfs : ∀ f ∈ fs, f.Wf) {name : String}
    (hname : IsWord (lit name)) (v : List UInt8) {toks : List (List UInt8)}
    (htoks : ∀ t ∈ toks.head?, t ≠ lit ")" ∧ t ≠ lit ",") {pkt : ArsPacket}
    (hdef : pkt.NoDefault) (hroom : pkt.pLayer.length < arsMaxLayer)
    (k0 : Option ArsDKeywordInfo) (fld : List UInt8) :
    ∃ e, ([lit kw, lit "("] ++ (fs.flatMap DField.tokens ++
      ([lit name, lit "=", v] ++ toks))).foldlM (arsDStep libc) ⟨pkt, .layer, k0, fld⟩ >>=
        arsDFinish = .error e := by
  cases hk : arsGetKeywordByName (lit kw) with
  | none =>
    obtain ⟨e, he⟩ := @foldlM_unknown libc kw hk pkt k0 fld
      (lit "(" :: (fs.flatMap DField.tokens ++ ([lit name, lit "=", v] ++ toks)))
    refine ⟨e, ?_⟩
    rw [List.cons_append, List.singleton_append, he]
    rfl
  | some k =>
    obtain ⟨l0, hadd⟩ := exists_addsLayer (List.mem_of_find?_eq_some hk)
    rw [foldlM_open hk hadd hdef hroom, List.foldlM_append, foldlM_fields hfs]
    cases setFields libc k fs l0 with
    | error e => exact ⟨e, rfl⟩
    | ok l1 =>
      rw [Except.map, bind_ok, List.foldlM_append, @foldlM_field libc ⟨name, v⟩ hname]
      cases k.kiSet libc l1 (lit name) v with
      | error e => exact ⟨e, rfl⟩
      | ok l2 =>
        rw [Except.map, bind_ok]
        cases toks with
        | nil => exact ⟨_, rfl⟩
        | cons t toks =>
          obtain ⟨h1, h2⟩ := htoks t rfl
          rw [List.foldlM_cons, arsDStep]
          dsimp only
          rw [if_neg h1, if_neg h2]
          exact ⟨_, rfl⟩

/-- **The machine computes the meaning**: on the text of a list of layers, it builds what
they mean, and fails if one of them means nothing. -/
theorem arsDBuild_iff {ds : List LayerDesc} (hne : ds ≠ []) (hds : ∀ d ∈ ds, d.Wf)
    (hlen : ds.length ≤ arsMaxLayer) {ls : List ArsLayer} :
    (∃ pkt, arsDBuild libc arsInit (descText ds) = .ok pkt ∧ pkt.pLayer = ls) ↔
      List.Forall₂ (Builds libc) ds ls := by
  obtain ⟨ds, d, rfl⟩ : ∃ ds' d, ds = ds' ++ [d] := by
    rcases List.eq_nil_or_concat ds with hnil | ⟨ds', d, h⟩
    · exact absurd hnil hne
    · exact ⟨ds', d, by rw [h, List.concat_eq_append]⟩
  have hds' : ∀ g ∈ ds, g.Wf := fun g hg => hds g (List.mem_append_left _ hg)
  have hd : d.Wf := hds d (by simp)
  have hinit : arsInit.pLayer.length = 0 := rfl
  rw [List.length_append, List.length_singleton] at hlen
  rw [arsDBuild, arsDTokens_desc hds' hd, List.foldlM_append]
  rcases @foldlM_layers libc ds hds' arsInit (fun _ => rfl) (by omega) none [] with
    ⟨ls1, pkt1, k1, fld1, hls1, hext1, hok1⟩ | ⟨hno, e, herr⟩
  · rw [hok1, bind_ok]
    have hlen1 := hext1.length
    have hlayers := hext1.layers
    rw [← hls1.length_eq] at hlen1
    rcases @foldlM_layer libc d hd pkt1 (hext1.noDefault fun _ => rfl) (by omega) k1 fld1 with
      ⟨l, pkt2, k2, fld2, hl, hext2, hok2⟩ | ⟨hno, e, herr⟩
    · rw [hok2]
      have hall : List.Forall₂ (Builds libc) (ds ++ [d]) (ls1 ++ [l]) :=
        List.rel_append hls1 (.cons hl .nil)
      have hpkt : pkt2.pLayer = ls1 ++ [l] := by
        rw [hext2.layers, hlayers]
        rfl
      constructor
      · rintro ⟨pkt, hpkt', rfl⟩
        obtain rfl : pkt2 = pkt := Except.ok.inj hpkt'
        rwa [hpkt]
      · rintro h
        have hfun : Relator.RightUnique (Builds libc) :=
          fun _ _ _ h h' => Except.ok.inj (h.symm.trans h')
        exact ⟨pkt2, rfl, hpkt.trans (List.right_unique_forall₂' hfun hall h)⟩
    · rw [herr]
      constructor
      · rintro ⟨pkt, hpkt, -⟩
        cases hpkt
      · rintro h
        have hlast := List.forall₂_drop_append _ _ _ h.flip
        generalize ls.drop ds.length = ms at hlast
        cases hlast with
        | cons hl _ => exact absurd ⟨_, hl⟩ hno
  · rw [herr]
    constructor
    · rintro ⟨pkt, hpkt, -⟩
      cases hpkt
    · rintro h
      exact absurd ⟨_, (List.forall₂_take_append _ _ _ h.flip).flip⟩ hno

/-- One layer, whose keyword is known. -/
theorem arsDBuild_single_iff {d : LayerDesc} (hd : d.Wf) {k : ArsDKeywordInfo} {new l : ArsLayer}
    (hk : arsGetKeywordByName (lit d.kw) = some k) (hadd : AddsLayer k.kiAdd new) :
    (∃ pkt, arsDBuild libc arsInit (descText [d]) = .ok pkt ∧ pkt.pLayer = [l]) ↔
      setFields libc k d.fields new = .ok l := by
  have hds : ∀ g ∈ [d], g.Wf := fun g hg => List.mem_singleton.mp hg ▸ hd
  have hlen : [d].length ≤ arsMaxLayer := by
    rw [List.length_singleton]
    decide
  rw [arsDBuild_iff (List.cons_ne_nil d []) hds hlen, ← build_eq hk hadd]
  constructor
  · intro h
    cases h with
    | cons hl _ => exact hl
  · exact fun hl => .cons hl .nil

end Machine

end StyxWire
