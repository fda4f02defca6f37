import Mathlib.Data.List.Forall2
import StyxWire.Lib.Decoder
import StyxWire.Lib.Text

/-!
# JSON

The grammar of RFC 8259, with the value that each text has, and a decoder.

A text is a list of bytes. A character is told by its number; those of 128 and up are taken as
they are, byte by byte, as nothing in the grammar depends on them. A number is a mantissa and a
power of ten, and an object is the list of its members, in order, with no duplicate left out.

`Json.decode` is sound for the grammar (`Json.decode_sound`): what it gives is a value of the
text, so in particular the text is a JSON text.
-/

namespace Json

open Text Decoder

/-- A JSON value. -/
inductive Value where
  | null
  | bool (b : Bool)
  /-- `mantissa * 10 ^ exponent`. -/
  | number (mantissa exponent : ℤ)
  | string (chars : List ℕ)
  | array (elements : List Value)
  | object (members : List (List ℕ × Value))

/-! ### The grammar -/

/-- A byte of white space. -/
def isWs (c : UInt8) : Bool := c == 0x20 || c == 0x09 || c == 0x0A || c == 0x0D

/-- White space. -/
def IsWs (t : List UInt8) : Prop := ∀ c ∈ t, isWs c = true

/-- What the letter behind a backslash stands for. -/
def escaped (c : UInt8) : Option ℕ :=
  if c = ch '"' then some 0x22
  else if c = ch '\\' then some 0x5C
  else if c = ch '/' then some 0x2F
  else if c = ch 'b' then some 0x08
  else if c = ch 'f' then some 0x0C
  else if c = ch 'n' then some 0x0A
  else if c = ch 'r' then some 0x0D
  else if c = ch 't' then some 0x09
  else none

/-- A hexadecimal digit. -/
def isHex (c : UInt8) : Bool := digitVal c < 16

/-- A character of a string. -/
inductive IsChar : ℕ → List UInt8 → Prop
  | unescaped {c : UInt8} (hquote : c ≠ ch '"') (hescape : c ≠ ch '\\') (hprint : 0x20 ≤ c) :
      IsChar c.toNat [c]
  | escape {c : UInt8} {n : ℕ} (h : escaped c = some n) : IsChar n [ch '\\', c]
  | hex {a b c d : UInt8} (h : ∀ x ∈ [a, b, c, d], isHex x = true) :
      IsChar (readNat 16 [a, b, c, d] 0) [ch '\\', ch 'u', a, b, c, d]

/-- The characters of a string. -/
inductive IsChars : List ℕ → List UInt8 → Prop
  | nil : IsChars [] []
  | cons {n : ℕ} {ns : List ℕ} {t t' : List UInt8} (h : IsChar n t) (hs : IsChars ns t') :
      IsChars (n :: ns) (t ++ t')

/-- A string. -/
def IsString (ns : List ℕ) (t : List UInt8) : Prop :=
  ∃ body, IsChars ns body ∧ t = ch '"' :: (body ++ [ch '"'])

/-- One digit or more. -/
def IsDigits (t : List UInt8) : Prop := t ≠ [] ∧ ∀ c ∈ t, isDigit c = true

/-- The part of a number in front of the point: a zero comes alone. -/
def IsInt (t : List UInt8) : Prop := IsDigits t ∧ (t.head? = some (ch '0') → t.length = 1)

/-- The digits behind the point, if there is one. -/
def IsFrac (digits t : List UInt8) : Prop :=
  digits = [] ∧ t = [] ∨ IsDigits digits ∧ t = ch '.' :: digits

/-- The exponent, if there is one. -/
inductive IsExp : ℤ → List UInt8 → Prop
  | absent : IsExp 0 []
  | plus {e : UInt8} {sign digits : List UInt8} (he : e = ch 'e' ∨ e = ch 'E')
      (hsign : sign = [] ∨ sign = [ch '+']) (h : IsDigits digits) :
      IsExp (readNat 10 digits 0) (e :: (sign ++ digits))
  | minus {e : UInt8} {digits : List UInt8} (he : e = ch 'e' ∨ e = ch 'E') (h : IsDigits digits) :
      IsExp (-(readNat 10 digits 0 : ℤ)) (e :: ch '-' :: digits)

/-- The sign of a number. -/
def IsSign (neg : Bool) (t : List UInt8) : Prop := t = if neg then [ch '-'] else []

/-- A number. -/
inductive IsNumber : Value → List UInt8 → Prop
  | mk {neg : Bool} {minus int digits frac exp : List UInt8} {e : ℤ} (hneg : IsSign neg minus)
      (hint : IsInt int) (hfrac : IsFrac digits frac) (hexp : IsExp e exp) :
      IsNumber (.number ((if neg then -1 else 1) * (readNat 10 (int ++ digits) 0 : ℤ))
        (e - digits.length)) (minus ++ (int ++ (frac ++ exp)))

mutual

/-- A value. -/
inductive IsValue : Value → List UInt8 → Prop
  | null : IsValue .null (lit "null")
  | true : IsValue (.bool true) (lit "true")
  | false : IsValue (.bool false) (lit "false")
  | number {v : Value} {t : List UInt8} (h : IsNumber v t) : IsValue v t
  | string {ns : List ℕ} {t : List UInt8} (h : IsString ns t) : IsValue (.string ns) t
  | emptyArray {w : List UInt8} (hw : IsWs w) : IsValue (.array []) (ch '[' :: (w ++ [ch ']']))
  | array {w t : List UInt8} {vs : List Value} (hw : IsWs w) (h : IsElements vs t) :
      IsValue (.array vs) (ch '[' :: (w ++ (t ++ [ch ']'])))
  | emptyObject {w : List UInt8} (hw : IsWs w) : IsValue (.object []) (ch '{' :: (w ++ [ch '}']))
  | object {w t : List UInt8} {ms : List (List ℕ × Value)} (hw : IsWs w) (h : IsMembers ms t) :
      IsValue (.object ms) (ch '{' :: (w ++ (t ++ [ch '}'])))

/-- The elements of an array, with the white space behind each of them. -/
inductive IsElements : List Value → List UInt8 → Prop
  | last {v : Value} {t w : List UInt8} (h : IsValue v t) (hw : IsWs w) : IsElements [v] (t ++ w)
  | cons {v : Value} {vs : List Value} {t w w' t' : List UInt8} (h : IsValue v t) (hw : IsWs w)
      (hw' : IsWs w') (hs : IsElements vs t') :
      IsElements (v :: vs) (t ++ (w ++ (ch ',' :: (w' ++ t'))))

/-- The members of an object, with the white space behind each of them. -/
inductive IsMembers : List (List ℕ × Value) → List UInt8 → Prop
  | last {k : List ℕ} {v : Value} {kt w₁ w₂ t w : List UInt8} (hk : IsString k kt) (hw₁ : IsWs w₁)
      (hw₂ : IsWs w₂) (h : IsValue v t) (hw : IsWs w) :
      IsMembers [(k, v)] (kt ++ (w₁ ++ (ch ':' :: (w₂ ++ (t ++ w)))))
  | cons {k : List ℕ} {v : Value} {ms : List (List ℕ × Value)} {kt w₁ w₂ t w w' t' : List UInt8}
      (hk : IsString k kt) (hw₁ : IsWs w₁) (hw₂ : IsWs w₂) (h : IsValue v t) (hw : IsWs w)
      (hw' : IsWs w') (hs : IsMembers ms t') :
      IsMembers ((k, v) :: ms)
        (kt ++ (w₁ ++ (ch ':' :: (w₂ ++ (t ++ (w ++ (ch ',' :: (w' ++ t'))))))))

end

/-- **A JSON text**, and its value. -/
def IsText (v : Value) (t : List UInt8) : Prop :=
  ∃ w t' w', IsWs w ∧ IsValue v t' ∧ IsWs w' ∧ t = w ++ (t' ++ w')

/-! ### The decoder -/

/-- White space. -/
def ws : Decoder UInt8 (List UInt8) := run isWs

/-- The characters of a string, up to the quote that ends it. -/
def chars : Decoder UInt8 (List ℕ)
  | [] => none
  | c :: s =>
    if c = ch '"' then some ([], s)
    else if c = ch '\\' then
      match s with
      | e :: s =>
        if e = ch 'u' then
          match s with
          | a :: b :: c :: d :: s =>
            if [a, b, c, d].all isHex then
              (chars s).map fun x => (readNat 16 [a, b, c, d] 0 :: x.1, x.2)
            else none
          | _ => none
        else (escaped e).bind fun n => (chars s).map fun x => (n :: x.1, x.2)
      | [] => none
    else if 0x20 ≤ c then (chars s).map fun x => (c.toNat :: x.1, x.2)
    else none

@[simp] theorem chars_quote (s : List UInt8) : chars (ch '"' :: s) = some ([], s) := by
  rw [chars.eq_def]
  rfl

theorem chars_unescaped {c : UInt8} (hquote : c ≠ ch '"') (hescape : c ≠ ch '\\') (s : List UInt8) :
    chars (c :: s) =
      if 0x20 ≤ c then (chars s).map fun x => (c.toNat :: x.1, x.2) else none := by
  rw [chars.eq_def]
  dsimp only
  rw [if_neg hquote, if_neg hescape]

theorem chars_escape {e : UInt8} (hu : e ≠ ch 'u') (s : List UInt8) :
    chars (ch '\\' :: e :: s) = (escaped e).bind fun n => (chars s).map fun x => (n :: x.1, x.2) := by
  rw [chars.eq_def]
  dsimp only
  rw [if_neg (by decide), if_pos rfl, if_neg hu]

theorem chars_hex (a b c d : UInt8) (s : List UInt8) :
    chars (ch '\\' :: ch 'u' :: a :: b :: c :: d :: s) =
      if [a, b, c, d].all isHex then
        (chars s).map fun x => (readNat 16 [a, b, c, d] 0 :: x.1, x.2)
      else none := by
  rw [chars, if_neg (by decide), if_pos rfl, if_pos rfl]

/-- A string. -/
def string : Decoder UInt8 (List ℕ) := do
  word [ch '"']
  chars

/-- One digit or more. -/
def digits : Decoder UInt8 (List UInt8) := do
  let t ← run isDigit
  if t = [] then fail else pure t

/-- The part of a number in front of the point. -/
def intPart : Decoder UInt8 (List UInt8) := do
  let t ← digits
  if t.head? = some (ch '0') ∧ t.length ≠ 1 then fail else pure t

/-- The digits behind the point. -/
def fracPart : Decoder UInt8 (List UInt8) := do
  let c ← peek
  if c = some (ch '.') then do
    word [ch '.']
    digits
  else pure []

/-- The exponent. -/
def expPart : Decoder UInt8 ℤ := do
  let e ← peek
  if e = some (ch 'e') ∨ e = some (ch 'E') then do
    word e.toList
    let c ← peek
    if c = some (ch '-') then do
      word [ch '-']
      let t ← digits
      pure (-(readNat 10 t 0 : ℤ))
    else if c = some (ch '+') then do
      word [ch '+']
      let t ← digits
      pure (readNat 10 t 0)
    else do
      let t ← digits
      pure (readNat 10 t 0)
  else pure 0

/-- The sign. -/
def sign : Decoder UInt8 Bool := do
  let c ← peek
  if c = some (ch '-') then do
    word [ch '-']
    pure true
  else pure false

/-- A number. -/
def number : Decoder UInt8 Value := do
  let neg ← sign
  let int ← intPart
  let frac ← fracPart
  let e ← expPart
  pure (.number ((if neg then -1 else 1) * (readNat 10 (int ++ frac) 0 : ℤ)) (e - frac.length))

mutual

/-- A value. -/
def value : ℕ → Decoder UInt8 Value
  | 0 => fail
  | fuel + 1 => do
    let c ← peek
    if c = some (ch '"') then do
      let s ← string
      pure (.string s)
    else if c = some (ch '{') then do
      word [ch '{']
      let _ ← ws
      let d ← peek
      if d = some (ch '}') then do
        word [ch '}']
        pure (.object [])
      else do
        let ms ← members fuel
        pure (.object ms)
    else if c = some (ch '[') then do
      word [ch '[']
      let _ ← ws
      let d ← peek
      if d = some (ch ']') then do
        word [ch ']']
        pure (.array [])
      else do
        let vs ← elements fuel
        pure (.array vs)
    else if c = some (ch 't') then do
      word (lit "true")
      pure (.bool true)
    else if c = some (ch 'f') then do
      word (lit "false")
      pure (.bool false)
    else if c = some (ch 'n') then do
      word (lit "null")
      pure .null
    else number

/-- The elements of an array, and the bracket behind them. -/
def elements : ℕ → Decoder UInt8 (List Value)
  | 0 => fail
  | fuel + 1 => do
    let v ← value fuel
    let _ ← ws
    let c ← peek
    if c = some (ch ',') then do
      word [ch ',']
      let _ ← ws
      let vs ← elements fuel
      pure (v :: vs)
    else do
      word [ch ']']
      pure [v]

/-- The members of an object, and the brace behind them. -/
def members : ℕ → Decoder UInt8 (List (List ℕ × Value))
  | 0 => fail
  | fuel + 1 => do
    let k ← string
    let _ ← ws
    word [ch ':']
    let _ ← ws
    let v ← value fuel
    let _ ← ws
    let c ← peek
    if c = some (ch ',') then do
      word [ch ',']
      let _ ← ws
      let ms ← members fuel
      pure ((k, v) :: ms)
    else do
      word [ch '}']
      pure [(k, v)]

end

/-- A JSON text. -/
def text (fuel : ℕ) : Decoder UInt8 Value := do
  let _ ← ws
  let v ← value fuel
  let _ ← ws
  pure v

/-- **The value of a JSON text.** No value is nested deeper than the text is long. -/
def decode (t : List UInt8) : Option Value := (text (t.length + 1)).whole t

/-! ### The decoder follows the grammar -/

theorem sound_ws : Sound ws fun _ t => IsWs t := by
  refine (Sound.run isWs).mono ?_
  rintro _ t ⟨-, ht⟩
  exact ht

/-- The characters up to the quote that ends a string. -/
def IsTail (ns : List ℕ) (t : List UInt8) : Prop := ∃ body, IsChars ns body ∧ t = body ++ [ch '"']

/-- One character in front of a tail. -/
theorem IsTail.cons {n : ℕ} {ns : List ℕ} {c t : List UInt8} (hc : IsChar n c) (h : IsTail ns t) :
    IsTail (n :: ns) (c ++ t) := by
  obtain ⟨body, hbody, rfl⟩ := h
  exact ⟨c ++ body, .cons hc hbody, (List.append_assoc _ _ _).symm⟩

theorem sound_chars : Sound chars IsTail := by
  -- One character, and what is read behind it.
  have hstep : ∀ {n : ℕ} {c s : List UInt8}, IsChar n c →
      (∀ ns r, chars s = some (ns, r) → ∃ t, s = t ++ r ∧ IsTail ns t) →
      ∀ ns r, ((chars s).map fun x => (n :: x.1, x.2)) = some (ns, r) →
      ∃ t, c ++ s = t ++ r ∧ IsTail ns t := by
    intro n c s hc ih ns r h
    obtain ⟨⟨ms, r'⟩, hs, heq⟩ := Option.map_eq_some_iff.mp h
    obtain ⟨rfl, rfl⟩ := Prod.mk.inj heq
    obtain ⟨t, rfl, ht⟩ := ih ms r' hs
    exact ⟨c ++ t, (List.append_assoc _ _ _).symm, ht.cons hc⟩
  intro s
  induction s using chars.induct with
  | case1 =>
    intro ns r h
    exact absurd h (Option.some_ne_none _).symm
  | case2 s =>
    intro ns r h
    rw [chars_quote] at h
    obtain ⟨rfl, rfl⟩ := Prod.mk.inj (Option.some.inj h)
    exact ⟨[ch '"'], rfl, [], .nil, rfl⟩
  | case3 a b c d s hhex _ ih =>
    intro ns r h
    rw [chars_hex, if_pos hhex] at h
    exact hstep (.hex (List.all_eq_true.mp hhex)) ih ns r h
  | case4 a b c d s hhex _ =>
    intro ns r h
    rw [chars_hex, if_neg hhex] at h
    exact absurd h (Option.some_ne_none _).symm
  | case5 s hshort hne =>
    intro ns r h
    rw [chars, if_neg hne, if_pos rfl, if_pos rfl] at h
    · exact absurd h (Option.some_ne_none _).symm
    · exact hshort
  | case6 e s hu _ ih =>
    intro ns r h
    rw [chars_escape hu] at h
    obtain ⟨n, hn, h⟩ := Option.bind_eq_some_iff.mp h
    exact hstep (.escape hn) ih ns r h
  | case7 hne =>
    intro ns r h
    rw [chars, if_neg hne, if_pos rfl] at h
    exact absurd h (Option.some_ne_none _).symm
  | case8 c s hquote hescape hprint ih =>
    intro ns r h
    rw [chars_unescaped hquote hescape, if_pos hprint] at h
    exact hstep (.unescaped hquote hescape hprint) ih ns r h
  | case9 c s hquote hescape hprint =>
    intro ns r h
    rw [chars_unescaped hquote hescape, if_neg hprint] at h
    exact absurd h (Option.some_ne_none _).symm

theorem sound_string : Sound string IsString := by
  refine (Sound.word [ch '"']).bind ?_
  rintro _ _ rfl
  refine sound_chars.mono ?_
  rintro ns t ⟨body, hbody, rfl⟩
  exact ⟨body, hbody, rfl⟩

theorem sound_digits : Sound digits fun ds t => ds = t ∧ IsDigits t := by
  refine (Sound.run isDigit).bind ?_
  rintro ds t ⟨rfl, hdigit⟩
  refine Sound.ite (fun _ => .fail _) fun hne => .pure ?_
  rw [List.append_nil]
  exact ⟨rfl, hne, hdigit⟩

theorem sound_intPart : Sound intPart fun ds t => ds = t ∧ IsInt t := by
  refine sound_digits.bind ?_
  rintro ds t ⟨rfl, hdigits⟩
  refine Sound.ite (fun _ => .fail _) fun hzero => .pure ?_
  rw [List.append_nil]
  exact ⟨rfl, hdigits, fun hhead => not_not.mp fun hlen => hzero ⟨hhead, hlen⟩⟩

theorem sound_fracPart : Sound fracPart IsFrac := by
  refine Sound.peek.bind ?_
  rintro c _ rfl
  refine Sound.ite (fun _ => (Sound.word _).bind ?_) fun _ => .pure (Or.inl ⟨rfl, rfl⟩)
  rintro _ _ rfl
  refine sound_digits.mono ?_
  rintro ds t ⟨rfl, hdigits⟩
  exact Or.inr ⟨hdigits, rfl⟩

theorem sound_expPart : Sound expPart IsExp := by
  refine Sound.peek.bind ?_
  rintro e _ rfl
  refine Sound.ite (fun he => (Sound.word _).bind ?_) fun _ => .pure .absent
  rintro _ _ rfl
  obtain ⟨x, rfl, hx⟩ : ∃ x, e = some x ∧ (x = ch 'e' ∨ x = ch 'E') := by
    rcases he with rfl | rfl
    · exact ⟨_, rfl, Or.inl rfl⟩
    · exact ⟨_, rfl, Or.inr rfl⟩
  refine Sound.peek.bind ?_
  rintro c _ rfl
  refine Sound.ite (fun _ => (Sound.word _).bind ?_) fun _ =>
    Sound.ite (fun _ => (Sound.word _).bind ?_) fun _ => sound_digits.bind ?_
  · rintro _ _ rfl
    refine sound_digits.bind ?_
    rintro ds _ ⟨rfl, hdigits⟩
    exact .pure (by simpa using IsExp.minus hx hdigits)
  · rintro _ _ rfl
    refine sound_digits.bind ?_
    rintro ds _ ⟨rfl, hdigits⟩
    exact .pure (by simpa using IsExp.plus hx (Or.inr rfl) hdigits)
  · rintro ds _ ⟨rfl, hdigits⟩
    exact .pure (by simpa using IsExp.plus hx (Or.inl rfl) hdigits)

theorem sound_sign : Sound sign IsSign := by
  refine Sound.peek.bind ?_
  rintro c _ rfl
  refine Sound.ite (fun _ => (Sound.word _).bind ?_) fun _ => .pure rfl
  rintro _ _ rfl
  exact .pure rfl

theorem sound_number : Sound number IsNumber := by
  refine sound_sign.bind fun neg minus hneg => sound_intPart.bind ?_
  rintro _ int ⟨rfl, hint⟩
  refine sound_fracPart.bind fun ds frac hfrac => sound_expPart.bind fun e exp hexp => .pure ?_
  rw [List.append_nil]
  exact .mk hneg hint hfrac hexp

/-- The word that has been looked at. -/
theorem sound_word_of_peek (w : List UInt8) {α : Type} {q : Decoder UInt8 α} {R : α → List UInt8 → Prop}
    (hq : Sound q fun a t => R a (w ++ t)) : Sound (do word w; q) R := by
  refine (Sound.word w).bind ?_
  rintro _ _ rfl
  exact hq

theorem sound_value_elements_members (fuel : ℕ) :
    Sound (value fuel) IsValue ∧
      Sound (elements fuel) (fun vs t => ∃ body, IsElements vs body ∧ t = body ++ [ch ']']) ∧
      Sound (members fuel) (fun ms t => ∃ body, IsMembers ms body ∧ t = body ++ [ch '}']) := by
  induction fuel with
  | zero =>
    refine ⟨?_, ?_, ?_⟩
    · rw [value]
      exact .fail _
    · rw [elements]
      exact .fail _
    · rw [members]
      exact .fail _
  | succ fuel ih =>
    obtain ⟨hvalue, helements, hmembers⟩ := ih
    refine ⟨?_, ?_, ?_⟩
    · rw [value]
      refine Sound.peek.bind ?_
      rintro c _ rfl
      refine Sound.ite (fun _ => sound_string.bind fun ns t hstring => .pure ?_) fun _ =>
        Sound.ite (fun _ => sound_word_of_peek _ (sound_ws.bind fun _ w hw => Sound.peek.bind ?_))
        fun _ => Sound.ite
          (fun _ => sound_word_of_peek _ (sound_ws.bind fun _ w hw => Sound.peek.bind ?_)) fun _ =>
        Sound.ite (fun _ => sound_word_of_peek _ (.pure .true)) fun _ =>
        Sound.ite (fun _ => sound_word_of_peek _ (.pure .false)) fun _ =>
        Sound.ite (fun _ => sound_word_of_peek _ (.pure .null)) fun _ => ?_
      · simpa using IsValue.string hstring
      · -- an object
        rintro _ _ rfl
        refine Sound.ite (fun _ => sound_word_of_peek _ (.pure ?_)) fun _ =>
          hmembers.bind fun ms t hms => .pure ?_
        · simpa using IsValue.emptyObject hw
        · obtain ⟨body, hbody, rfl⟩ := hms
          simpa using IsValue.object hw hbody
      · -- an array
        rintro _ _ rfl
        refine Sound.ite (fun _ => sound_word_of_peek _ (.pure ?_)) fun _ =>
          helements.bind fun vs t hvs => .pure ?_
        · simpa using IsValue.emptyArray hw
        · obtain ⟨body, hbody, rfl⟩ := hvs
          simpa using IsValue.array hw hbody
      · exact sound_number.mono fun v t hv => .number hv
    · rw [elements]
      refine hvalue.bind fun v t hv => sound_ws.bind fun _ w hw => Sound.peek.bind ?_
      rintro c _ rfl
      refine Sound.ite (fun _ => sound_word_of_peek _ (sound_ws.bind fun _ w' hw' =>
        helements.bind fun vs t' hvs => .pure ?_)) fun _ => sound_word_of_peek _ (.pure ?_)
      · obtain ⟨body, hbody, rfl⟩ := hvs
        exact ⟨_, .cons hv hw hw' hbody, by simp⟩
      · exact ⟨_, .last hv hw, by simp⟩
    · rw [members]
      refine sound_string.bind fun k kt hk => sound_ws.bind fun _ w₁ hw₁ => sound_word_of_peek _
        (sound_ws.bind fun _ w₂ hw₂ => hvalue.bind fun v t hv => sound_ws.bind fun _ w hw =>
          Sound.peek.bind ?_)
      rintro c _ rfl
      refine Sound.ite (fun _ => sound_word_of_peek _ (sound_ws.bind fun _ w' hw' =>
        hmembers.bind fun ms t' hms => .pure ?_)) fun _ => sound_word_of_peek _ (.pure ?_)
      · obtain ⟨body, hbody, rfl⟩ := hms
        exact ⟨_, .cons hk hw₁ hw₂ hv hw hw' hbody, by simp⟩
      · exact ⟨_, .last hk hw₁ hw₂ hv hw, by simp⟩

/-- **What is decoded is a value of the text**, so the text is in the grammar. -/
theorem decode_sound {t : List UInt8} {v : Value} (h : decode t = some v) : IsText v t := by
  have htext : Sound (text (t.length + 1)) IsText := by
    refine sound_ws.bind fun _ w hw =>
      (sound_value_elements_members _).1.bind fun v t' hv => sound_ws.bind fun _ w' hw' => .pure ?_
    exact ⟨w, t', w', hw, hv, hw', by rw [List.append_nil]⟩
  exact htext.whole h

/-! ### Reading back what a printer writes -/

/-- **The characters of a string** are read back, whichever of their spellings is taken. -/
theorem gives_chars {ns : List ℕ} {t : List UInt8} (h : IsChars ns t) (r : List UInt8) :
    chars (t ++ ch '"' :: r) = some (ns, r) := by
  induction h with
  | nil => exact chars_quote r
  | cons hc _ ih =>
    rw [List.append_assoc]
    cases hc with
    | unescaped hquote hescape hprint =>
      rw [List.singleton_append, chars_unescaped hquote hescape, if_pos hprint, ih]
      rfl
    | @escape c _ hn =>
      have hu : c ≠ ch 'u' := by
        rintro rfl
        have hnone : escaped (ch 'u') = none := by decide
        exact absurd (hn.symm.trans hnone) (Option.some_ne_none _)
      rw [List.cons_append, List.singleton_append, chars_escape hu, hn, ih]
      rfl
    | hex hhex =>
      simp only [List.cons_append, List.nil_append]
      rw [chars_hex, if_pos (List.all_eq_true.mpr hhex), ih]
      rfl

theorem gives_string {ns : List ℕ} {t : List UInt8} (h : IsString ns t) (r : List UInt8) :
    Gives string t ns r := by
  obtain ⟨body, hbody, rfl⟩ := h
  have hchars : Gives chars (body ++ [ch '"']) ns r := by
    rw [Gives, List.append_assoc]
    exact gives_chars hbody r
  exact Gives.bind (Gives.word _ _) hchars

/-- What may follow a value that is printed without white space. -/
def Follows (r : List UInt8) : Prop :=
  r.head? = some (ch ',') ∨ r.head? = some (ch '}') ∨ r.head? = some (ch ']')

theorem Follows.head {r : List UInt8} (h : Follows r) {c : UInt8} (hc : r.head? = some c) :
    isDigit c = false ∧ isWs c = false ∧ c ≠ ch '.' ∧ c ≠ ch 'e' ∧ c ≠ ch 'E' := by
  rw [Follows, hc, Option.some.injEq, Option.some.injEq, Option.some.injEq] at h
  rcases h with rfl | rfl | rfl
  · decide
  · decide
  · decide

/-- Nothing is taken for white space where there is none. -/
theorem gives_ws {r : List UInt8} (h : ∀ c, r.head? = some c → isWs c = false) :
    Gives ws [] [] r :=
  Gives.run (fun _ hc => absurd hc List.not_mem_nil) h

/-- A text that is read back as a value where a comma or a bracket follows it. -/
structure Prints (v : Value) (t : List UInt8) : Prop where
  gives : ∀ fuel r, Follows r → Gives (value (fuel + 1)) t v r
  head : ∃ c, t.head? = some c ∧ isWs c = false

theorem Prints.string {ns : List ℕ} {t : List UInt8} (h : IsString ns t) :
    Prints (.string ns) t where
  gives := by
    intro fuel r _
    have hhead : (t ++ r).head? = some (ch '"') := by
      obtain ⟨body, -, rfl⟩ := h
      rfl
    rw [value]
    exact Gives.bind_left (Gives.peek _)
      (Gives.ite_pos hhead (Gives.bind_right (gives_string h _) (Gives.pure _ r)))
  head := by
    obtain ⟨body, -, rfl⟩ := h
    exact ⟨_, rfl, by decide⟩

/-- A whole number is read back. -/
theorem gives_int {neg : Bool} {minus int r : List UInt8} (hneg : IsSign neg minus)
    (hint : IsInt int) (hr : Follows r) :
    Gives number (minus ++ int) (.number ((if neg then -1 else 1) * (readNat 10 int 0 : ℤ)) 0) r := by
  obtain ⟨⟨hne, hdigit⟩, hzero⟩ := hint
  have hsign : Gives sign minus neg (int ++ r) := by
    obtain ⟨d, int, rfl⟩ := List.exists_cons_of_ne_nil hne
    have hd := hdigit d List.mem_cons_self
    cases neg with
    | true =>
      obtain rfl : minus = [ch '-'] := hneg
      rfl
    | false =>
      obtain rfl : minus = [] := hneg
      refine Gives.bind_left (Gives.peek _) (Gives.ite_neg ?_ (Gives.pure _ _))
      rw [List.nil_append, List.cons_append, List.head?_cons, Option.some.injEq]
      rintro rfl
      exact absurd hd (by decide)
  have hdigits : Gives digits int int r :=
    Gives.bind_right (Gives.run hdigit fun c hc => (hr.head hc).1)
      (Gives.ite_neg hne (Gives.pure _ _))
  have hintPart : Gives intPart int int r :=
    Gives.bind_right hdigits (Gives.ite_neg (fun h => h.2 (hzero h.1)) (Gives.pure _ _))
  have hfracPart : Gives fracPart [] [] r :=
    Gives.bind_left (Gives.peek _)
      (Gives.ite_neg (fun hc => (hr.head hc).2.2.1 rfl) (Gives.pure _ _))
  have hexpPart : Gives expPart [] 0 r := by
    refine Gives.bind_left (Gives.peek _) (Gives.ite_neg ?_ (Gives.pure _ _))
    rintro (hc | hc)
    · exact (hr.head hc).2.2.2.1 rfl
    · exact (hr.head hc).2.2.2.2 rfl
  have hvalue : Value.number ((if neg then -1 else 1) * (readNat 10 int 0 : ℤ)) 0 =
      .number ((if neg then -1 else 1) * (readNat 10 (int ++ []) 0 : ℤ))
        (0 - ([] : List UInt8).length) := by
    rw [List.append_nil]
    rfl
  rw [hvalue]
  exact Gives.bind hsign (Gives.bind_right hintPart
    (Gives.bind_left hfracPart (Gives.bind_left hexpPart (Gives.pure _ r))))

theorem Prints.int {neg : Bool} {minus int : List UInt8} (hneg : IsSign neg minus)
    (hint : IsInt int) :
    Prints (.number ((if neg then -1 else 1) * (readNat 10 int 0 : ℤ)) 0) (minus ++ int) := by
  obtain ⟨x, hx, hclass⟩ : ∃ x, (minus ++ int).head? = some x ∧ (x = ch '-' ∨ isDigit x = true) := by
    obtain ⟨d, ds, rfl⟩ := List.exists_cons_of_ne_nil hint.1.1
    cases neg with
    | true =>
      obtain rfl : minus = [ch '-'] := hneg
      exact ⟨_, rfl, Or.inl rfl⟩
    | false =>
      obtain rfl : minus = [] := hneg
      exact ⟨d, rfl, Or.inr (hint.1.2 d List.mem_cons_self)⟩
  refine ⟨fun fuel r hr => ?_, x, hx, ?_⟩
  · have hhead : (minus ++ int ++ r).head? = some x := by
      rw [List.head?_append, hx]
      rfl
    -- No other kind of value starts like a number.
    have hother : ∀ c : UInt8, c ≠ ch '-' → isDigit c = false → (minus ++ int ++ r).head? ≠ some c := by
      rintro c hminus hdigit hc
      obtain rfl : x = c := Option.some.inj (hhead.symm.trans hc)
      rcases hclass with rfl | hx
      · exact hminus rfl
      · exact absurd (hx.symm.trans hdigit) (by decide)
    rw [value]
    exact Gives.bind_left (Gives.peek _) <|
      Gives.ite_neg (hother _ (by decide) (by decide)) <|
      Gives.ite_neg (hother _ (by decide) (by decide)) <|
      Gives.ite_neg (hother _ (by decide) (by decide)) <|
      Gives.ite_neg (hother _ (by decide) (by decide)) <|
      Gives.ite_neg (hother _ (by decide) (by decide)) <|
      Gives.ite_neg (hother _ (by decide) (by decide)) (gives_int hneg hint hr)
  · rcases hclass with rfl | hdigit
    · decide
    · have hlow : 48 ≤ x := by
        rw [isDigit, Bool.and_eq_true, decide_eq_true_eq] at hdigit
        exact hdigit.1
      rw [isWs]
      grind

theorem Prints.true : Prints (.bool true) (lit "true") where
  gives := by
    intro fuel r _
    have hother : ∀ d, d ≠ ch 't' → (lit "true" ++ r).head? ≠ some d :=
      fun d hd hhead => hd (Option.some.inj hhead).symm
    rw [value]
    exact Gives.bind_left (Gives.peek _) <|
      Gives.ite_neg (hother _ (by decide)) <|
      Gives.ite_neg (hother _ (by decide)) <|
      Gives.ite_neg (hother _ (by decide)) <|
      Gives.ite_pos rfl (Gives.bind_right (Gives.word _ _) (Gives.pure _ r))
  head := ⟨_, rfl, by decide⟩

theorem Prints.false : Prints (.bool false) (lit "false") where
  gives := by
    intro fuel r _
    have hother : ∀ d, d ≠ ch 'f' → (lit "false" ++ r).head? ≠ some d :=
      fun d hd hhead => hd (Option.some.inj hhead).symm
    rw [value]
    exact Gives.bind_left (Gives.peek _) <|
      Gives.ite_neg (hother _ (by decide)) <|
      Gives.ite_neg (hother _ (by decide)) <|
      Gives.ite_neg (hother _ (by decide)) <|
      Gives.ite_neg (hother _ (by decide)) <|
      Gives.ite_pos rfl (Gives.bind_right (Gives.word _ _) (Gives.pure _ r))
  head := ⟨_, rfl, by decide⟩

theorem Prints.null : Prints .null (lit "null") where
  gives := by
    intro fuel r _
    have hother : ∀ d, d ≠ ch 'n' → (lit "null" ++ r).head? ≠ some d :=
      fun d hd hhead => hd (Option.some.inj hhead).symm
    rw [value]
    exact Gives.bind_left (Gives.peek _) <|
      Gives.ite_neg (hother _ (by decide)) <|
      Gives.ite_neg (hother _ (by decide)) <|
      Gives.ite_neg (hother _ (by decide)) <|
      Gives.ite_neg (hother _ (by decide)) <|
      Gives.ite_neg (hother _ (by decide)) <|
      Gives.ite_pos rfl (Gives.bind_right (Gives.word _ _) (Gives.pure _ r))
  head := ⟨_, rfl, by decide⟩

/-- A member of an object, printed without white space. -/
def PrintsMember (m : List ℕ × Value) (t : List UInt8) : Prop :=
  ∃ kt vt, t = kt ++ ch ':' :: vt ∧ IsString m.1 kt ∧ Prints m.2 vt

/-- The members of an object, printed without white space; the brace is the one behind them. -/
theorem gives_members {m : List ℕ × Value} {ms : List (List ℕ × Value)} {t : List UInt8}
    {ts : List (List UInt8)} (hm : PrintsMember m t) (hms : List.Forall₂ PrintsMember ms ts)
    {fuel : ℕ} (hfuel : ms.length + 1 < fuel) (r : List UInt8) :
    Gives (members fuel) (t ++ ((ts.map (ch ',' :: ·)).flatten ++ [ch '}'])) (m :: ms) r := by
  induction fuel generalizing m ms t ts with
  | zero => omega
  | succ fuel ih =>
    obtain ⟨kt, vt, rfl, hk, hv⟩ := hm
    obtain ⟨n, rfl⟩ : ∃ n, fuel = n + 1 := ⟨fuel - 1, by omega⟩
    set rest := (ts.map (ch ',' :: ·)).flatten ++ [ch '}'] with hrest
    have hfollows : ∀ r, Follows (rest ++ r) := by
      intro r
      cases hms with
      | nil => exact Or.inr (Or.inl rfl)
      | cons _ _ => exact Or.inl rfl
    obtain ⟨x, hx, hxws⟩ := hv.head
    have htext : kt ++ ch ':' :: vt ++ rest = kt ++ ([ch ':'] ++ (vt ++ rest)) := by simp
    rw [members, htext]
    refine Gives.bind (gives_string hk _) (Gives.bind_left (gives_ws ?_) (Gives.bind (Gives.word _ _)
      (Gives.bind_left (gives_ws ?_) (Gives.bind (hv.gives n _ (hfollows r))
        (Gives.bind_left (gives_ws fun c hc => ((hfollows r).head hc).2.1)
          (Gives.bind_left (Gives.peek _) ?_))))))
    · rintro c hc
      obtain rfl : ch ':' = c := Option.some.inj hc
      decide
    · rintro c hc
      rw [List.append_assoc, List.head?_append, hx] at hc
      exact Option.some.inj hc ▸ hxws
    · cases hms with
      | nil =>
        rw [hrest, List.map_nil, List.flatten_nil, List.nil_append]
        have hne : ([ch '}'] ++ r).head? ≠ some (ch ',') := fun hhead =>
          absurd (Option.some.inj hhead) (by decide)
        exact Gives.ite_neg hne (Gives.bind_right (Gives.word _ r) (Gives.pure _ r))
      | @cons m' t' ms' ts' hm' hms' =>
        have hsplit : rest = [ch ','] ++ (t' ++ ((ts'.map (ch ',' :: ·)).flatten ++ [ch '}'])) := by
          rw [hrest, List.map_cons, List.flatten_cons]
          simp
        rw [hsplit]
        refine Gives.ite_pos rfl (Gives.bind (Gives.word _ _) (Gives.bind_left (gives_ws ?_)
          (Gives.bind_right (ih hm' hms' ?_) (Gives.pure _ r))))
        · rintro c hc
          obtain ⟨kt', vt', rfl, ⟨body, -, rfl⟩, -⟩ := hm'
          obtain rfl : ch '"' = c := Option.some.inj hc
          decide
        · rw [List.length_cons] at hfuel
          omega

/-- **An object** printed without white space is read back, member by member. -/
theorem decode_object {m : List ℕ × Value} {ms : List (List ℕ × Value)} {t : List UInt8}
    {ts : List (List UInt8)} (hm : PrintsMember m t) (hms : List.Forall₂ PrintsMember ms ts) :
    decode (ch '{' :: (t ++ ((ts.map (ch ',' :: ·)).flatten ++ [ch '}']))) =
      some (.object (m :: ms)) := by
  set body := t ++ ((ts.map (ch ',' :: ·)).flatten ++ [ch '}']) with hbody
  have hlength : ms.length + 1 < (ch '{' :: body).length := by
    have hts : ts.length ≤ (ts.map (ch ',' :: ·)).flatten.length := by
      clear hms hbody body
      induction ts with
      | nil => exact Nat.zero_le _
      | cons t ts ih =>
        rw [List.map_cons, List.flatten_cons, List.length_append, List.length_cons, List.length_cons]
        omega
    rw [hbody, List.length_cons, List.length_append, List.length_append, List.length_singleton,
      List.Forall₂.length_eq hms]
    omega
  have hhead : ∀ c, (body ++ []).head? = some c → c = ch '"' := by
    obtain ⟨kt, vt, rfl, ⟨kbody, -, rfl⟩, -⟩ := hm
    exact fun c hc => (Option.some.inj hc).symm
  refine Gives.whole ?_
  refine Gives.bind_left (gives_ws ?_) (Gives.bind_right ?_ (Gives.bind_left (gives_ws ?_)
    (Gives.pure _ [])))
  · rintro c hc
    obtain rfl : ch '{' = c := Option.some.inj hc
    decide
  · rw [value]
    have hmembers := gives_members hm hms hlength []
    have hother : (ch '{' :: body ++ []).head? ≠ some (ch '"') := fun hc =>
      absurd (Option.some.inj hc) (by decide)
    refine Gives.bind_left (Gives.peek _) (Gives.ite_neg hother (Gives.ite_pos rfl
      (Gives.bind (Gives.word _ _) (Gives.bind_left (gives_ws ?_) (Gives.bind_left (Gives.peek _)
        (Gives.ite_neg ?_ (Gives.bind_right hmembers (Gives.pure _ []))))))))
    · rintro c hc
      rw [hhead c hc]
      decide
    · intro hc
      exact absurd (hhead _ hc) (by decide)
  · rintro c hc
    exact absurd hc (Option.some_ne_none c).symm

end Json
