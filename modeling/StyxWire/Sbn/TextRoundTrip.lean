import StyxWire.Sbn.NumberPrinting

/-!
# Printing and parsing

What `mpz_get_str` prints, `mpz_set_str` reads back. The text that is printed is known
(`StyxWire.Sbn.mpzGetStr_sizeinbase`), and so is what is read of a string, by its parts
(`StyxWire.Sbn.mpzSetStr_spec`). It is left to say what the parts of a printed number are: there are
no blanks and no prefix, and the digits do not begin with a zero, so that a number in base ten is
not taken for an octal one when the base is guessed. Zero is the exception: its only digit is a
prefix, with no digits behind it (`StyxWire.Sbn.reads_digitsText_zero`).
-/

namespace StyxWire.Sbn

open Limbs Text

/-! ### The digits of a printed number -/

theorem digitVal_sbnValtochar {v : ℕ} (hv : v < 36) : digitVal (sbnValtochar v) = v := by
  have hall : ∀ v < 36, digitVal (sbnValtochar v) = v := by decide +kernel
  exact hall v hv

/-- A digit that is printed as a zero is zero. -/
theorem sbnValtochar_eq_zero {v : ℕ} (hv : v < 36) (h : sbnValtochar v = ch '0') : v = 0 := by
  have hval := digitVal_sbnValtochar hv
  rw [h] at hval
  exact hval.symm

theorem digitsText_ne_nil (b n : ℕ) : digitsText b n ≠ [] := by
  rw [digitsText]
  split_ifs with hn
  · exact List.cons_ne_nil _ _
  · rw [Ne, List.map_eq_nil_iff]
    exact Nat.digits_ne_nil_iff_ne_zero.mpr hn

section Digits

variable {b n : ℕ}

theorem digitVal_of_mem_digitsText (hb : 2 ≤ b) (hb' : b ≤ 36) :
    ∀ x ∈ digitsText b n, digitVal x < b := by
  intro x hx
  rw [digitsText] at hx
  split_ifs at hx with hn
  · rw [List.mem_singleton.mp hx]
    exact Nat.lt_of_lt_of_le (by decide) hb
  · obtain ⟨v, hv, rfl⟩ := List.mem_map.mp hx
    have hlt := Nat.digits_lt_base hb hv
    rwa [digitVal_sbnValtochar (by omega)]

/-- **The digits denote the number.** -/
theorem ofDigits_digitsText (hb : 2 ≤ b) (hb' : b ≤ 36) :
    Nat.ofDigits b ((digitsText b n).map digitVal) = n := by
  rw [digitsText]
  split_ifs with hn
  · rw [hn]
    rfl
  · have hsame : ∀ v ∈ Nat.digits b n, (digitVal ∘ sbnValtochar) v = v := by
      intro v hv
      have hlt := Nat.digits_lt_base hb hv
      exact digitVal_sbnValtochar (by omega)
    rw [List.map_map, List.map_congr_left hsame, List.map_id', Nat.ofDigits_digits]

/-- **There is no superfluous zero** in front of the digits. -/
theorem head_digitsText (hb : 2 ≤ b) (hb' : b ≤ 36) (hn : n ≠ 0) :
    (digitsText b n).reverse.head? ≠ some (ch '0') := by
  have hne : Nat.digits b n ≠ [] := Nat.digits_ne_nil_iff_ne_zero.mpr hn
  rw [digitsText, if_neg hn, List.head?_reverse, List.getLast?_map,
    List.getLast?_eq_some_getLast hne, Option.map_some]
  intro h
  have hlt := Nat.digits_lt_base hb (List.getLast_mem hne)
  exact Nat.getLast_digit_ne_zero b hn (sbnValtochar_eq_zero (by omega) (Option.some.inj h))

end Digits

/-! ### The parts of a printed number -/

/-- What `mpz_set_str` reads behind the sign: the magnitude `n`. -/
def Reads (b : ℕ) (u : List UInt8) (n : ℕ) : Prop :=
  ∃ pre body c, u = pre ++ body ∧ Selects b pre body c ∧ (∀ x ∈ trimTail body, digitVal x < c) ∧
    Nat.ofDigits c ((trimTail body).reverse.map digitVal) = n

section Parts

variable {b n : ℕ}

theorem trimTail_digitsText (hb : 2 ≤ b) (hb' : b ≤ 36) :
    trimTail (digitsText b n).reverse = (digitsText b n).reverse := by
  have hne : (digitsText b n).reverse ≠ [] := List.reverse_ne_nil_iff.mpr (digitsText_ne_nil b n)
  have hlast : ¬isSpace ((digitsText b n).reverse.getLast hne) := by
    have hmem := List.mem_reverse.mp (List.getLast_mem hne)
    have hlt := digitVal_of_mem_digitsText hb hb' _ hmem
    rw [isSpace_eq_false (by omega)]
    exact Bool.false_ne_true
  have htrim := trimTail_append hne hlast (fun x hx => absurd hx List.not_mem_nil)
  rwa [List.append_nil] at htrim

/-- The digits without a prefix. -/
theorem reads_of_selects (hb : 2 ≤ b) (hb' : b ≤ 36) {b₀ : ℕ}
    (h : Selects b₀ [] (digitsText b n).reverse b) : Reads b₀ (digitsText b n).reverse n := by
  refine ⟨[], (digitsText b n).reverse, b, rfl, h, ?_, ?_⟩
  · intro x hx
    rw [trimTail_digitsText hb hb', List.mem_reverse] at hx
    exact digitVal_of_mem_digitsText hb hb' x hx
  · rw [trimTail_digitsText hb hb', List.reverse_reverse, ofDigits_digitsText hb hb']

theorem reads_digitsText (hb : 2 ≤ b) (hb' : b ≤ 36) : Reads b (digitsText b n).reverse n :=
  reads_of_selects hb hb' (.given (by omega))

/-- Zero is a prefix, if the base is guessed. -/
theorem reads_digitsText_zero : Reads 0 (digitsText 10 0).reverse 0 :=
  ⟨[ch '0'], [], 8, rfl, .oct rfl fun x hx => by simp at hx, fun x hx => absurd hx List.not_mem_nil,
    rfl⟩

/-- **A decimal number is taken for one**, if the base is guessed. -/
theorem reads_digitsText_guess : Reads 0 (digitsText 10 n).reverse n := by
  by_cases hn : n = 0
  · rw [hn]
    exact reads_digitsText_zero
  · exact reads_of_selects (by decide) (by decide)
      (.dec rfl (head_digitsText (by decide) (by decide) hn))

/-- There are no blanks, and the sign is told from the digits. -/
theorem takeSign_numberText (hb : 2 ≤ b) (hb' : b ≤ 36) (neg : Bool) :
    takeSign ((numberText b n neg).dropWhile isSpace) = (neg, (digitsText b n).reverse) := by
  cases neg with
  | true =>
    rw [numberText, if_pos rfl, List.singleton_append, List.dropWhile_cons_of_neg (by decide),
      takeSign, if_pos rfl]
  | false =>
    obtain ⟨c, s, hcons⟩ := List.exists_cons_of_ne_nil
      (List.reverse_ne_nil_iff.mpr (digitsText_ne_nil b n))
    have hlt : digitVal c < b := by
      refine digitVal_of_mem_digitsText hb hb' (n := n) c (List.mem_reverse.mp ?_)
      rw [hcons]
      exact List.mem_cons_self
    have hspace : ¬isSpace c = true := by
      rw [isSpace_eq_false (by omega)]
      exact Bool.false_ne_true
    have hminus : c ≠ ch '-' := by
      rintro rfl
      exact absurd (hlt.trans_le hb') (by decide)
    rw [numberText, if_neg Bool.false_ne_true, List.nil_append, hcons,
      List.dropWhile_cons_of_neg hspace, takeSign, if_neg hminus]

theorem zero_notMem_numberText (hb : 2 ≤ b) (hb' : b ≤ 36) {neg : Bool} :
    0 ∉ numberText b n neg := by
  rw [numberText, List.mem_append, not_or]
  constructor
  · cases neg <;> decide
  · intro hmem
    have hlt := digitVal_of_mem_digitsText hb hb' 0 (List.mem_reverse.mp hmem)
    exact absurd (hlt.trans_le hb') (by decide)

end Parts

/-! ### The round trip -/

/-- A call of `mpz_set_str` succeeds, and makes the object the number `v`. -/
def Parses (z : Ptr) (s : List UInt8) (b : ℕ) (st : Store) (v : ℤ) : Prop :=
  ∃ st', mpzSetStr z s b st = .ok st' ∧ (st' z).Canonical ∧ (st' z).value = v

theorem parses_numberText {z b b₀ n : ℕ} {st : Store} (hz : (st (.obj z)).Shape) (hb : 2 ≤ b)
    (hb' : b ≤ 36) (hb₀ : b₀ = 0 ∨ 2 ≤ b₀ ∧ b₀ ≤ 36) (h : Reads b₀ (digitsText b n).reverse n)
    {neg : Bool} (hneg : n = 0 → neg = false) :
    Parses (.obj z) (numberText b n neg) b₀ st (if neg then -(n : ℤ) else n) := by
  obtain ⟨pre, body, c, hparts, hselects, hdigits, hvalue⟩ := h
  have hsplit : takeSign ((numberText b n neg).dropWhile isSpace) = (neg, pre ++ body) := by
    rw [takeSign_numberText hb hb', hparts]
  obtain ⟨st', hrun, hs, hholds, -⟩ := (mpzSetStr_spec hz hb₀ hsplit hselects).2 hdigits
  rw [hvalue] at hholds
  refine ⟨st', hrun, ⟨hholds.shape, fun hl => ?_⟩, hholds.value⟩
  obtain ⟨m, s, k, hm⟩ := hholds.shape.exists_of
  have hzero : n = 0 := by
    have hval := hholds.value
    rw [hm, Mpz.of_l, digits_length_eq_zero] at hl
    rw [hm, hl, Mpz.of_value] at hval
    split_ifs at hval <;> omega
  rw [hs]
  exact hneg hzero

/-- **What is printed is read back**, in every base, and in base ten also if the base is guessed;
and no zero is printed in front of the digits. -/
theorem text_round_trip {z z₂ b : ℕ} {st : Store} (hz : (st (.obj z)).Canonical)
    (hz₂ : (st (.obj z₂)).Shape) (hb : 2 ≤ b) (hb' : b ≤ 36) {s : List UInt8}
    (hs : s.length = mpzSizeinbase (st (.obj z)) b + 2) :
    ∃ str text, mpzGetStr s b (.obj z) st = .ok (some str) ∧ Mem.StringAt str 0 text ∧
      Parses (.obj z₂) text b st (st (.obj z)).value ∧
      (b = 10 → Parses (.obj z₂) text 0 st (st (.obj z)).value) ∧
      ∃ sign digits, text = sign ++ digits ∧ (sign = [] ∨ sign = [ch '-']) ∧ digits ≠ [] ∧
        (∀ x ∈ digits, digitVal x < b) ∧
        (digits = [ch '0'] ∨ digits.head? ≠ some (ch '0')) := by
  obtain ⟨n, neg, k, hn, hneg⟩ := hz.exists_of
  have hget := mpzGetStr_sizeinbase hz.toShape.trimmed hb hb' hs.ge
  have hmag : (st (.obj z)).mag = n := by rw [hn, Mpz.of_mag]
  have hsign : (st (.obj z)).s = neg := by rw [hn, Mpz.of_s]
  rw [hmag, hsign] at hget
  rw [hn, Mpz.of_value]
  refine ⟨_, numberText b n neg, hget, ?_, ?_, ?_, ?_⟩
  · exact Mem.stringAt_append (zero_notMem_numberText hb hb') [] _
  · exact parses_numberText hz₂ hb hb' (Or.inr ⟨hb, hb'⟩) (reads_digitsText hb hb') hneg
  · rintro rfl
    exact parses_numberText hz₂ hb hb' (Or.inl rfl) reads_digitsText_guess hneg
  · refine ⟨if neg then [ch '-'] else [], (digitsText b n).reverse, rfl, ?_,
      List.reverse_ne_nil_iff.mpr (digitsText_ne_nil b n),
      fun x hx => digitVal_of_mem_digitsText hb hb' x (List.mem_reverse.mp hx), ?_⟩
    · cases neg
      · exact Or.inl rfl
      · exact Or.inr rfl
    · by_cases hzero : n = 0
      · exact Or.inl (by rw [hzero, digitsText, if_pos rfl]; rfl)
      · exact Or.inr (head_digitsText hb hb' hzero)

/-- Minus ten, in base ten. -/
theorem text_round_trip_ten :
    ∃ str text, mpzGetStr (List.replicate 12 1) 10 (.obj 0) minusTen = .ok (some str) ∧
      Mem.StringAt str 0 text ∧ Parses (.obj 1) text 10 minusTen (-10) ∧
      Parses (.obj 1) text 0 minusTen (-10) := by
  have hten : ∀ p, (minusTen p).Canonical := by
    intro p
    have hof : minusTen p = Mpz.of 10 true 0 := immediate_eq (by decide) true
    rw [hof]
    exact Mpz.canonical_of (by decide) 0
  have hvalue : (minusTen (.obj 0)).value = -10 := by decide
  obtain ⟨str, text, hget, htext, hparses, hguess, -⟩ :=
    text_round_trip (hten (.obj 0)) (hten (.obj 1)).toShape (show 2 ≤ 10 by decide) (by decide)
      (show (List.replicate 12 1).length = mpzSizeinbase (minusTen (.obj 0)) 10 + 2 by decide)
  rw [hvalue] at hparses hguess
  exact ⟨str, text, hget, htext, hparses, hguess rfl⟩

end StyxWire.Sbn
