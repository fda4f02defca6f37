import Mathlib.Data.List.DropRight
import StyxWire.Lib.Text
import StyxWire.Sbn.Multiplication

/-!
# Number parsing

`mpz_set_str` skips the blanks at the head, a sign and the prefix of a base, then the blanks at the
tail, and reads the digits from the last one to the first.

What a number is, is said on its own (`StyxWire.Sbn.Number`): a string that is put together from
blanks, a sign, a prefix, digits and blanks. The function accepts that and no more, but for four
kinds of strings (`StyxWire.Sbn.ParseHolds`): nothing but blanks, a sign and a prefix is taken for
zero; a zero with blanks behind is rejected, if the base is guessed, since the blanks are not
skipped where the digits should begin; zero keeps a sign; and a character that is not ASCII is
looked up in front of the table of the digits, a `char` being signed.
-/

namespace StyxWire.Sbn

open Limbs Text

/-! ### The function -/

/-- `r_cset`. -/
def rCset : List ℤ :=
  List.replicate 48 (-1) ++ [0, 1, 2, 3, 4, 5, 6, 7, 8, 9] ++ List.replicate 39 (-1) ++
    [10, 11, 12, 13, 14, 15, 16, 17, 18, 19, 20, 21, 22, 23, 24, 25, 26, 27, 28, 29, 30, 31, 32,
      33, 34, 35] ++ List.replicate 133 (-1)

/-- `sbn_chartoval`. From 128 on, a `char` is negative, `tolower` leaves it, and it is no index of
the table. -/
def sbnChartoval (c : UInt8) : Except Stop ℤ :=
  if 128 ≤ c then .error .fault else .ok (rCset.getD (toLower c).toNat (-1))

/-- The sign, and what is behind it. -/
def takeSign : List UInt8 → Bool × List UInt8
  | c :: s => if c = ch '-' then (true, s) else (false, c :: s)
  | [] => (false, [])

/-- The base, and what is behind its prefix. -/
def guessBase (b : ℕ) (s : List UInt8) : ℕ × List UInt8 :=
  if b = 0 then
    match s with
    | c :: s =>
      if c = ch '0' then
        match s with
        | x :: s' =>
          if toLower x = ch 'x' then (16, s')
          else if toLower x = ch 'b' then (2, s')
          else (8, x :: s')
        | [] => (8, [])
      else (10, c :: s)
    | [] => (10, [])
  else (b, s)

/-- What is left without the blanks at the tail. The first character is not skipped. -/
def trimTail : List UInt8 → List UInt8
  | c :: s => c :: s.rdropWhile isSpace
  | [] => []

/-- One digit is added. -/
def setStrDigit (z : Ptr) (b digit : ℕ) (st : Store) : Except Stop Store := do
  let st ← mpzSetUi .toadd digit st
  let st ← mpzMul .toadd .toadd .pow st
  let st ← mpzAdd z z .toadd st
  mpzMulUi .pow .pow b st

/-- The loop over the digits, from the last one on. -/
def setStrLoop (z : Ptr) (b : ℕ) : List UInt8 → Store → Except Stop Store
  | [], st => .ok st
  | c :: s, st => do
    let digit ← sbnChartoval c
    if digit < 0 ∨ (b : ℤ) ≤ digit then .error .inval
    else do
      let st ← setStrDigit z b digit.toNat st
      setStrLoop z b s st

/-- `mpz_set_str`. -/
def mpzSetStr (z : Ptr) (s : List UInt8) (b : ℕ) (st : Store) : Except Stop Store :=
  let (neg, s) := takeSign (s.dropWhile isSpace)
  let (b, s) := guessBase b s
  if b < 2 ∨ 36 < b then .error .inval
  else do
    let st := (st.set .pow Mpz.init).set .toadd Mpz.init
    let cleared ← (st z).zero
    let st ← mpzSetUi .pow 1 (st.set z cleared)
    let st ← setStrLoop z b (trimTail s).reverse st
    return st.setSign z neg

/-! ### What a number is -/

/-- The prefix in front of the digits, if the base of the call is `b`, and the base that it
selects. -/
inductive Selects (b : ℕ) : List UInt8 → List UInt8 → ℕ → Prop
  | given {body : List UInt8} (hb : b ≠ 0) : Selects b [] body b
  | hex {x : UInt8} {body : List UInt8} (hb : b = 0) (hx : toLower x = ch 'x') :
    Selects b [ch '0', x] body 16
  | bin {x : UInt8} {body : List UInt8} (hb : b = 0) (hx : toLower x = ch 'b') :
    Selects b [ch '0', x] body 2
  | oct {body : List UInt8} (hb : b = 0)
    (hbody : ∀ x ∈ body.head?, toLower x ≠ ch 'x' ∧ toLower x ≠ ch 'b') :
    Selects b [ch '0'] body 8
  | dec {body : List UInt8} (hb : b = 0) (hbody : body.head? ≠ some (ch '0')) :
    Selects b [] body 10

/-- The parts of a number. A single zero is its own prefix. -/
structure Number (b : ℕ) where
  blanks : List UInt8
  neg : Bool
  pre : List UInt8
  digits : List UInt8
  trail : List UInt8
  radix : ℕ
  blanks_space : ∀ x ∈ blanks, isSpace x
  selects : Selects b pre (digits ++ trail) radix
  digits_lt : ∀ x ∈ digits, digitVal x < radix
  nonempty : digits ≠ [] ∨ pre = [ch '0']
  trail_space : ∀ x ∈ trail, isSpace x

/-- The string. -/
def Number.text {b : ℕ} (n : Number b) : List UInt8 :=
  n.blanks ++ (if n.neg then [ch '-'] else []) ++ n.pre ++ n.digits ++ n.trail

/-- The magnitude that is denoted. -/
def Number.mag {b : ℕ} (n : Number b) : ℕ :=
  Nat.ofDigits n.radix (n.digits.reverse.map digitVal)

/-- The value that is denoted. -/
def Number.value {b : ℕ} (n : Number b) : ℤ := if n.neg then -n.mag else n.mag

/-! ### The digits -/

theorem sbnChartoval_eq {c : UInt8} (hc : ¬128 ≤ c) :
    sbnChartoval c = .ok (if digitVal c < 36 then digitVal c else -1) := by
  have hall : ∀ n < 128, rCset.getD (toLower (UInt8.ofNat n)).toNat (-1) =
      if digitVal (UInt8.ofNat n) < 36 then (digitVal (UInt8.ofNat n) : ℤ) else -1 := by
    decide +kernel
  have hlt : c.toNat < 128 := by
    rw [UInt8.le_iff_toNat_le] at hc
    exact Nat.lt_of_not_le hc
  have hval := hall c.toNat hlt
  rw [UInt8.ofNat_toNat] at hval
  rw [sbnChartoval, if_neg hc, hval]

/-- A character that is not ASCII is no digit, and no blank. -/
theorem ascii_of_digitVal_lt {c : UInt8} (h : digitVal c < 36) : ¬128 ≤ c := by
  have hall : ∀ n < 256, digitVal (UInt8.ofNat n) < 36 → ¬128 ≤ UInt8.ofNat n := by
    decide +kernel
  have hc := hall c.toNat c.toNat_lt
  rw [UInt8.ofNat_toNat] at hc
  exact hc h

variable {z : ℕ} {st : Store} {b v p : ℕ}

/-- What the loop goes from digit to digit with: the sum and the power. -/
structure DigitState (z v p : ℕ) (st : Store) : Prop where
  sum : st.Holds (.obj z) v
  power : st.Holds .pow p
  digit : (st .toadd).Shape

/-- **One digit.** -/
theorem setStrDigit_spec (h : DigitState z v p st) {d : ℕ} (hd : d < base) (hb : b < base) :
    ∃ st', setStrDigit (.obj z) b d st = .ok st' ∧ DigitState z (v + d * p) (p * b) st' ∧
      ∀ n, n ≠ z → (st (.obj n)).Pads (st' (.obj n)) := by
  obtain ⟨i, -, hset⟩ := mpzSetUi_eq (z := .toadd) nofun h.digit hd
  obtain ⟨st₁, hst₁⟩ : ∃ st₁, (st.set .mpzSet (Mpz.of d false 0)).set .toadd (Mpz.of d false i) =
    st₁ := ⟨_, rfl⟩
  have hdigit₁ : st₁.Holds .toadd d := hst₁ ▸ Store.holds_of _ _ d i
  have hother₁ : ∀ q, q ≠ .toadd → q ≠ .mpzSet → (st q).Pads (st₁ q) := fun q hq hq' => by
    rw [← hst₁, Store.set_of_ne _ hq, Store.set_of_ne _ hq']
    exact Mpz.Pads.refl _
  have hpower₁ : st₁.Holds .pow p := h.power.pads (hother₁ .pow nofun nofun)
  obtain ⟨st₂, hmul, hcanonical, hdigit₂, hother₂⟩ := mpzMul_holds (r := .toadd) nofun
    hdigit₁.shape hdigit₁ hpower₁
  have hsum₂ : st₂.Holds (.obj z) v := by
    refine (h.sum.pads (hother₁ (.obj z) nofun nofun)).pads ?_
    rw [hother₂ (.obj z) nofun nofun]
    exact Mpz.Pads.refl _
  have hpower₂ : st₂.Holds .pow p := hpower₁.pads (by
    rw [hother₂ .pow nofun nofun]
    exact Mpz.Pads.refl _)
  obtain ⟨st₃, hadd, hcomputes⟩ := mpzAdd_computes hsum₂.shape hsum₂.shape hcanonical
  have hpower₃ : st₃.Holds .pow p := hpower₂.pads (hcomputes.pads .pow nofun)
  have hdigit₃ : st₃.Holds .toadd (d * p) := hdigit₂.pads (hcomputes.pads .toadd nofun)
  obtain ⟨st₄, hpow, hpower₄, hother₄⟩ := mpzMulUi_holds (r := .pow) nofun hb hpower₃
  refine ⟨st₄, ?_, ⟨⟨?_, ?_⟩, hpower₄, ?_⟩, fun n hn => ?_⟩
  · rw [setStrDigit, hset, hst₁]
    simp only [bind, Except.bind, hmul, hadd]
    exact hpow
  · rw [hother₄ (.obj z) nofun nofun]
    exact hcomputes.canonical.toShape
  · rw [hother₄ (.obj z) nofun nofun, hcomputes.value, hsum₂.value, hdigit₂.value, Nat.cast_add,
      Nat.cast_mul]
  · rw [hother₄ .toadd nofun nofun]
    exact hdigit₃.shape
  · refine (hother₁ (.obj n) nofun nofun).trans ?_
    rw [hother₄ (.obj n) nofun nofun, ← hother₂ (.obj n) nofun nofun]
    exact hcomputes.pads (.obj n) fun heq => hn (Ptr.obj.inj heq)

/-- A digit is read, and anything else ends the loop. -/
theorem setStrLoop_cons (hb : b ≤ 36) (c : UInt8) (s : List UInt8) (st : Store) :
    setStrLoop (.obj z) b (c :: s) st =
      if digitVal c < b then do
        let st ← setStrDigit (.obj z) b (digitVal c) st
        setStrLoop (.obj z) b s st
      else .error (if 128 ≤ c then .fault else .inval) := by
  rw [setStrLoop]
  split_ifs with hdigit hascii
  · have hlt : digitVal c < 36 := by omega
    rw [sbnChartoval_eq (ascii_of_digitVal_lt hlt), if_pos hlt]
    simp only [bind, Except.bind]
    rw [if_neg (by omega), Int.toNat_natCast]
  · rw [sbnChartoval, if_pos hascii]
    rfl
  · rw [sbnChartoval_eq ‹_›]
    simp only [bind, Except.bind]
    rw [if_pos]
    split_ifs <;> omega

/-- **The loop over digits** adds the number that they are. -/
theorem setStrLoop_digits (hb : b ≤ 36) {s : List UInt8} (hs : ∀ c ∈ s, digitVal c < b)
    (h : DigitState z v p st) :
    ∃ st', setStrLoop (.obj z) b s st = .ok st' ∧
      st'.Holds (.obj z) (v + p * Nat.ofDigits b (s.map digitVal) : ℕ) ∧
      ∀ n, n ≠ z → (st (.obj n)).Pads (st' (.obj n)) := by
  induction s generalizing v p st with
  | nil =>
    refine ⟨st, rfl, ?_, fun n _ => Mpz.Pads.refl _⟩
    rw [List.map_nil, Nat.ofDigits_nil, Nat.mul_zero, Nat.add_zero]
    exact h.sum
  | cons c s ih =>
    have hc := hs c List.mem_cons_self
    have hbase : 36 < base := by decide
    obtain ⟨st₁, hdigit, hstate, hpads⟩ := setStrDigit_spec h (show digitVal c < base by omega)
      (show b < base by omega)
    obtain ⟨st', hloop, hsum, hpads'⟩ := ih (fun x hx => hs x (List.mem_cons_of_mem _ hx)) hstate
    refine ⟨st', ?_, ?_, fun n hn => (hpads n hn).trans (hpads' n hn)⟩
    · rw [setStrLoop_cons hb, if_pos hc, hdigit]
      exact hloop
    · rw [List.map_cons, Nat.ofDigits_cons]
      have hvalue : v + p * (digitVal c + b * Nat.ofDigits b (s.map digitVal)) =
          v + digitVal c * p + p * b * Nat.ofDigits b (s.map digitVal) := by ring
      rw [hvalue]
      exact hsum

/-- **The loop ends** at the first character that is not a digit. -/
theorem setStrLoop_find (hb : b ≤ 36) {s : List UInt8} {c : UInt8}
    (hs : s.find? (fun x => !decide (digitVal x < b)) = some c) (h : DigitState z v p st) :
    setStrLoop (.obj z) b s st = .error (if 128 ≤ c then .fault else .inval) := by
  induction s generalizing v p st with
  | nil => cases hs
  | cons x s ih =>
    rw [setStrLoop_cons hb]
    rw [List.find?_cons] at hs
    by_cases hx : digitVal x < b
    · have hbase : 36 < base := by decide
      obtain ⟨st₁, hdigit, hstate, -⟩ := setStrDigit_spec h (show digitVal x < base by omega)
        (show b < base by omega)
      simp only [hx, decide_true, Bool.not_true] at hs
      rw [if_pos hx, hdigit]
      exact ih hs hstate
    · simp only [hx, decide_false, Bool.not_false, Option.some.injEq] at hs
      rw [if_neg hx, hs]

/-! ### The parts of a string -/

/-- What is behind the blanks and the sign. -/
def unsigned (s : List UInt8) : List UInt8 := (takeSign (s.dropWhile isSpace)).2

variable {s pre body : List UInt8} {c : ℕ}

theorem Selects.guessBase_eq (h : Selects b pre body c) : guessBase b (pre ++ body) = (c, body) := by
  cases h with
  | given hb => simp [guessBase, hb]
  | hex hb hx => simp [guessBase, hb, hx]
  | bin hb hx =>
    have hne : ch 'b' ≠ ch 'x' := by decide
    simp [guessBase, hb, hx, hne]
  | oct hb hbody =>
    cases body with
    | nil => simp [guessBase, hb]
    | cons x body =>
      obtain ⟨hx, hb'⟩ := hbody x (by simp)
      simp [guessBase, hb, hx, hb']
  | dec hb hbody =>
    cases body with
    | nil => simp [guessBase, hb]
    | cons x body =>
      have hx : x ≠ ch '0' := fun heq => hbody (by rw [heq]; rfl)
      simp [guessBase, hb, hx]

/-- The prefix and the base are what they are. -/
theorem Selects.unique {pre' body' : List UInt8} {c' : ℕ} (h : Selects b pre body c)
    (h' : Selects b pre' body' c') (heq : pre ++ body = pre' ++ body') :
    pre = pre' ∧ body = body' ∧ c = c' := by
  have hguess := h.guessBase_eq
  rw [heq, h'.guessBase_eq, Prod.mk.injEq] at hguess
  obtain ⟨rfl, rfl⟩ := hguess
  exact ⟨List.append_cancel_right heq, rfl, rfl⟩

theorem Selects.bounds (h : Selects b pre body c) (hb : b = 0 ∨ 2 ≤ b ∧ b ≤ 36) :
    2 ≤ c ∧ c ≤ 36 := by
  cases h with
  | given hne => exact hb.resolve_left hne
  | hex => omega
  | bin => omega
  | oct => omega
  | dec => omega

theorem Selects.head (h : Selects b pre body c) : pre = [] ∨ ∃ pre', pre = ch '0' :: pre' := by
  cases h with
  | given => exact Or.inl rfl
  | hex => exact Or.inr ⟨_, rfl⟩
  | bin => exact Or.inr ⟨_, rfl⟩
  | oct => exact Or.inr ⟨_, rfl⟩
  | dec => exact Or.inl rfl

/-- The characters of a number behind its blanks. -/
theorem Number.split {b : ℕ} (n : Number b) (hb : b = 0 ∨ 2 ≤ b ∧ b ≤ 36) :
    takeSign (n.text.dropWhile isSpace) = (n.neg, n.pre ++ (n.digits ++ n.trail)) := by
  have hdrop : n.text.dropWhile isSpace =
      ((if n.neg then [ch '-'] else []) ++ n.pre ++ n.digits ++ n.trail).dropWhile isSpace := by
    rw [text, List.append_assoc, List.append_assoc, List.append_assoc,
      List.dropWhile_append_of_pos n.blanks_space, List.append_assoc, List.append_assoc]
  -- the first of them is a digit
  obtain ⟨x, rest, hcons, hdigit⟩ : ∃ x rest, n.pre ++ (n.digits ++ n.trail) = x :: rest ∧
      digitVal x < 36 := by
    have hzero : digitVal (ch '0') < 36 := by decide
    have hdigits : n.digits ≠ [] → ∃ x rest, n.digits ++ n.trail = x :: rest ∧
        digitVal x < 36 := fun hne => by
      obtain ⟨x, ds, hds⟩ := List.exists_cons_of_ne_nil hne
      refine ⟨x, ds ++ n.trail, by rw [hds]; rfl, ?_⟩
      exact (n.digits_lt x (hds ▸ List.mem_cons_self)).trans_le (n.selects.bounds hb).2
    have hne : n.pre = [] → n.digits ≠ [] := fun hnil =>
      n.nonempty.resolve_right (by rw [hnil]; exact (List.cons_ne_nil _ _).symm)
    rcases n.selects.head with hpre | ⟨pre, hpre⟩
    · rw [hpre]
      exact hdigits (hne hpre)
    · exact ⟨ch '0', pre ++ (n.digits ++ n.trail), by rw [hpre]; rfl, hzero⟩
  have hspace : isSpace x = false := isSpace_eq_false hdigit
  have hminus : x ≠ ch '-' := ne_of_digitVal_lt hdigit
  rw [hdrop]
  cases hneg : n.neg with
  | true =>
    have hsign : isSpace (ch '-') = false := by decide
    rw [if_pos rfl, List.append_assoc, List.append_assoc, List.singleton_append,
      List.dropWhile_cons, if_neg (by simp [hsign]), takeSign, if_pos rfl]
  | false =>
    rw [if_neg Bool.false_ne_true, List.nil_append, List.append_assoc, hcons, List.dropWhile_cons,
      if_neg (by simp [hspace]), takeSign, if_neg hminus]

theorem trimTail_append {l trail : List UInt8} (hne : l ≠ []) (hlast : ¬isSpace (l.getLast hne))
    (htrail : ∀ x ∈ trail, isSpace x) : trimTail (l ++ trail) = l := by
  obtain ⟨x, l, rfl⟩ := List.exists_cons_of_ne_nil hne
  rw [List.cons_append, trimTail, List.rdropWhile, List.reverse_append,
    List.dropWhile_append_of_pos fun y hy => htrail y (List.mem_reverse.mp hy), ← List.rdropWhile,
    List.rdropWhile_eq_self_iff.mpr fun hl => by rwa [List.getLast_cons hl] at hlast]

/-- **The run over a string** whose parts are known. -/
theorem mpzSetStr_spec (hshape : (st (.obj z)).Shape) (hb : b = 0 ∨ 2 ≤ b ∧ b ≤ 36) {neg : Bool}
    (hsplit : takeSign (s.dropWhile isSpace) = (neg, pre ++ body)) (hselects : Selects b pre body c) :
    (∀ x, (trimTail body).reverse.find? (fun x => !decide (digitVal x < c)) = some x →
      mpzSetStr (.obj z) s b st = .error (if 128 ≤ x then .fault else .inval)) ∧
    ((∀ x ∈ trimTail body, digitVal x < c) → ∃ st', mpzSetStr (.obj z) s b st = .ok st' ∧
      (st' (.obj z)).s = neg ∧ st'.Holds (.obj z)
        (if neg then -((Nat.ofDigits c ((trimTail body).reverse.map digitVal) : ℕ) : ℤ)
          else (Nat.ofDigits c ((trimTail body).reverse.map digitVal) : ℕ)) ∧
      ∀ n, n ≠ z → (st (.obj n)).Pads (st' (.obj n))) := by
  have hbounds := hselects.bounds hb
  have hrange : ¬(c < 2 ∨ 36 < c) := by omega
  -- the sum, the power and the digit before the loop
  obtain ⟨n, sign, k, hz⟩ := hshape.exists_of
  obtain ⟨st₀, hst₀⟩ : ∃ st₀, (st.set .pow Mpz.init).set .toadd Mpz.init = st₀ := ⟨_, rfl⟩
  have hz₀ : st₀ (.obj z) = Mpz.of n sign k := by
    rw [← hst₀, Store.set_of_ne _ (show Ptr.obj z ≠ .toadd from nofun),
      Store.set_of_ne _ (show Ptr.obj z ≠ .pow from nofun), hz]
  have hclear : (st₀ (.obj z)).zero = .ok (Mpz.of 0 sign ((Nat.digits base n).length + k)) := by
    rw [hz₀, Mpz.zero_of]
  obtain ⟨st₁, hst₁⟩ : ∃ st₁,
    st₀.set (.obj z) (Mpz.of 0 sign ((Nat.digits base n).length + k)) = st₁ := ⟨_, rfl⟩
  have hinit : ∀ q, q = .pow ∨ q = .toadd → (st₁ q).Shape := by
    rintro q (rfl | rfl)
    · rw [← hst₁, Store.set_of_ne _ (show Ptr.pow ≠ .obj z from nofun), ← hst₀,
        Store.set_of_ne _ (show Ptr.pow ≠ .toadd from nofun), Store.set_self]
      exact Mpz.init_shape
    · rw [← hst₁, Store.set_of_ne _ (show Ptr.toadd ≠ .obj z from nofun), ← hst₀, Store.set_self]
      exact Mpz.init_shape
  obtain ⟨i, -, hone⟩ := mpzSetUi_eq (z := .pow) nofun (hinit .pow (Or.inl rfl))
    (show 1 < base by decide)
  obtain ⟨st₂, hst₂⟩ : ∃ st₂, (st₁.set .mpzSet (Mpz.of 1 false 0)).set .pow (Mpz.of 1 false i) =
    st₂ := ⟨_, rfl⟩
  have hother₂ : ∀ q, q ≠ .pow → q ≠ .mpzSet → st₂ q = st₁ q := fun q hq hq' => by
    rw [← hst₂, Store.set_of_ne _ hq, Store.set_of_ne _ hq']
  have hstate : DigitState z 0 1 st₂ := by
    refine ⟨⟨?_, ?_⟩, hst₂ ▸ Store.holds_of _ _ 1 i, ?_⟩
    · rw [hother₂ (.obj z) nofun nofun, ← hst₁, Store.set_self]
      exact Mpz.shape_of _ _ _
    · rw [hother₂ (.obj z) nofun nofun, ← hst₁, Store.set_self, Mpz.of_value]
      simp
    · rw [hother₂ .toadd nofun nofun]
      exact hinit .toadd (Or.inr rfl)
  have hrun : mpzSetStr (.obj z) s b st = do
      let st ← setStrLoop (.obj z) c (trimTail body).reverse st₂
      return st.setSign (.obj z) neg := by
    rw [mpzSetStr, hsplit]
    simp only [hselects.guessBase_eq, if_neg hrange, hst₀, hclear, bind, Except.bind, hst₁, hone,
      hst₂]
  refine ⟨fun x hx => ?_, fun hall => ?_⟩
  · rw [hrun, setStrLoop_find hbounds.2 hx hstate]
    rfl
  · obtain ⟨st', hloop, hsum, hpads⟩ := setStrLoop_digits hbounds.2
      (fun x hx => hall x (List.mem_reverse.mp hx)) hstate
    rw [Nat.zero_add, Nat.one_mul] at hsum
    refine ⟨st'.setSign (.obj z) neg, by rw [hrun, hloop]; rfl, ?_, hsum.setSign neg,
      fun n hn => ?_⟩
    · rw [Store.setSign, Store.set_self]
    · have hne : Ptr.obj n ≠ .obj z := fun heq => hn (Ptr.obj.inj heq)
      have hsame : st₂ (.obj n) = st (.obj n) := by
        rw [hother₂ (.obj n) nofun nofun, ← hst₁, Store.set_of_ne _ hne, ← hst₀,
          Store.set_of_ne _ (show Ptr.obj n ≠ .toadd from nofun),
          Store.set_of_ne _ (show Ptr.obj n ≠ .pow from nofun)]
      rw [Store.setSign_of_ne _ hne, ← hsame]
      exact hpads n hn

/-! ### When it is exact -/

/-- The parts of a string that is a number are those that the function goes by. -/
theorem Number.parts (n : Number b) (hb : b = 0 ∨ 2 ≤ b ∧ b ≤ 36) {neg : Bool}
    (hsplit : takeSign (n.text.dropWhile isSpace) = (neg, pre ++ body))
    (hselects : Selects b pre body c) :
    n.neg = neg ∧ n.pre = pre ∧ n.digits ++ n.trail = body ∧ n.radix = c := by
  rw [n.split hb, Prod.mk.injEq] at hsplit
  obtain ⟨hpre, hbody, hradix⟩ := n.selects.unique hselects hsplit.2
  exact ⟨hsplit.1, hpre, hbody, hradix⟩

end StyxWire.Sbn
