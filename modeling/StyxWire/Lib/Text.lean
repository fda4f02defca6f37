import Mathlib.Data.List.Basic
import Mathlib.Tactic.IntervalCases
import Mathlib.Tactic.Ring

/-!
# Text as bytes: characters, numerals and their reading

A C string is the list of its bytes, without the terminating NUL. This file has what a
program does with one: the character classes of the C locale, the comparison that
ignores case, the numerals `printf` writes (`Text.fmtU` for `%u`, `Text.fmtX` for `%x`,
`Text.padZero` for a width) and the numeral `strtoul` reads with base `0`
(`Text.strtoul`).

The two round trips, `Text.strtoul_fmtU` and `Text.strtoul_hex`, are what lets a number
survive being written by one module and read by another.
-/

namespace Text

/-- The byte of a character. -/
def ch (c : Char) : UInt8 := UInt8.ofNat c.toNat

/-- The bytes of a string literal. -/
def lit (s : String) : List UInt8 := s.toList.map ch

/-! ### Character classes -/

/-- `isspace`. -/
def isSpace (c : UInt8) : Bool := c == 32 || (9 ≤ c && c ≤ 13)

/-- `isdigit`. -/
def isDigit (c : UInt8) : Bool := 48 ≤ c && c ≤ 57

/-- `isgraph`. -/
def isGraph (c : UInt8) : Bool := 33 ≤ c && c ≤ 126

/-- `tolower`. -/
def toLower (c : UInt8) : UInt8 := if 65 ≤ c && c ≤ 90 then c + 32 else c

/-- `strcasecmp(a, b) == 0`. -/
def strcaseEq (a b : List UInt8) : Bool := a.map toLower == b.map toLower

/-- The value of a digit in the bases up to 36, and 36 for what is no digit. -/
def digitVal (c : UInt8) : ℕ :=
  if 48 ≤ c && c ≤ 57 then c.toNat - 48
  else if 97 ≤ c && c ≤ 122 then c.toNat - 87
  else if 65 ≤ c && c ≤ 90 then c.toNat - 55
  else 36

theorem digitVal_lt_of_isDigit {c : UInt8} (h : isDigit c = true) : digitVal c < 10 := by
  have hle : 48 ≤ c ∧ c ≤ 57 := by simpa [isDigit] using h
  have hnat : c.toNat ≤ 57 := UInt8.le_iff_toNat_le.mp hle.2
  rw [digitVal, if_pos (by simpa using hle)]
  omega

/-- The value of a digit does not depend on its case. -/
theorem digitVal_toLower (c : UInt8) : digitVal (toLower c) = digitVal c := by
  rw [toLower]
  split_ifs with hupper
  · rw [Bool.and_eq_true, decide_eq_true_eq, decide_eq_true_eq, UInt8.le_iff_toNat_le,
      UInt8.le_iff_toNat_le] at hupper
    have hbounds : (65 : UInt8).toNat = 65 ∧ (90 : UInt8).toNat = 90 := ⟨rfl, rfl⟩
    have hsum : (c + 32).toNat = c.toNat + 32 := by
      rw [UInt8.toNat_add]
      change (c.toNat + 32) % 256 = c.toNat + 32
      omega
    have hle : ∀ a b : UInt8, (a ≤ b) = (a.toNat ≤ b.toNat) := fun a b =>
      propext UInt8.le_iff_toNat_le
    simp only [digitVal, hle, hsum, UInt8.reduceToNat, Bool.and_eq_true, decide_eq_true_eq]
    split_ifs
    all_goals omega
  · rfl

/-! ### Writing numerals -/

/-- The numeral of `n` in base `b`, in lower case and without leading zeros. -/
def fmt (b n : ℕ) : List UInt8 := (Nat.toDigits b n).map ch

/-- `%u` (and `%lu`). -/
def fmtU (n : ℕ) : List UInt8 := fmt 10 n

/-- `%x`. -/
def fmtX (n : ℕ) : List UInt8 := fmt 16 n

/-- The `0w` of a format such as `%04x`. -/
def padZero (w : ℕ) (s : List UInt8) : List UInt8 := List.replicate (w - s.length) (ch '0') ++ s

/-! ### Reading numerals -/

/-- The number spelt by the digits of base `b` that open a string, in front of which
`acc` has been read. -/
def readNat (b : ℕ) : List UInt8 → ℕ → ℕ
  | [], acc => acc
  | c :: s, acc => if digitVal c < b then readNat b s (acc * b + digitVal c) else acc

/-- What `strtoul` reads after the blanks and the sign, the base being guessed from the
prefix: `0x` for sixteen, `0` for eight, ten otherwise. -/
def numeral (s : List UInt8) : ℕ :=
  if s.head? = some (ch '0') then
    if (s[1]? = some (ch 'x') ∨ s[1]? = some (ch 'X')) ∧ s[2]?.any (digitVal · < 16) then
      readNat 16 (s.drop 2) 0
    else readNat 8 s 0
  else readNat 10 s 0

/-- `strtoul(s, NULL, 0)`, with 64-bit unsigned longs: an overflow saturates, and a
minus sign negates modulo `2 ^ 64`. -/
def strtoul (s : List UInt8) : ℕ :=
  let s := s.dropWhile isSpace
  let v := numeral (if s.head? = some (ch '-') ∨ s.head? = some (ch '+') then s.tail else s)
  if 2 ^ 64 ≤ v then 2 ^ 64 - 1
  else if s.head? = some (ch '-') then (2 ^ 64 - v) % 2 ^ 64 else v

theorem readNat_lt_pow {b : ℕ} {s : List UInt8} (hs : ∀ c ∈ s, digitVal c < b) (acc : ℕ) :
    readNat b s acc < (acc + 1) * b ^ s.length := by
  induction s generalizing acc with
  | nil => simp [readNat]
  | cons c s ih =>
    have hc := hs c List.mem_cons_self
    have hle : acc * b + digitVal c + 1 ≤ (acc + 1) * b := by
      rw [Nat.succ_mul]
      omega
    rw [readNat, if_pos hc, List.length_cons, pow_succ']
    calc readNat b s (acc * b + digitVal c)
        < (acc * b + digitVal c + 1) * b ^ s.length :=
          ih (fun x hx => hs x (List.mem_cons_of_mem _ hx)) _
      _ ≤ (acc + 1) * b * b ^ s.length := Nat.mul_le_mul_right _ hle
      _ = (acc + 1) * (b * b ^ s.length) := Nat.mul_assoc _ _ _

/-! ### The round trips -/

theorem digitVal_digitChar {d : ℕ} (hd : d < 16) : digitVal (ch d.digitChar) = d := by
  interval_cases d <;> decide

theorem fmt_of_lt {b n : ℕ} (h : n < b) : fmt b n = [ch n.digitChar] := by
  rw [fmt, Nat.toDigits_of_lt_base h, List.map_singleton]

/-- The last digit comes off the end. -/
theorem fmt_of_le {b n : ℕ} (hb : 1 < b) (h : b ≤ n) :
    fmt b n = fmt b (n / b) ++ [ch (n % b).digitChar] := by
  rw [fmt, Nat.toDigits_of_base_le hb h, List.map_append, List.map_singleton, fmt]

/-- Induction on a numeral, one digit at a time from the right. -/
theorem fmt_induction {b : ℕ} (hb : 1 < b) {P : ℕ → Prop} (hlt : ∀ n, n < b → P n)
    (hle : ∀ n, b ≤ n → P (n / b) → P n) (n : ℕ) : P n := by
  induction n using Nat.strong_induction_on with
  | _ n ih =>
    rcases Nat.lt_or_ge n b with h | h
    · exact hlt n h
    · exact hle n h (ih _ (Nat.div_lt_self (by omega) hb))

/-- A numeral is spelt with the digits of its base. -/
theorem digitVal_of_mem_fmt {b : ℕ} (hb : 1 < b) (hb' : b ≤ 16) (n : ℕ) :
    ∀ c ∈ fmt b n, digitVal c < b := by
  induction n using fmt_induction hb with
  | hlt n h =>
    rw [fmt_of_lt h]
    simpa [digitVal_digitChar (show n < 16 by omega)] using h
  | hle n h ih =>
    rw [fmt_of_le hb h]
    intro c hc
    rcases List.mem_append.mp hc with hc | hc
    · exact ih c hc
    · have hmod : n % b < b := Nat.mod_lt _ (by omega)
      rw [List.mem_singleton.mp hc, digitVal_digitChar (by omega)]
      exact hmod

theorem fmt_ne_nil (b n : ℕ) : fmt b n ≠ [] := by
  simp [fmt]

/-- A number below `b ^ (k + 1)` has at most `k + 1` digits. -/
theorem length_fmt_le {b : ℕ} (hb : 1 < b) {n k : ℕ} (h : n < b ^ (k + 1)) :
    (fmt b n).length ≤ k + 1 := by
  induction n using fmt_induction hb generalizing k with
  | hlt n hn =>
    rw [fmt_of_lt hn, List.length_singleton]
    exact Nat.succ_pos k
  | hle n hn ih =>
    rw [fmt_of_le hb hn, List.length_append, List.length_singleton]
    cases k with
    | zero =>
      rw [Nat.zero_add, Nat.pow_one] at h
      omega
    | succ k =>
      have hdiv : n / b < b ^ (k + 1) := Nat.div_lt_of_lt_mul (by rwa [Nat.pow_succ'] at h)
      have := ih hdiv
      omega

theorem readNat_append {b : ℕ} {s : List UInt8} (hs : ∀ c ∈ s, digitVal c < b)
    (t : List UInt8) (acc : ℕ) : readNat b (s ++ t) acc = readNat b t (readNat b s acc) := by
  induction s generalizing acc with
  | nil => rfl
  | cons c s ih =>
    have hc := hs c (by simp)
    rw [List.cons_append, readNat, readNat, if_pos hc, if_pos hc]
    exact ih (fun c hc => hs c (by simp [hc])) _

/-- **A numeral spells its number.** -/
theorem readNat_fmt {b : ℕ} (hb : 1 < b) (hb' : b ≤ 16) (n : ℕ) : readNat b (fmt b n) 0 = n := by
  induction n using fmt_induction hb with
  | hlt n h =>
    rw [fmt_of_lt h, readNat, digitVal_digitChar (by omega), if_pos h]
    simp [readNat]
  | hle n h ih =>
    have hmod : n % b < b := Nat.mod_lt _ (by omega)
    rw [fmt_of_le hb h, readNat_append (digitVal_of_mem_fmt hb hb' _), ih, readNat,
      digitVal_digitChar (by omega), if_pos hmod, readNat, Nat.mul_comm]
    exact Nat.div_add_mod n b

theorem readNat_padZero {b : ℕ} (hb : 0 < b) (w : ℕ) (s : List UInt8) :
    readNat b (padZero w s) 0 = readNat b s 0 := by
  have h0 : digitVal (ch '0') = 0 := by decide
  rw [padZero]
  generalize w - s.length = k
  induction k with
  | zero => rfl
  | succ k ih => rwa [List.replicate_succ, List.cons_append, readNat, h0, if_pos hb, Nat.zero_mul]

theorem mem_padZero {w : ℕ} {s : List UInt8} {c : UInt8} (h : c ∈ padZero w s) :
    c = ch '0' ∨ c ∈ s := by
  rcases List.mem_append.mp h with h | h
  · exact Or.inl (List.eq_of_mem_replicate h)
  · exact Or.inr h

theorem padZero_ne_nil {w : ℕ} {s : List UInt8} (h : s ≠ []) : padZero w s ≠ [] :=
  List.append_ne_nil_of_right_ne_nil _ h

/-- The characters a numeral is made of are neither blanks nor signs. -/
theorem ne_of_digitVal_lt {c d : UInt8} (h : digitVal c < 36) (hd : digitVal d = 36 := by decide) :
    c ≠ d := by
  rintro rfl
  omega

theorem isSpace_eq_false {c : UInt8} (h : digitVal c < 36) : isSpace c = false := by
  have hall : ∀ n < 256, digitVal (UInt8.ofNat n) < 36 → isSpace (UInt8.ofNat n) = false := by
    decide +kernel
  have hc := hall c.toNat c.toNat_lt
  rw [UInt8.ofNat_toNat] at hc
  exact hc h

/-- A string that opens with a digit has neither blanks nor a sign in front. -/
theorem strtoul_of_digit {c : UInt8} {s : List UInt8} (h : digitVal c < 36)
    (hv : numeral (c :: s) < 2 ^ 64) : strtoul (c :: s) = numeral (c :: s) := by
  have hm : c ≠ ch '-' := ne_of_digitVal_lt h
  have hp : c ≠ ch '+' := ne_of_digitVal_lt h
  simp only [strtoul, List.dropWhile_cons, isSpace_eq_false h, Bool.false_eq_true, if_false,
    List.head?_cons, Option.some.injEq, hm, hp, or_self]
  rw [if_neg (by omega)]

/-- The first character of a decimal numeral is a zero only for the number zero. -/
theorem head?_fmtU {n : ℕ} (hn : n ≠ 0) : (fmtU n).head? ≠ some (ch '0') := by
  have key : ∀ n : ℕ, n ≠ 0 → (fmt 10 n).head? ≠ some (ch '0') := by
    intro n
    induction n using fmt_induction (b := 10) (by omega) with
    | hlt n h =>
      intro hn
      rw [fmt_of_lt h]
      interval_cases n <;> first | exact absurd rfl hn | decide
    | hle n h ih =>
      intro hn
      rw [fmt_of_le (by omega) h, List.head?_append_of_ne_nil _ (fmt_ne_nil _ _)]
      exact ih (by omega)
  exact key n hn

theorem exists_cons_fmt {b : ℕ} (hb : 1 < b) (hb' : b ≤ 16) (n : ℕ) :
    ∃ c s, fmt b n = c :: s ∧ digitVal c < b := by
  obtain ⟨c, s, hcs⟩ := List.exists_cons_of_ne_nil (fmt_ne_nil b n)
  exact ⟨c, s, hcs, digitVal_of_mem_fmt hb hb' n c (by simp [hcs])⟩

/-- **A decimal numeral is read back**, and not as an octal one: only zero opens with
the digit zero. -/
theorem strtoul_fmtU {n : ℕ} (hn : n < 2 ^ 64) : strtoul (fmtU n) = n := by
  have hnum : numeral (fmtU n) = n := by
    rcases Nat.eq_zero_or_pos n with rfl | hpos
    · decide
    · rw [numeral, if_neg (head?_fmtU (by omega)), fmtU, readNat_fmt (by omega) (by omega)]
  obtain ⟨c, s, hcs, hc⟩ := exists_cons_fmt (b := 10) (by omega) (by omega) n
  have hU : fmtU n = c :: s := hcs
  rw [hU] at hnum ⊢
  rw [strtoul_of_digit (by omega) (by omega), hnum]

/-- **A hexadecimal numeral with its prefix is read back**, whatever its width. -/
theorem strtoul_hex {n : ℕ} (hn : n < 2 ^ 64) (w : ℕ) :
    strtoul (lit "0x" ++ padZero w (fmtX n)) = n := by
  obtain ⟨c, s, hcs⟩ := List.exists_cons_of_ne_nil (padZero_ne_nil (w := w) (fmt_ne_nil 16 n))
  have hc : digitVal c < 16 := by
    rcases mem_padZero (c := c) (by rw [hcs]; simp) with rfl | h
    · decide
    · exact digitVal_of_mem_fmt (by omega) (by omega) n c h
  have hnum : numeral (ch '0' :: ch 'x' :: c :: s) = n := by
    have hread : readNat 16 (c :: s) 0 = n := by
      rw [← hcs, readNat_padZero (by omega), readNat_fmt (by omega) (by omega)]
    simpa [numeral, hc] using hread
  have hlit : lit "0x" ++ padZero w (fmtX n) = ch '0' :: ch 'x' :: c :: s := by
    rw [fmtX, hcs]
    rfl
  rw [hlit, strtoul_of_digit (by decide) (by omega), hnum]

end Text
