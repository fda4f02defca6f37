import Mathlib.Data.Nat.Digits.Defs
import StyxWire.Lib.Bytes
import StyxWire.Lib.Text

/-!
# Numerals and their bytes

The numerals that C programs and their users write: decimal, hexadecimal behind `0x`, octal
behind `0` (`Text.Numeral`). `strtoul` reads each of them, up to the largest number it has
(`Text.strtoul_numeral`).

The bytes of a number, the most significant first (`Mem.beBytes`), tell it up to a multiple of a
power of 256 (`Mem.beBytes_eq_iff`).
-/

namespace Text

/-- The digits of the base `b` spell `v`, the most significant first. -/
structure Spells (b v : ℕ) (s : List UInt8) : Prop where
  ne_nil : s ≠ []
  digits : ∀ c ∈ s, digitVal c < b
  value : Nat.ofDigits b (s.reverse.map digitVal) = v

theorem Spells.of_all {b v : ℕ} {s : List UInt8} (hne : s ≠ [])
    (hall : (s.all fun c => digitVal c < b) = true)
    (hv : Nat.ofDigits b (s.reverse.map digitVal) = v) : Spells b v s :=
  ⟨hne, fun c hc => of_decide_eq_true (List.all_eq_true.mp hall c hc), hv⟩

/-- **The text is a numeral of `v`**. -/
inductive Numeral (v : ℕ) : List UInt8 → Prop
  | dec {s : List UInt8} (h : Spells 10 v s) (hzero : s.head? ≠ some (ch '0')) : Numeral v s
  | hex {x : UInt8} {s : List UInt8} (hx : x = ch 'x' ∨ x = ch 'X') (h : Spells 16 v s) :
    Numeral v (ch '0' :: x :: s)
  | oct {s : List UInt8} (h : Spells 8 v (ch '0' :: s)) : Numeral v (ch '0' :: s)

theorem readNat_eq_ofDigits {b : ℕ} {s : List UInt8} (hs : ∀ c ∈ s, digitVal c < b) (acc : ℕ) :
    readNat b s acc = acc * b ^ s.length + Nat.ofDigits b (s.reverse.map digitVal) := by
  induction s generalizing acc with
  | nil => simp [readNat]
  | cons c s ih =>
    have hc := hs c List.mem_cons_self
    rw [readNat, if_pos hc, ih fun d hd => hs d (List.mem_cons_of_mem c hd), List.reverse_cons,
      List.map_append, Nat.ofDigits_append, List.length_map, List.length_reverse,
      List.map_singleton, Nat.ofDigits_singleton, List.length_cons]
    ring

theorem Spells.readNat {b v : ℕ} {s : List UInt8} (h : Spells b v s) : readNat b s 0 = v := by
  rw [readNat_eq_ofDigits h.digits, Nat.zero_mul, Nat.zero_add, h.value]

namespace Numeral

variable {v : ℕ} {t : List UInt8}

/-- A numeral opens with a digit, and its characters are digits of some base. -/
theorem exists_cons (h : Numeral v t) : ∃ c s, t = c :: s ∧ digitVal c < 36 := by
  cases h with
  | dec h =>
    obtain ⟨c, s, rfl⟩ := List.exists_cons_of_ne_nil h.ne_nil
    exact ⟨c, s, rfl, lt_trans (h.digits c List.mem_cons_self) (by decide)⟩
  | hex hx h => exact ⟨_, _, rfl, by decide⟩
  | oct h => exact ⟨_, _, rfl, by decide⟩

theorem digitVal_lt (h : Numeral v t) : ∀ c ∈ t, digitVal c < 36 := by
  cases h with
  | dec h => exact fun c hc => lt_trans (h.digits c hc) (by decide)
  | hex hx h =>
    intro c hc
    rcases List.mem_cons.mp hc with rfl | hc
    · decide
    · rcases List.mem_cons.mp hc with rfl | hc
      · rcases hx with rfl | rfl
        · decide
        · decide
      · exact lt_trans (h.digits c hc) (by decide)
  | oct h => exact fun c hc => lt_trans (h.digits c hc) (by decide)

/-- The base is guessed right. -/
theorem numeral_eq (h : Numeral v t) : numeral t = v := by
  cases h with
  | dec h hzero => rw [numeral, if_neg hzero, h.readNat]
  | @hex x s hx h =>
    obtain ⟨c, s', rfl⟩ := List.exists_cons_of_ne_nil h.ne_nil
    have hc := h.digits c List.mem_cons_self
    have hpre : ((ch '0' :: x :: c :: s')[1]? = some (ch 'x') ∨
        (ch '0' :: x :: c :: s')[1]? = some (ch 'X')) ∧
        (ch '0' :: x :: c :: s')[2]?.any (digitVal · < 16) := by
      refine ⟨?_, decide_eq_true hc⟩
      rcases hx with rfl | rfl
      · exact Or.inl rfl
      · exact Or.inr rfl
    rw [numeral, if_pos List.head?_cons, if_pos hpre]
    exact h.readNat
  | @oct s h =>
    -- the second character is a digit, and not an `x`
    have hpre : ¬((((ch '0' :: s)[1]? = some (ch 'x') ∨ (ch '0' :: s)[1]? = some (ch 'X'))) ∧
        (ch '0' :: s)[2]?.any (digitVal · < 16)) := by
      rintro ⟨hx, -⟩
      have hlt : ∀ x, (ch '0' :: s)[1]? = some x → digitVal x < 8 := fun x hx =>
        h.digits x (List.mem_of_getElem? hx)
      rcases hx with hx | hx
      · exact absurd (hlt _ hx) (by decide)
      · exact absurd (hlt _ hx) (by decide)
    rw [numeral, if_pos List.head?_cons, if_neg hpre, h.readNat]

end Numeral

/-- **A numeral is read**, up to the largest number there is. -/
theorem strtoul_numeral {v : ℕ} {t : List UInt8} (h : Numeral v t) :
    strtoul t = min v (2 ^ 64 - 1) := by
  obtain ⟨c, s, rfl, hc⟩ := h.exists_cons
  have hm : c ≠ ch '-' := ne_of_digitVal_lt hc
  have hp : c ≠ ch '+' := ne_of_digitVal_lt hc
  have hnum := h.numeral_eq
  simp only [strtoul, List.dropWhile_cons, isSpace_eq_false hc, Bool.false_eq_true, if_false,
    List.head?_cons, Option.some.injEq, hm, hp, or_self, hnum]
  split_ifs with hbig
  · exact (Nat.min_eq_right (by omega)).symm
  · exact (Nat.min_eq_left (by omega)).symm

end Text

namespace Mem

/-- The `n` bytes of a number, the most significant first. -/
def beBytes : ℕ → ℕ → List UInt8
  | 0, _ => []
  | n + 1, v => UInt8.ofNat (v / 256 ^ n) :: beBytes n v

@[simp] theorem length_beBytes (n v : ℕ) : (beBytes n v).length = n := by
  induction n with
  | zero => rfl
  | succ n ih => rw [beBytes, List.length_cons, ih]

theorem beBytes_two : beBytes 2 = putBe16 := by
  funext v
  simp [beBytes, putBe16]

theorem beBytes_three : beBytes 3 = fun v => (putBe32 v).drop 1 := by
  funext v
  simp [beBytes, putBe32, putBe16]

theorem beBytes_four : beBytes 4 = putBe32 := by
  funext v
  simp [beBytes, putBe32, putBe16, Nat.div_div_eq_div_mul]

/-- **What the bytes tell** is the number up to a multiple. -/
theorem beBytes_eq_iff {n v w : ℕ} : beBytes n v = beBytes n w ↔ v % 256 ^ n = w % 256 ^ n := by
  induction n with
  | zero => simp [beBytes, Nat.mod_one]
  | succ n ih =>
    have hpos : 0 < 256 ^ n := by positivity
    rw [beBytes, beBytes, List.cons.injEq, ih, Nat.mod_pow_succ, Nat.mod_pow_succ]
    have hbyte : UInt8.ofNat (v / 256 ^ n) = UInt8.ofNat (w / 256 ^ n) ↔
        v / 256 ^ n % 256 = w / 256 ^ n % 256 := by
      rw [← UInt8.toNat_inj]
      simp
    have hv := Nat.mod_lt v hpos
    have hw := Nat.mod_lt w hpos
    rw [hbyte]
    constructor
    · rintro ⟨hhi, hlo⟩
      rw [hhi, hlo]
    · intro h
      have hlo : v % 256 ^ n = w % 256 ^ n := by
        have := congrArg (· % 256 ^ n) h
        simpa [Nat.add_mul_mod_self_left] using this
      refine ⟨?_, hlo⟩
      rw [hlo] at h
      exact Nat.eq_of_mul_eq_mul_left hpos (Nat.add_left_cancel h)

end Mem
