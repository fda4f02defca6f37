import Mathlib.Algebra.Order.Ring.Int
import Mathlib.Data.List.DropRight
import Mathlib.Data.List.GetD
import Mathlib.Data.Nat.Digits.Lemmas
import Mathlib.Tactic.Linarith
import Mathlib.Tactic.LinearCombination
import Mathlib.Tactic.Ring

/-!
# Arithmetic on limbs

A natural number is kept as the list of its digits in some base, the lowest one first, and
the value of such a list is `Nat.ofDigits`. These are the loops of schoolbook arithmetic, from
the lowest limb upwards, with a carry: each of them is a definition and a theorem about the
value of what it computes.

A list may end in zeros; `Limbs.size` is its length without them. What is left then is the
list `Nat.digits` of the number (`Limbs.take_size`), so that numbers of one size can be
compared limb by limb.
-/

namespace Limbs

variable {b : ℕ}

/-- Every limb is a digit. -/
def Proper (b : ℕ) (xs : List ℕ) : Prop := ∀ x ∈ xs, x < b

theorem proper_nil : Proper b [] := fun _ hx => absurd hx List.not_mem_nil

theorem proper_cons {x : ℕ} {xs : List ℕ} : Proper b (x :: xs) ↔ x < b ∧ Proper b xs :=
  List.forall_mem_cons

theorem proper_append {xs ys : List ℕ} : Proper b (xs ++ ys) ↔ Proper b xs ∧ Proper b ys :=
  List.forall_mem_append

theorem proper_replicate_zero (hb : 0 < b) (n : ℕ) : Proper b (List.replicate n 0) :=
  fun _ hx => (List.eq_of_mem_replicate hx).symm ▸ hb

theorem Proper.take {xs : List ℕ} (h : Proper b xs) (n : ℕ) : Proper b (xs.take n) :=
  fun x hx => h x (List.mem_of_mem_take hx)

theorem Proper.drop {xs : List ℕ} (h : Proper b xs) (n : ℕ) : Proper b (xs.drop n) :=
  fun x hx => h x (List.mem_of_mem_drop hx)

theorem Proper.value_lt {xs : List ℕ} (h : Proper b xs) (hb : 1 < b) :
    Nat.ofDigits b xs < b ^ xs.length :=
  Nat.ofDigits_lt_base_pow_length hb h

/-! ### Leading zeros -/

/-- The length without the zeros at the end. -/
def size (xs : List ℕ) : ℕ := (xs.reverse.dropWhile (· = 0)).length

theorem size_le (xs : List ℕ) : size xs ≤ xs.length := by
  rw [size, ← @List.length_reverse _ xs]
  exact (List.dropWhile_sublist _).length_le

/-- A list is its digits that count, and zeros. -/
theorem eq_append_zeros (xs : List ℕ) :
    xs = xs.rdropWhile (· = 0) ++ List.replicate (xs.length - size xs) 0 := by
  have hzeros : xs.reverse.takeWhile (· = 0) = List.replicate (xs.length - size xs) 0 := by
    have hlen := congrArg List.length (List.takeWhile_append_dropWhile (p := (· = 0))
      (l := xs.reverse))
    rw [List.length_append, List.length_reverse] at hlen
    refine List.eq_replicate_iff.mpr ⟨?_, fun x hx => ?_⟩
    · rw [size]
      omega
    · simpa using List.mem_takeWhile_imp hx
  have hsplit := congrArg List.reverse (List.takeWhile_append_dropWhile (p := (· = 0))
    (l := xs.reverse))
  rw [List.reverse_append, List.reverse_reverse, hzeros, List.reverse_replicate] at hsplit
  exact hsplit.symm

theorem length_rdropWhile_zero (xs : List ℕ) : (xs.rdropWhile (· = 0)).length = size xs :=
  List.length_reverse

theorem take_size_eq (xs : List ℕ) : xs.take (size xs) = xs.rdropWhile (· = 0) := by
  have htake := congrArg (List.take (size xs)) (eq_append_zeros xs)
  rwa [List.take_left' (length_rdropWhile_zero xs)] at htake

theorem value_rdropWhile (xs : List ℕ) :
    Nat.ofDigits b (xs.rdropWhile (· = 0)) = Nat.ofDigits b xs := by
  conv_rhs => rw [eq_append_zeros xs, Nat.ofDigits_append_replicate_zero]

/-- **Without the zeros, the list is that of the digits of its value.** -/
theorem take_size {xs : List ℕ} (h : Proper b xs) (hb : 1 < b) :
    xs.take (size xs) = Nat.digits b (Nat.ofDigits b xs) := by
  have hproper : ∀ x ∈ xs.rdropWhile (· = 0), x < b := by
    intro x hx
    refine h x ?_
    rw [eq_append_zeros xs]
    exact List.mem_append_left _ hx
  have hlast : ∀ hne : xs.rdropWhile (· = 0) ≠ [],
      (xs.rdropWhile (· = 0)).getLast hne ≠ 0 := fun hne hzero =>
    List.rdropWhile_last_not (· = 0) xs hne (decide_eq_true hzero)
  have hdigits := Nat.digits_ofDigits b hb _ hproper hlast
  rw [value_rdropWhile] at hdigits
  rw [hdigits, take_size_eq]

/-- The digits of its value, and zeros. -/
theorem eq_digits_append {xs : List ℕ} (h : Proper b xs) (hb : 1 < b) :
    xs = Nat.digits b (Nat.ofDigits b xs) ++ List.replicate (xs.length - size xs) 0 := by
  rw [← take_size h hb, take_size_eq]
  exact eq_append_zeros xs

theorem size_eq {xs : List ℕ} (h : Proper b xs) (hb : 1 < b) :
    size xs = (Nat.digits b (Nat.ofDigits b xs)).length := by
  rw [← take_size h hb, List.length_take, Nat.min_eq_left (size_le xs)]

/-- A list that does not end in zero is that of the digits of its value. -/
theorem eq_digits {xs : List ℕ} (h : Proper b xs) (hb : 1 < b)
    (hlast : ∀ hne : xs ≠ [], xs.getLast hne ≠ 0) : xs = Nat.digits b (Nat.ofDigits b xs) :=
  (Nat.digits_ofDigits b hb xs h hlast).symm

theorem proper_digits (hb : 1 < b) (n : ℕ) : Proper b (Nat.digits b n) :=
  fun _ hx => Nat.digits_lt_base hb hx

/-- So is one that is not longer than that list. -/
theorem eq_digits_of_length_le {xs : List ℕ} (h : Proper b xs) (hb : 1 < b)
    (hlen : xs.length ≤ (Nat.digits b (Nat.ofDigits b xs)).length) :
    xs = Nat.digits b (Nat.ofDigits b xs) := by
  rw [← size_eq h hb] at hlen
  rw [← take_size h hb, List.take_of_length_le hlen]

/-- The limbs of a number, of which the last one may be zero. -/
theorem eq_digits_or_append_zero {xs : List ℕ} (h : Proper b xs) (hb : 1 < b) {n : ℕ}
    (hn : Nat.ofDigits b xs = n) {l : ℕ} (hlen : xs.length = l + 1)
    (hle : l ≤ (Nat.digits b n).length) :
    (xs.getD l 0 ≠ 0 ∧ xs = Nat.digits b n) ∨ (xs.getD l 0 = 0 ∧ xs = Nat.digits b n ++ [0]) := by
  have hlt : l < xs.length := by omega
  have hne : xs ≠ [] := List.ne_nil_of_length_pos (by omega)
  have hlast : xs.getLast hne = xs.getD l 0 := by
    rw [List.getLast_eq_getElem, List.getD_eq_getElem _ _ hlt]
    congr 1
    omega
  by_cases hzero : xs.getD l 0 = 0
  · right
    have hsplit := List.dropLast_append_getLast hne
    rw [hlast, hzero] at hsplit
    have hvalue : Nat.ofDigits b xs.dropLast = n := by
      rw [← hn]
      conv_rhs => rw [← hsplit, Nat.ofDigits_append_zero]
    have hdigits : xs.dropLast = Nat.digits b n := by
      rw [← hvalue]
      refine eq_digits_of_length_le (fun x hx => h x (List.mem_of_mem_dropLast hx)) hb ?_
      rw [hvalue, List.length_dropLast, hlen]
      exact hle
    exact ⟨hzero, by rw [← hdigits, hsplit]⟩
  · left
    refine ⟨hzero, hn ▸ eq_digits h hb fun _ => ?_⟩
    rwa [hlast]

/-! ### Comparison -/

/-- The comparison of two lists of one length, from the highest limb. -/
def cmpHigh : List ℕ → List ℕ → Ordering
  | x :: xs, y :: ys => if x > y then .gt else if x < y then .lt else cmpHigh xs ys
  | _, _ => .eq

theorem cmpHigh_reverse {xs ys : List ℕ} (hlen : xs.length = ys.length) (hx : Proper b xs)
    (hy : Proper b ys) (hb : 1 < b) :
    cmpHigh xs.reverse ys.reverse = compare (Nat.ofDigits b xs) (Nat.ofDigits b ys) := by
  induction xs using List.reverseRecOn generalizing ys with
  | nil =>
    rw [List.length_nil] at hlen
    rw [List.eq_nil_of_length_eq_zero hlen.symm]
    rfl
  | append_singleton xs x ih =>
    rcases List.eq_nil_or_concat' ys with rfl | ⟨ys, y, rfl⟩
    · simp at hlen
    · rw [List.length_append, List.length_append, List.length_singleton, List.length_singleton,
        Nat.add_right_cancel_iff] at hlen
      obtain ⟨hxs, -⟩ := proper_append.mp hx
      obtain ⟨hys, -⟩ := proper_append.mp hy
      have hxlt := hxs.value_lt hb
      have hylt := hys.value_lt hb
      rw [← hlen] at hylt
      rw [List.reverse_append, List.reverse_append, List.reverse_singleton, List.reverse_singleton,
        List.singleton_append, List.singleton_append, cmpHigh, ih hlen hxs hys, Nat.ofDigits_append,
        Nat.ofDigits_append, ← hlen, Nat.ofDigits_singleton, Nat.ofDigits_singleton]
      rcases Nat.lt_trichotomy x y with hlt | rfl | hgt
      · rw [if_neg (Nat.lt_asymm hlt), if_pos hlt]
        refine (Nat.compare_eq_lt.mpr ?_).symm
        calc Nat.ofDigits b xs + b ^ xs.length * x
            < b ^ xs.length + b ^ xs.length * x := Nat.add_lt_add_right hxlt _
          _ = b ^ xs.length * (x + 1) := by ring
          _ ≤ b ^ xs.length * y := Nat.mul_le_mul_left _ hlt
          _ ≤ Nat.ofDigits b ys + b ^ xs.length * y := Nat.le_add_left _ _
      · rw [if_neg (Nat.lt_irrefl x), if_neg (Nat.lt_irrefl x)]
        rcases Nat.lt_trichotomy (Nat.ofDigits b xs) (Nat.ofDigits b ys) with h | h | h
        · rw [Nat.compare_eq_lt.mpr h, Nat.compare_eq_lt.mpr (Nat.add_lt_add_right h _)]
        · rw [h]
          simp
        · rw [Nat.compare_eq_gt.mpr h, Nat.compare_eq_gt.mpr (Nat.add_lt_add_right h _)]
      · rw [if_pos hgt]
        refine (Nat.compare_eq_gt.mpr ?_).symm
        calc Nat.ofDigits b ys + b ^ xs.length * y
            < b ^ xs.length + b ^ xs.length * y := Nat.add_lt_add_right hylt _
          _ = b ^ xs.length * (y + 1) := by ring
          _ ≤ b ^ xs.length * x := Nat.mul_le_mul_left _ hgt
          _ ≤ Nat.ofDigits b xs + b ^ xs.length * x := Nat.le_add_left _ _

/-! ### Addition -/

/-- The sums of two lists of one length, limb by limb, and the carry. -/
def addc (b : ℕ) : List ℕ → List ℕ → ℕ → List ℕ × ℕ
  | x :: xs, y :: ys, car =>
    let sum := x + y + car
    let rest := addc b xs ys (sum / b)
    (sum % b :: rest.1, rest.2)
  | _, _, car => ([], car)

/-- The carry is added to a list. -/
def incr (b : ℕ) : List ℕ → ℕ → List ℕ × ℕ
  | x :: xs, car =>
    let sum := x + car
    let rest := incr b xs (sum / b)
    (sum % b :: rest.1, rest.2)
  | [], car => ([], car)

theorem length_addc {xs ys : List ℕ} (hlen : xs.length = ys.length) (car : ℕ) :
    (addc b xs ys car).1.length = xs.length := by
  induction xs generalizing ys car with
  | nil => rfl
  | cons x xs ih =>
    obtain ⟨y, ys, rfl⟩ := List.exists_cons_of_length_eq_add_one hlen.symm
    exact congrArg (· + 1) (ih (Nat.succ.inj hlen) _)

theorem length_incr (xs : List ℕ) (car : ℕ) : (incr b xs car).1.length = xs.length := by
  induction xs generalizing car with
  | nil => rfl
  | cons x xs ih => exact congrArg (· + 1) (ih _)

theorem value_addc {xs ys : List ℕ} (hlen : xs.length = ys.length) (car : ℕ) :
    Nat.ofDigits b (addc b xs ys car).1 + b ^ xs.length * (addc b xs ys car).2 =
      Nat.ofDigits b xs + Nat.ofDigits b ys + car := by
  induction xs generalizing ys car with
  | nil =>
    rw [List.eq_nil_of_length_eq_zero hlen.symm]
    simp [addc]
  | cons x xs ih =>
    obtain ⟨y, ys, rfl⟩ := List.exists_cons_of_length_eq_add_one hlen.symm
    have hrest := ih (Nat.succ.inj hlen) ((x + y + car) / b)
    have hdiv := Nat.mod_add_div (x + y + car) b
    simp only [addc, Nat.ofDigits_cons, List.length_cons, pow_succ]
    linear_combination b * hrest + hdiv

theorem value_incr (xs : List ℕ) (car : ℕ) :
    Nat.ofDigits b (incr b xs car).1 + b ^ xs.length * (incr b xs car).2 =
      Nat.ofDigits b xs + car := by
  induction xs generalizing car with
  | nil => simp [incr]
  | cons x xs ih =>
    have hrest := ih ((x + car) / b)
    have hdiv := Nat.mod_add_div (x + car) b
    simp only [incr, Nat.ofDigits_cons, List.length_cons, pow_succ]
    linear_combination b * hrest + hdiv

theorem proper_addc (hb : 0 < b) (xs ys : List ℕ) (car : ℕ) : Proper b (addc b xs ys car).1 := by
  induction xs generalizing ys car with
  | nil => exact proper_nil
  | cons x xs ih =>
    cases ys with
    | nil => exact proper_nil
    | cons y ys => exact proper_cons.mpr ⟨Nat.mod_lt _ hb, ih ys _⟩

theorem proper_incr (hb : 0 < b) (xs : List ℕ) (car : ℕ) : Proper b (incr b xs car).1 := by
  induction xs generalizing car with
  | nil => exact proper_nil
  | cons x xs ih => exact proper_cons.mpr ⟨Nat.mod_lt _ hb, ih _⟩

/-- The carry is one at most. -/
theorem addc_carry_le {xs ys : List ℕ} (hx : Proper b xs) (hy : Proper b ys) {car : ℕ}
    (hcar : car ≤ 1) : (addc b xs ys car).2 ≤ 1 := by
  induction xs generalizing ys car with
  | nil => exact hcar
  | cons x xs ih =>
    cases ys with
    | nil => exact hcar
    | cons y ys =>
      obtain ⟨hx0, hxs⟩ := proper_cons.mp hx
      obtain ⟨hy0, hys⟩ := proper_cons.mp hy
      refine ih hxs hys ?_
      exact Nat.lt_succ_iff.mp (Nat.div_lt_of_lt_mul (by omega))

theorem incr_carry_le {xs : List ℕ} (hx : Proper b xs) {car : ℕ} (hcar : car ≤ 1) :
    (incr b xs car).2 ≤ 1 := by
  induction xs generalizing car with
  | nil => exact hcar
  | cons x xs ih =>
    obtain ⟨hx0, hxs⟩ := proper_cons.mp hx
    refine ih hxs ?_
    exact Nat.lt_succ_iff.mp (Nat.div_lt_of_lt_mul (by omega))

/-- The sum of two lists: the loop over both, the loop over the rest of the second one, and the
last carry. -/
def add (b : ℕ) (xs zs : List ℕ) : List ℕ :=
  let low := addc b xs (zs.take xs.length) 0
  let high := incr b (zs.drop xs.length) low.2
  low.1 ++ high.1 ++ if high.2 ≠ 0 then [high.2] else []

/-- **The sum is that of the values**, and no longer than it must be. -/
theorem add_eq_digits {xs zs : List ℕ} (hx : Proper b xs) (hz : Proper b zs) (hb : 1 < b)
    (hlen : xs.length ≤ zs.length) {n : ℕ} (hn : n = Nat.ofDigits b xs + Nat.ofDigits b zs)
    (hsize : zs.length ≤ (Nat.digits b n).length) : add b xs zs = Nat.digits b n := by
  have htake : xs.length = (zs.take xs.length).length := by
    rw [List.length_take, Nat.min_eq_left hlen]
  have hlow := value_addc (b := b) htake 0
  have hhigh := value_incr (b := b) (zs.drop xs.length) (addc b xs (zs.take xs.length) 0).2
  have hle := incr_carry_le (hz.drop xs.length)
    (addc_carry_le hx (hz.take xs.length) (Nat.zero_le 1))
  have hlenlow := length_addc (b := b) htake 0
  have hlenhigh := length_incr (b := b) (zs.drop xs.length) (addc b xs (zs.take xs.length) 0).2
  have hproper := proper_append.mpr
    ⟨proper_addc (Nat.zero_lt_of_lt hb) xs (zs.take xs.length) 0,
      proper_incr (Nat.zero_lt_of_lt hb) (zs.drop xs.length)
        (addc b xs (zs.take xs.length) 0).2⟩
  have hsplit : Nat.ofDigits b zs = Nat.ofDigits b (zs.take xs.length) +
      b ^ xs.length * Nat.ofDigits b (zs.drop xs.length) := by
    conv_lhs => rw [← List.take_append_drop xs.length zs, Nat.ofDigits_append, ← htake]
  rw [add]
  generalize addc b xs (zs.take xs.length) 0 = low at *
  generalize incr b (zs.drop xs.length) low.2 = high at *
  have hlenall : (low.1 ++ high.1).length = zs.length := by
    rw [List.length_append, hlenlow, hlenhigh, List.length_drop]
    omega
  have hvalue : Nat.ofDigits b (low.1 ++ high.1) + b ^ zs.length * high.2 = n := by
    have hpow : b ^ zs.length = b ^ xs.length * b ^ (zs.drop xs.length).length := by
      rw [← pow_add, List.length_drop, Nat.add_sub_cancel' hlen]
    rw [Nat.ofDigits_append, hlenlow, hn, hsplit, hpow]
    linear_combination hlow + b ^ xs.length * hhigh
  split_ifs with hcar
  · -- the carry is one, and the highest limb
    have hone : high.2 = 1 := by omega
    have hsum : n = Nat.ofDigits b (low.1 ++ high.1 ++ [high.2]) := by
      rw [Nat.ofDigits_append, Nat.ofDigits_singleton, hlenall, hvalue]
    have hall : Proper b (low.1 ++ high.1 ++ [high.2]) := by
      refine proper_append.mpr ⟨hproper, proper_cons.mpr ⟨?_, proper_nil⟩⟩
      omega
    rw [hsum]
    refine eq_digits_of_length_le hall hb ?_
    rw [← hsum, List.length_append, hlenall, List.length_singleton, Nat.succ_le_iff,
      Nat.lt_digits_length_iff hb]
    rw [hone, Nat.mul_one] at hvalue
    omega
  · rw [not_ne_iff.mp hcar, Nat.mul_zero, Nat.add_zero] at hvalue
    rw [List.append_nil, ← hvalue]
    refine eq_digits_of_length_le hproper hb ?_
    rwa [hvalue, hlenall]

/-! ### Subtraction -/

/-- The differences of two lists of one length, limb by limb, and the borrow. -/
def subb (b : ℕ) : List ℕ → List ℕ → ℕ → List ℕ × ℕ
  | x :: xs, y :: ys, car =>
    let sub : ℤ := x - car - y
    let rest := subb b xs ys (if sub < 0 then 1 else 0)
    ((if sub < 0 then sub + b else sub).toNat :: rest.1, rest.2)
  | _, _, car => ([], car)

/-- The borrow is taken from a list. -/
def decr (b : ℕ) : List ℕ → ℕ → List ℕ × ℕ
  | x :: xs, car =>
    let sub : ℤ := x - car
    let rest := decr b xs (if sub < 0 then 1 else 0)
    ((if sub < 0 then sub + b else sub).toNat :: rest.1, rest.2)
  | [], car => ([], car)

theorem length_subb {xs ys : List ℕ} (hlen : xs.length = ys.length) (car : ℕ) :
    (subb b xs ys car).1.length = xs.length := by
  induction xs generalizing ys car with
  | nil => rfl
  | cons x xs ih =>
    obtain ⟨y, ys, rfl⟩ := List.exists_cons_of_length_eq_add_one hlen.symm
    exact congrArg (· + 1) (ih (Nat.succ.inj hlen) _)

theorem length_decr (xs : List ℕ) (car : ℕ) : (decr b xs car).1.length = xs.length := by
  induction xs generalizing car with
  | nil => rfl
  | cons x xs ih => exact congrArg (· + 1) (ih _)

theorem decr_eq_subb (xs : List ℕ) (car : ℕ) :
    decr b xs car = subb b xs (List.replicate xs.length 0) car := by
  induction xs generalizing car with
  | nil => rfl
  | cons x xs ih => simp [decr, subb, List.replicate_succ, ih]

/-- One limb of a difference, and the borrow. -/
theorem sub_limb {x y car : ℕ} (hx : x < b) (hy : y < b) (hcar : car ≤ 1) :
    (if (x : ℤ) - car - y < 0 then (x : ℤ) - car - y + b else (x : ℤ) - car - y).toNat < b ∧
    (if (x : ℤ) - car - y < 0 then (x : ℤ) - car - y + b else (x : ℤ) - car - y).toNat + y + car =
      x + b * (if (x : ℤ) - car - y < 0 then 1 else 0) := by
  split_ifs with h <;> constructor <;> omega

theorem subb_spec {xs ys : List ℕ} (hlen : xs.length = ys.length) (hx : Proper b xs)
    (hy : Proper b ys) {car : ℕ} (hcar : car ≤ 1) :
    Proper b (subb b xs ys car).1 ∧ (subb b xs ys car).2 ≤ 1 ∧
      Nat.ofDigits b (subb b xs ys car).1 + Nat.ofDigits b ys + car =
        Nat.ofDigits b xs + b ^ xs.length * (subb b xs ys car).2 := by
  induction xs generalizing ys car with
  | nil =>
    rw [List.eq_nil_of_length_eq_zero hlen.symm]
    exact ⟨proper_nil, hcar, by simp [subb]⟩
  | cons x xs ih =>
    obtain ⟨y, ys, rfl⟩ := List.exists_cons_of_length_eq_add_one hlen.symm
    obtain ⟨hx0, hxs⟩ := proper_cons.mp hx
    obtain ⟨hy0, hys⟩ := proper_cons.mp hy
    obtain ⟨hlimb, hsum⟩ := sub_limb hx0 hy0 hcar
    have hborrow : (if (x : ℤ) - car - y < 0 then 1 else 0) ≤ 1 := by split_ifs <;> omega
    obtain ⟨hproper, hle, hvalue⟩ := ih (Nat.succ.inj hlen) hxs hys hborrow
    refine ⟨proper_cons.mpr ⟨hlimb, hproper⟩, hle, ?_⟩
    simp only [subb, Nat.ofDigits_cons, List.length_cons, pow_succ]
    linear_combination b * hvalue + hsum

theorem decr_spec {xs : List ℕ} (hx : Proper b xs) (hb : 0 < b) {car : ℕ} (hcar : car ≤ 1) :
    Proper b (decr b xs car).1 ∧ (decr b xs car).2 ≤ 1 ∧
      Nat.ofDigits b (decr b xs car).1 + car =
        Nat.ofDigits b xs + b ^ xs.length * (decr b xs car).2 := by
  have hlen : xs.length = (List.replicate xs.length 0).length := List.length_replicate.symm
  have hspec := subb_spec hlen hx (proper_replicate_zero hb _) hcar
  rwa [← decr_eq_subb, Nat.ofDigits_replicate_zero, Nat.add_zero] at hspec

/-- The difference of two lists: the loop over both, and the loop over the rest of the first
one. -/
def sub (b : ℕ) (zs xs : List ℕ) : List ℕ :=
  let low := subb b (zs.take xs.length) xs 0
  low.1 ++ (decr b (zs.drop xs.length) low.2).1

/-- **The difference is that of the values**, if the first one is not less. -/
theorem sub_spec {zs xs : List ℕ} (hz : Proper b zs) (hx : Proper b xs) (hb : 1 < b)
    (hlen : xs.length ≤ zs.length) (hle : Nat.ofDigits b xs ≤ Nat.ofDigits b zs) :
    Proper b (sub b zs xs) ∧ (sub b zs xs).length = zs.length ∧
      Nat.ofDigits b (sub b zs xs) = Nat.ofDigits b zs - Nat.ofDigits b xs := by
  have htake : (zs.take xs.length).length = xs.length := by
    rw [List.length_take, Nat.min_eq_left hlen]
  obtain ⟨hplow, hclow, hlow⟩ := subb_spec htake (hz.take xs.length) hx (Nat.zero_le 1)
  obtain ⟨hphigh, -, hhigh⟩ := decr_spec (hz.drop xs.length) (Nat.zero_lt_of_lt hb) hclow
  have hlenlow := length_subb (b := b) htake 0
  have hlenhigh := length_decr (b := b) (zs.drop xs.length) (subb b (zs.take xs.length) xs 0).2
  have hsplit : Nat.ofDigits b zs = Nat.ofDigits b (zs.take xs.length) +
      b ^ xs.length * Nat.ofDigits b (zs.drop xs.length) := by
    conv_lhs => rw [← List.take_append_drop xs.length zs, Nat.ofDigits_append, htake]
  rw [sub]
  generalize subb b (zs.take xs.length) xs 0 = low at *
  generalize decr b (zs.drop xs.length) low.2 = high at *
  have hlenall : (low.1 ++ high.1).length = zs.length := by
    rw [List.length_append, hlenlow, htake, hlenhigh, List.length_drop]
    omega
  have hproper := proper_append.mpr ⟨hplow, hphigh⟩
  refine ⟨hproper, hlenall, ?_⟩
  have hlt := hproper.value_lt hb
  rw [hlenall] at hlt
  have hvalue : Nat.ofDigits b (low.1 ++ high.1) + Nat.ofDigits b xs =
      Nat.ofDigits b zs + b ^ zs.length * high.2 := by
    have hpow : b ^ zs.length = b ^ xs.length * b ^ (zs.drop xs.length).length := by
      rw [← pow_add, List.length_drop, Nat.add_sub_cancel' hlen]
    rw [htake] at hlow
    rw [Nat.ofDigits_append, hlenlow, htake, hsplit, hpow]
    linear_combination hlow + b ^ xs.length * hhigh
  -- a borrow would make the difference too large
  have hnone : high.2 = 0 := by
    by_contra hborrow
    have hmul : b ^ zs.length * 1 ≤ b ^ zs.length * high.2 :=
      Nat.mul_le_mul_left _ (Nat.one_le_iff_ne_zero.mpr hborrow)
    omega
  rw [hnone, Nat.mul_zero, Nat.add_zero] at hvalue
  exact Nat.eq_sub_of_add_eq hvalue

/-! ### Division by a limb -/

/-- The quotient of a division by one limb, from the highest limb on, and the remainder. -/
def div1 (b d : ℕ) : List ℕ → List ℕ × ℕ
  | [] => ([], 0)
  | x :: xs =>
    let t := (div1 b d xs).2 * b + x
    (t / d % b :: (div1 b d xs).1, t % d)

/-- **Long division by one limb.** No digit of the quotient is cut. -/
theorem div1_spec {d : ℕ} (hd : 0 < d) {xs : List ℕ} (h : Proper b xs) :
    (div1 b d xs).1.length = xs.length ∧ Proper b (div1 b d xs).1 ∧
      Nat.ofDigits b (div1 b d xs).1 = Nat.ofDigits b xs / d ∧
      (div1 b d xs).2 = Nat.ofDigits b xs % d := by
  induction xs with
  | nil => simp [div1, proper_nil]
  | cons x xs ih =>
    obtain ⟨hx, hxs⟩ := proper_cons.mp h
    obtain ⟨hlen, hproper, hquot, hrem⟩ := ih hxs
    have hb : 0 < b := Nat.zero_lt_of_lt hx
    rw [div1]
    generalize div1 b d xs = low at *
    have hlt : low.2 < d := hrem ▸ Nat.mod_lt _ hd
    have hdigit : (low.2 * b + x) / d < b := by
      rw [Nat.div_lt_iff_lt_mul hd]
      calc low.2 * b + x < low.2 * b + b := Nat.add_lt_add_left hx _
        _ = (low.2 + 1) * b := (Nat.succ_mul _ _).symm
        _ ≤ d * b := Nat.mul_le_mul_right _ hlt
        _ = b * d := Nat.mul_comm _ _
    have hvalue : Nat.ofDigits b (x :: xs) =
        d * (b * (Nat.ofDigits b xs / d)) + (low.2 * b + x) := by
      rw [Nat.ofDigits_cons, hrem]
      conv_lhs => rw [← Nat.div_add_mod (Nat.ofDigits b xs) d]
      ring
    refine ⟨congrArg (· + 1) hlen, proper_cons.mpr ⟨Nat.mod_lt _ hb, hproper⟩, ?_, ?_⟩
    · rw [Nat.ofDigits_cons, hquot, hvalue, Nat.mul_add_div hd, Nat.mod_eq_of_lt hdigit]
      exact Nat.add_comm _ _
    · rw [hvalue, Nat.mul_add_mod]

end Limbs
