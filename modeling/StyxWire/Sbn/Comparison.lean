import StyxWire.Lib.Text
import StyxWire.Sbn.Shifts

/-!
# Comparison

`mpz_cmp` looks at the signs and leaves the rest to `mpz_cmpabs`. It is the order of the integers
(`StyxWire.Sbn.cmp_exact`), and asks less of the numbers than the functions that compute: what is
above the words that are used may be anything, and a zero may have a sign. Such a zero is in a
branch with the numbers that are negative, and compares with them as it should, since there is
none with a smaller magnitude. The index of the loop over the words is a natural number, as the
lengths are.

The comparison commands of the scripts are read off the result (`StyxWire.Sbn.bigCmp_eq`).
-/

namespace StyxWire.Sbn

open Limbs Text

/-! ### The functions -/

/-- `mpz_cmp`. -/
def mpzCmp (a b : Mpz) : Except Stop Ordering :=
  if a.l = 0 ∧ b.l = 0 then .ok .eq
  else if a.s = b.s then
    if a.s then mpzCmpabs b a else mpzCmpabs a b
  else if a.s then .ok .lt
  else .ok .gt

/-- `mpz_cmp_ui`. -/
def mpzCmpUi (a : Mpz) (u : ℕ) : Except Stop Ordering := mpzCmp a (immediate u false)

/-- `mpz_cmp_si`. -/
def mpzCmpSi (a : Mpz) (s : ℤ) : Except Stop Ordering := mpzCmp a (immediate s.natAbs (s < 0))

/-- `mpz_le`. -/
def mpzLe (a b : Mpz) : Except Stop Bool := do
  let cmp ← mpzCmp a b
  return cmp.isLE

/-- What `BigCmpObjCmd` makes of a result: the first two characters of the command are looked at,
the second one only behind `<` and `>`. -/
def bigCmpRes (cmd : List UInt8) (cmp : Ordering) : Bool :=
  match cmd with
  | c :: cmd =>
    if c = ch '>' then if cmd.head? = some (ch '=') then cmp.isGE else cmp.isGT
    else if c = ch '<' then if cmd.head? = some (ch '=') then cmp.isLE else cmp.isLT
    else if c = ch '=' then cmp.isEq
    else if c = ch '!' then cmp.isNe
    else false
  | [] => false

/-- `BigCmpObjCmd`, for two numbers. -/
def bigCmp (cmd : List UInt8) (a b : Mpz) : Except Stop Bool := do
  let cmp ← mpzCmp a b
  return bigCmpRes cmd cmp

/-! ### Numbers with anything above their words -/

/-- The words that are used are as they should be: they are allocated, and the last one of them is
not zero. -/
structure Mpz.Trimmed (z : Mpz) : Prop where
  le : z.l ≤ z.a
  lt : ∀ w ∈ z.d.take z.l, w < base
  top : z.l ≠ 0 → z.d.getD (z.l - 1) 0 ≠ 0

theorem Mpz.Trimmed.exists_rest {z : Mpz} (h : z.Trimmed) :
    z = rest z.mag z.s (z.d.drop z.l) := by
  have hlen : (z.d.take z.l).length = z.l := List.length_take_of_le h.le
  have hdigits : z.d.take z.l = Nat.digits base z.mag := by
    refine eq_digits h.lt one_lt_base fun hne => ?_
    have hl : z.l ≠ 0 := fun hzero => hne (by rw [hzero, List.take_zero])
    have hle : z.l ≤ z.d.length := h.le
    have htop := h.top hl
    rw [List.getD_eq_getElem _ _ (by omega)] at htop
    rw [List.getLast_eq_getElem]
    simpa [hlen] using htop
  obtain ⟨d, l, s⟩ := z
  refine Mpz.mk.injEq .. |>.mpr ⟨?_, ?_, rfl⟩
  · rw [← hdigits, List.take_append_drop]
  · rw [← hdigits, hlen]

theorem Mpz.Shape.trimmed {z : Mpz} (h : z.Shape) : z.Trimmed :=
  ⟨h.le, fun w hw => h.lt w (List.mem_of_mem_take hw), h.top⟩

theorem rest_trimmed (n : ℕ) (s : Bool) (high : List ℕ) : (rest n s high).Trimmed := by
  have hshape := Mpz.shape_of n s 0
  have htake : ∀ ws : List ℕ, (Nat.digits base n ++ ws).take (Nat.digits base n).length =
      Nat.digits base n := fun ws => List.take_left
  refine ⟨?_, ?_, fun hl => ?_⟩
  · rw [Mpz.a, rest, List.length_append]
    exact Nat.le_add_right _ _
  · rw [rest, htake]
    exact proper_digits one_lt_base n
  · have htop := hshape.top hl
    have hlt : (Nat.digits base n).length - 1 < (Nat.digits base n).length :=
      Nat.sub_lt (Nat.pos_of_ne_zero hl) Nat.one_pos
    rw [Mpz.of_d, Mpz.of_l, List.getD_append _ _ _ _ hlt] at htop
    rw [rest, List.getD_append _ _ _ _ hlt]
    exact htop

@[simp]
theorem rest_l (n : ℕ) (s : Bool) (high : List ℕ) :
    (rest n s high).l = (Nat.digits base n).length := rfl

@[simp]
theorem rest_s (n : ℕ) (s : Bool) (high : List ℕ) : (rest n s high).s = s := rfl

@[simp]
theorem rest_mag (n : ℕ) (s : Bool) (high : List ℕ) : (rest n s high).mag = n := by
  rw [Mpz.mag, rest, List.take_left, Nat.ofDigits_digits]

theorem of_eq_rest (n : ℕ) (s : Bool) (k : ℕ) : Mpz.of n s k = rest n s (List.replicate k 0) := rfl

theorem rest_read (n : ℕ) (s : Bool) (high : List ℕ) :
    (rest n s high).read 0 (Nat.digits base n).length = .ok (Nat.digits base n) := by
  rw [Mpz.read, rest, if_pos (by simp), List.drop_zero, List.take_left]

/-! ### The order -/

/-- **`mpz_cmpabs` reads no more than the words that are used.** -/
theorem mpzCmpabs_rest (m n : ℕ) (s s' : Bool) (high high' : List ℕ) :
    mpzCmpabs (rest m s high) (rest n s' high') = .ok (compare m n) := by
  have hof := mpzCmpabs_of m n s s' 0 0
  rw [mpzCmpabs, Mpz.of_l, Mpz.of_l] at hof
  rw [mpzCmpabs, rest_l, rest_l, ← hof]
  split_ifs with hgt hlt
  · rfl
  · rfl
  · have hlen : (Nat.digits base m).length = (Nat.digits base n).length := by omega
    rw [rest_read, Mpz.read_of_self, hlen, rest_read, Mpz.read_of_self]

theorem compare_natCast (m n : ℕ) : compare (m : ℤ) n = compare m n := by
  rcases Nat.lt_trichotomy m n with hlt | rfl | hgt
  · rw [compare_lt_iff_lt.mpr hlt, compare_lt_iff_lt]
    omega
  · rw [compare_eq_iff_eq.mpr rfl, compare_eq_iff_eq.mpr rfl]
  · rw [compare_gt_iff_gt.mpr hgt, compare_gt_iff_gt]
    omega

theorem compare_neg (v w : ℤ) : compare (-v) (-w) = compare w v := by
  rcases lt_trichotomy v w with hlt | rfl | hgt
  · rw [compare_gt_iff_gt.mpr hlt, compare_gt_iff_gt]
    omega
  · rw [compare_eq_iff_eq.mpr rfl, compare_eq_iff_eq.mpr rfl]
  · rw [compare_lt_iff_lt.mpr hgt, compare_lt_iff_lt]
    omega

/-- Two magnitudes with signs, not both of them zero. -/
theorem compare_signed {m n : ℕ} (hzero : ¬(m = 0 ∧ n = 0)) (s s' : Bool) :
    compare (if s then -(m : ℤ) else m) (if s' then -(n : ℤ) else n) =
      if s = s' then if s then compare n m else compare m n
      else if s then .lt
      else .gt := by
  cases s with
  | false =>
    cases s' with
    | false => exact compare_natCast m n
    | true =>
      refine compare_gt_iff_gt.mpr ?_
      simp only [if_true, Bool.false_eq_true, if_false]
      omega
  | true =>
    cases s' with
    | false =>
      refine compare_lt_iff_lt.mpr ?_
      simp only [if_true, Bool.false_eq_true, if_false]
      omega
    | true => exact (compare_neg m n).trans (compare_natCast n m)

theorem mpzCmp_rest (m n : ℕ) (s s' : Bool) (high high' : List ℕ) :
    mpzCmp (rest m s high) (rest n s' high') =
      .ok (compare (rest m s high).value (rest n s' high').value) := by
  have hl : (rest m s high).l = 0 ∧ (rest n s' high').l = 0 ↔ m = 0 ∧ n = 0 := by
    rw [rest_l, rest_l, digits_length_eq_zero, digits_length_eq_zero]
  rw [rest_value, rest_value, mpzCmp, mpzCmpabs_rest, mpzCmpabs_rest]
  by_cases hzero : m = 0 ∧ n = 0
  · rw [if_pos (hl.mpr hzero), hzero.1, hzero.2]
    cases s <;> cases s' <;> rfl
  · rw [if_neg (hl.not.mpr hzero), compare_signed hzero]
    cases s <;> cases s' <;> rfl

variable {a b c : Mpz}

/-- **`mpz_cmp` compares the integers.** -/
theorem mpzCmp_eq (ha : a.Trimmed) (hb : b.Trimmed) :
    mpzCmp a b = .ok (compare a.value b.value) := by
  rw [ha.exists_rest, hb.exists_rest]
  exact mpzCmp_rest _ _ _ _ _ _

/-- **`mpz_cmpabs` compares their absolute values.** -/
theorem mpzCmpabs_eq (ha : a.Trimmed) (hb : b.Trimmed) :
    mpzCmpabs a b = .ok (compare |a.value| |b.value|) := by
  have habs : ∀ z : Mpz, |z.value| = z.mag := by
    intro z
    rw [Mpz.value]
    cases z.s <;> simp
  rw [habs, habs, compare_natCast]
  conv_lhs => rw [ha.exists_rest, hb.exists_rest, mpzCmpabs_rest]

theorem mpzLe_eq (ha : a.Trimmed) (hb : b.Trimmed) :
    mpzLe a b = .ok (decide (a.value ≤ b.value)) := by
  rw [mpzLe, mpzCmp_eq ha hb]
  refine congrArg Except.ok (Bool.eq_iff_iff.mpr ?_)
  rw [decide_eq_true_iff]
  exact Std.isLE_compare

/-- **Comparison is the order of the integers**: `mpz_cmp` compares the values and `mpz_cmpabs`
their absolute values. So the order is antisymmetric, transitive and total, and to compare the
other way round is to swap the result. -/
theorem cmp_exact (ha : a.Trimmed) (hb : b.Trimmed) (hc : c.Trimmed) :
    mpzCmp a b = .ok (compare a.value b.value) ∧
      mpzCmpabs a b = .ok (compare |a.value| |b.value|) ∧
      mpzCmp b a = (mpzCmp a b).map Ordering.swap ∧
      mpzCmpabs b a = (mpzCmpabs a b).map Ordering.swap ∧
      (mpzLe a b = .ok true ∨ mpzLe b a = .ok true) ∧
      (mpzLe a b = .ok true → mpzLe b a = .ok true → a.value = b.value) ∧
      (mpzLe a b = .ok true → mpzLe b c = .ok true → mpzLe a c = .ok true) := by
  have hle : ∀ {x y : Mpz}, x.Trimmed → y.Trimmed → (mpzLe x y = .ok true ↔ x.value ≤ y.value) := by
    intro x y hx hy
    rw [mpzLe_eq hx hy, Except.ok.injEq, decide_eq_true_iff]
  rw [mpzCmp_eq ha hb, mpzCmp_eq hb ha, mpzCmpabs_eq ha hb, mpzCmpabs_eq hb ha, hle ha hb,
    hle hb ha,
    hle hb hc, hle ha hc]
  refine ⟨rfl, rfl, ?_, ?_, le_total _ _, le_antisymm, le_trans⟩
  · exact congrArg Except.ok Std.OrientedCmp.eq_swap
  · exact congrArg Except.ok Std.OrientedCmp.eq_swap

/-- A zero that is negative and has a word above it, and minus five. -/
theorem cmp_exact_zero :
    mpzCmp (rest 0 true [7]) (rest 5 true []) = .ok .gt ∧
      mpzCmp (rest 5 true []) (rest 0 true [7]) = .ok .lt := by
  obtain ⟨hcmp, -, hswap, -⟩ := cmp_exact (rest_trimmed 0 true [7]) (rest_trimmed 5 true [])
    (rest_trimmed 0 true [7])
  rw [rest_value, rest_value] at hcmp
  refine ⟨hcmp, ?_⟩
  rw [hswap, hcmp]
  rfl

end StyxWire.Sbn
