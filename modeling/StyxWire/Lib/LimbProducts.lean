import StyxWire.Lib.Limbs

/-!
# Products of limbs

One row of schoolbook multiplication adds the multiple of a list by one limb to a list, and
carries what is beyond a limb to the next place (`Limbs.mulAdd`). The sums have the width of
two limbs, and that is enough: the product of two limbs, a limb and a carry are less than the
square of the base (`Limbs.mulAdd_sum_lt`). So nothing is lost (`Limbs.mulAdd_spec`).
-/

namespace Limbs

variable {b : ℕ}

/-- The multiple of a list is added to a list of the same length, limb by limb, with a carry.
A sum has the width of two limbs. -/
def mulAdd (b w : ℕ) : List ℕ → List ℕ → ℕ → List ℕ × ℕ
  | x :: xs, y :: ys, car =>
    let mul := (w * x + car + y) % b ^ 2
    let rest := mulAdd b w xs ys (mul / b)
    (mul % b :: rest.1, rest.2)
  | _, _, car => ([], car)

/-- The sums, as they are before they are cut to that width. -/
def mulAddSums (b w : ℕ) : List ℕ → List ℕ → ℕ → List ℕ
  | x :: xs, y :: ys, car =>
    let mul := w * x + car + y
    mul :: mulAddSums b w xs ys (mul % b ^ 2 / b)
  | _, _, _ => []

theorem length_mulAdd {w : ℕ} {xs ys : List ℕ} (hlen : xs.length = ys.length) (car : ℕ) :
    (mulAdd b w xs ys car).1.length = ys.length := by
  induction xs generalizing ys car with
  | nil =>
    rw [List.eq_nil_of_length_eq_zero hlen.symm]
    rfl
  | cons x xs ih =>
    obtain ⟨y, ys, rfl⟩ := List.exists_cons_of_length_eq_add_one hlen.symm
    exact congrArg (· + 1) (ih (Nat.succ.inj hlen) _)

/-- **A sum fits in two limbs**, and what is beyond the first one is a limb. -/
theorem mulAdd_sum_lt {w x y car : ℕ} (hw : w < b) (hx : x < b) (hy : y < b) (hcar : car < b) :
    w * x + car + y < b ^ 2 := by
  obtain ⟨c, rfl⟩ : ∃ c, b = c + 1 := ⟨b - 1, by omega⟩
  have hmul : w * x ≤ c * c := Nat.mul_le_mul (Nat.lt_succ_iff.mp hw) (Nat.lt_succ_iff.mp hx)
  calc w * x + car + y ≤ c * c + c + c := by omega
    _ < c * c + c + c + 1 := Nat.lt_succ_self _
    _ = (c + 1) ^ 2 := by ring

/-- **One row**: the sums fit, so what is computed is the list and the multiple together. -/
theorem mulAdd_spec {w : ℕ} (hw : w < b) {xs ys : List ℕ} (hlen : xs.length = ys.length)
    (hx : Proper b xs) (hy : Proper b ys) {car : ℕ} (hcar : car < b) :
    Proper b (mulAdd b w xs ys car).1 ∧ (mulAdd b w xs ys car).2 < b ∧
      Nat.ofDigits b (mulAdd b w xs ys car).1 + b ^ ys.length * (mulAdd b w xs ys car).2 =
        Nat.ofDigits b ys + w * Nat.ofDigits b xs + car ∧
      ∀ sum ∈ mulAddSums b w xs ys car, sum < b ^ 2 := by
  induction xs generalizing ys car with
  | nil =>
    rw [List.eq_nil_of_length_eq_zero hlen.symm]
    exact ⟨proper_nil, hcar, by simp [mulAdd], fun _ hsum => absurd hsum List.not_mem_nil⟩
  | cons x xs ih =>
    obtain ⟨y, ys, rfl⟩ := List.exists_cons_of_length_eq_add_one hlen.symm
    obtain ⟨hx0, hxs⟩ := proper_cons.mp hx
    obtain ⟨hy0, hys⟩ := proper_cons.mp hy
    have hsum := mulAdd_sum_lt hw hx0 hy0 hcar
    have hdiv := Nat.mod_add_div (w * x + car + y) b
    have hcarry : (w * x + car + y) / b < b := by
      rw [pow_two] at hsum
      exact Nat.div_lt_of_lt_mul hsum
    obtain ⟨hproper, hlt, hvalue, hsums⟩ := ih (Nat.succ.inj hlen) hxs hys hcarry
    rw [mulAdd, mulAddSums]
    simp only [Nat.mod_eq_of_lt hsum]
    refine ⟨proper_cons.mpr ⟨Nat.mod_lt _ (by omega), hproper⟩, hlt, ?_, ?_⟩
    · simp only [Nat.ofDigits_cons, List.length_cons, pow_succ]
      linear_combination b * hvalue + hdiv
    · exact List.forall_mem_cons.mpr ⟨hsum, hsums⟩

end Limbs
