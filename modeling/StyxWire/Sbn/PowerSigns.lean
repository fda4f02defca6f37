import StyxWire.Sbn.CanonicalResults

/-!
# The sign of a power

The loop of `mpz_pow` and `mpz_powm` goes over numbers without a sign, whatever the operands are:
the products and their residues have none (`StyxWire.Sbn.PowSign`). Only behind the loop the sign of
the base is put on the last product, before it is reduced in place. A product that is zero modulo
the modulus is zero there already, if it was reduced before, and then it gets a sign that
`mpz_mod` does not take away. This happens to `mpz_powm` with a negative base and an odd exponent,
and to nothing else (`StyxWire.Sbn.PowmKept`).

The residues are known where the products are read in full, and without that they are residues of
some number.
-/

namespace StyxWire.Sbn

open Limbs SquareMultiply

/-- A number without a sign. -/
def Store.Has (st : Store) (p : Ptr) (v : ℕ) : Prop := ∃ k, st p = Mpz.of v false k

theorem Store.Has.pads {st st' : Store} {p : Ptr} {v : ℕ} (h : st.Has p v)
    (hpads : (st p).Pads (st' p)) : st'.Has p v := by
  obtain ⟨k, hk⟩ := h
  exact (hk ▸ hpads).exists_of

variable {r p : Ptr} {m : Option Ptr} {st st' st₀ : Store} {n b e j x y z : ℕ}

/-- The modulus is in an object of its own, with any sign. It is zero if there is none. -/
def SignedModulus (m : Option Ptr) (n : ℕ) (r : Ptr) (st : Store) : Prop :=
  match m with
  | some q => q.FreePow ∧ q ≠ r ∧ ∃ s k, st q = Mpz.of n s k
  | none => n = 0

theorem SignedModulus.pads (h : SignedModulus m n r st)
    (hpads : ∀ q : Ptr, q.FreePow → q ≠ r → (st q).Pads (st' q)) : SignedModulus m n r st' := by
  cases m with
  | none => exact h
  | some q =>
    obtain ⟨hfree, hne, s, k, hq⟩ := h
    exact ⟨hfree, hne, s, (hq ▸ hpads q hfree hne).exists_of⟩

/-- The numbers are known: the products are read in full, or there is no turn. -/
def Known (n b e : ℕ) : Prop := ReadInFull n b ∨ Nat.log 2 e = 0

/-- What it takes of a base, an exponent and the magnitude of a modulus: of a negative base and an
odd exponent, the modulus divides none of the two powers whose residues are multiplied last; and if
the exponent is one, a bit of the base is read. -/
def PowmKept (b : ℤ) (e n : ℕ) : Prop :=
  b < 0 → Odd e →
    (Nat.log 2 e = 0 → RemainderKept b n) ∧
    (Nat.log 2 e ≠ 0 → ReadInFull n b.natAbs ∧ ¬n ∣ b.natAbs ^ 2 ^ Nat.log 2 e ∧
      ¬n ∣ b.natAbs ^ (e % 2 ^ Nat.log 2 e))

/-- The last product is zero if the modulus divides one of the powers. -/
theorem last_ne_zero (hlog : Nat.log 2 e ≠ 0) (hsquare : ¬n ∣ b ^ 2 ^ Nat.log 2 e)
    (hproduct : ¬n ∣ b ^ (e % 2 ^ Nat.log 2 e)) : last n b e ≠ 0 := by
  rw [last, Nat.mul_ne_zero_iff, square, if_neg hlog, product]
  refine ⟨?_, fun hzero => hsquare (Nat.dvd_of_mod_eq_zero hzero)⟩
  split_ifs
  · exact one_ne_zero
  · exact fun hzero => hproduct (Nat.dvd_of_mod_eq_zero hzero)

theorem last_of_log_eq_zero (hlog : Nat.log 2 e = 0) : last n b e = b := by
  rw [last, hlog, product, pow_zero, Nat.mod_one, if_pos rfl, square, if_pos rfl, Nat.one_mul]

/-- What is asked of the last product, where it gets a sign: it is not zero, and its remainder is
canonical. -/
def LastKept (v : ℤ) (e n : ℕ) : Prop :=
  ∀ w, (Known n v.natAbs e → w = last n v.natAbs e) → v < 0 → Odd e →
    w ≠ 0 ∧ (n ≠ 0 → ∀ k, RemainderKept (Mpz.of w true k).value n)

theorem PowmKept.last {v : ℤ} (hkept : PowmKept v e n) : LastKept v e n := by
  intro w hw hneg hodd
  obtain ⟨hone, hmore⟩ := hkept hneg hodd
  by_cases hlog : Nat.log 2 e = 0
  · have hv : ∀ k, (Mpz.of v.natAbs true k).value = v := fun k => by
      rw [Mpz.of_value, if_pos rfl]
      omega
    rw [hw (Or.inr hlog), last_of_log_eq_zero hlog]
    exact ⟨by omega, fun _ k => (hv k).symm ▸ hone hlog⟩
  · obtain ⟨hread, hsquare, hproduct⟩ := hmore hlog
    rw [hw (Or.inl hread)]
    refine ⟨last_ne_zero hlog hsquare hproduct, fun hn k _ _ => ?_⟩
    have hsize : Nat.size (SquareMultiply.last n v.natAbs e) ≤ 2 ^ 31 :=
      hread.size_product_mul e _ hn
    rw [Mpz.of_value_natAbs, readNum_eq hsize]
    exact last_ne_zero hlog hsquare hproduct

end StyxWire.Sbn
