import StyxWire.Sbn.PowerSigns

/-!
# Operations by value

A caller that is not careful with the sign of a zero has objects that hold a number, and are not
canonical (`StyxWire.Sbn.Store.Holds`). Minus zero is still zero to the operations: what they
compute of two values is the value that it should be, under conditions on the values only. Each of
the theorems says so for one of them, with what becomes of the other objects of the caller.
-/

namespace StyxWire.Sbn

open Limbs SquareMultiply

/-- The objects of the caller but one are what they were, up to words to spare. -/
def Store.Rest (st st' : Store) (r : ℕ) : Prop := ∀ n, n ≠ r → (st (.obj n)).Pads (st' (.obj n))

variable {st : Store} {r z d b e m : ℕ} {v w : ℤ}

theorem Store.Rest.trans {st' st'' : Store} (h : st.Rest st' r) (h' : st'.Rest st'' r) :
    st.Rest st'' r := fun n hn => (h n hn).trans (h' n hn)

theorem Store.holds_set {p : Ptr} {n : ℕ} {s : Bool} {k : ℕ} (h : (if s then -(n : ℤ) else n) = v) :
    (st.set p (Mpz.of n s k)).Holds p v := by
  constructor
  · rw [Store.set_self]
    exact Mpz.shape_of n s k
  · rw [Store.set_self, Mpz.of_value, h]

/-- A number of the caller. -/
theorem Store.Holds.exists_of {p : Ptr} (h : st.Holds p v) :
    ∃ n s k, st p = Mpz.of n s k ∧ (if s then -(n : ℤ) else n) = v := by
  obtain ⟨n, s, k, hof⟩ := h.shape.exists_of
  refine ⟨n, s, k, hof, ?_⟩
  rw [← Mpz.of_value n s k, ← hof, h.value]

/-- A number with its sign changed. -/
theorem Store.Holds.neg {p : Ptr} (h : st.Holds p v) :
    (st.setSign p (!(st p).s)).Holds p (-v) := by
  obtain ⟨n, s, k, hn, rfl⟩ := h.exists_of
  have hset : st.setSign p (!(st p).s) = st.set p (Mpz.of n (!s) k) := by
    rw [Store.setSign, hn, Mpz.of_s]
    rfl
  rw [hset]
  refine Store.holds_set ?_
  cases s <;> simp

/-- What a truncating division takes of its operands: of numbers with one magnitude the quotient is
taken for one, and a dividend is read as far as an `int` counts its bits. -/
structure QuotientRead (v w : ℤ) : Prop where
  eq : |v| = |w| → v = w
  bits : |w| < |v| → Nat.size v.natAbs ≤ 2 ^ 31

/-- What a power modulo a number takes. -/
structure PowmRead (v w u : ℤ) : Prop where
  modulus : 0 < u
  read : ReadInFull u.natAbs v.natAbs
  holds : PowmHolds v w.toNat u.natAbs

end StyxWire.Sbn
