import StyxWire.Sbn.Factorial
import StyxWire.Sbn.Immediates
import StyxWire.Sbn.NumberParsing
import StyxWire.Sbn.RandomNumbers

/-!
# Canonical results

The objects of the caller are canonical before a call, and the question is whether they are so after
it (`StyxWire.Sbn.Keeps`). A call changes its results, and gives words to spare to others, which
does not matter (`StyxWire.Sbn.Store.Canonical.of_pads`): so it is about the result alone, and this
is known from what the functions compute. The ones that go wrong, go wrong for zero, whose sign they
leave or set, or for words that they do not clear. Each of them has a condition here, on the
operands, under which it does not happen.

The operands are objects of the caller or immediates, which are canonical, too.
-/

namespace StyxWire.Sbn

open Limbs Text

/-- The objects of the caller are canonical. -/
def Store.Canonical (st : Store) : Prop := ∀ n, (st (.obj n)).Canonical

/-- If a call returns, the objects are canonical after it. -/
def Keeps (call : Except Stop Store) : Prop := ∀ st', call = .ok st' → st'.Canonical

theorem keeps_ok {st : Store} (h : st.Canonical) : Keeps (.ok st) := by
  rintro st' hst'
  cases hst'
  exact h

theorem Keeps.of_eq {call : Except Stop Store} {st : Store} (h : call = .ok st)
    (hst : st.Canonical) : Keeps call := h ▸ keeps_ok hst

section Results

variable {r z : ℕ} {st st' : Store}

/-- **It is enough to look at the result.** -/
theorem Store.Canonical.of_pads (h : st.Canonical) (hr : (st' (.obj r)).Canonical)
    (hother : ∀ n, n ≠ r → (st (.obj n)).Pads (st' (.obj n))) : st'.Canonical := by
  intro n
  by_cases hn : n = r
  · exact hn ▸ hr
  · exact ((h n).pads (hother n hn)).1

theorem Store.Canonical.of_eq (h : st.Canonical) (hr : (st' (.obj r)).Canonical)
    (hother : ∀ n, n ≠ r → st' (.obj n) = st (.obj n)) : st'.Canonical :=
  h.of_pads hr fun n hn => hother n hn ▸ Mpz.Pads.refl _

theorem obj_ne {n : ℕ} (hn : n ≠ r) : Ptr.obj n ≠ .obj r := fun heq => hn (Ptr.obj.inj heq)

theorem Store.Canonical.set (h : st.Canonical) {x : Mpz} (hx : x.Canonical) :
    (st.set (.obj r) x).Canonical :=
  h.of_eq (r := r) (by rwa [Store.set_self]) fun _ hn => Store.set_of_ne _ (obj_ne hn) _

end Results

/-! ### Division -/

/-- As many bits of a dividend are read that the quotient is not zero, if it is negative. -/
def QuotientKept (z d : ℤ) : Prop := z * d < 0 → |d| < |z| → d.natAbs ≤ readNum z.natAbs

/-- A negative dividend that is less is not the object of the remainder. -/
def DividendKept (same : Prop) (z d : ℤ) : Prop := same → z < 0 → |d| ≤ |z|

section Division

variable {q r z d : Ptr} {st : Store}

end Division

section Results

variable {q r z : ℕ} {d : Ptr} {st : Store}

/-- There is a digit behind a sign that is not zero. -/
def TextKept (b : ℕ) (s : List UInt8) : Prop :=
  (takeSign (s.dropWhile isSpace)).1 = true →
    ∃ x ∈ trimTail (guessBase b (unsigned s)).2, digitVal x ≠ 0

end Results

end StyxWire.Sbn
