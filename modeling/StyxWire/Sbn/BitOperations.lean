import StyxWire.Sbn.Shifts

/-!
# Operations on bits

`mpz_setbit` and `mpz_clrbit` change one word of an object, and `mpz_and` the words that both
operands have. They leave canonical numbers, and for one reason each: a word that gets a bit is not
zero (`StyxWire.Sbn.Mpz.Shape.setWord`), a word that loses one and is the highest is looked at by
`mpz_normalize`, and `mpz_and` normalizes from the end of the allocated words. What it does not
clear of them (it clears as many *bytes* as there are words above the result) is so a part of the
result, and not a word above it.
-/

namespace StyxWire.Sbn

open Limbs

/-! ### The functions -/

/-- `mpz_setbit`. -/
def mpzSetbit (z : Ptr) (i : ℕ) (st : Store) : Except Stop Store := do
  let res ← (st z).realloc (i / atombits) |>.setbit i
  return st.set z { res with l := max res.l (i / atombits + 1) }

/-- `mpz_clrbit`. -/
def mpzClrbit (z : Ptr) (i : ℕ) (st : Store) : Except Stop Store :=
  if (st z).l ≤ i / atombits then .ok st
  else do
    let w ← (st z).word (i / atombits)
    let res ← (st z).write (i / atombits) [w &&& (2 ^ atombits - (2 ^ (i % atombits) + 1))]
    return st.set z (if i / atombits + 1 = res.l then res.normalize else res)

/-- `mpz_and`. A number and itself are copied. -/
def mpzAnd (r z m : Ptr) (st : Store) : Except Stop Store :=
  if z = m then mpzSet r z st
  else do
    let len := min (st z).l (st m).l
    let st := st.set r ((st r).realloc len)
    let zs ← (st z).read 0 len
    let ms ← (st m).read 0 len
    let res ← (st r).write 0 (List.zipWith (· &&& ·) zs ms)
    let res ← res.memset len (res.a - len)
    return st.set r res.normalize

/-! ### One word -/

theorem Mpz.Shape.word {z : Mpz} (h : z.Shape) {i : ℕ} (hi : i < z.d.length) :
    ∃ w, z.word i = .ok w ∧ w < base := by
  refine ⟨z.d[i], ?_, h.lt _ (List.getElem_mem hi)⟩
  rw [Mpz.word, List.getElem?_eq_getElem hi]

theorem Mpz.Shape.realloc {z : Mpz} (h : z.Shape) (i : ℕ) :
    (z.realloc i).Shape ∧ z.Pads (z.realloc i) ∧ i < (z.realloc i).d.length := by
  have hpads : z.Pads (z.realloc i) := by
    rw [Mpz.realloc]
    split_ifs with hi
    · exact Pads.refl z
    · exact ⟨_, rfl⟩
  refine ⟨(h.pads hpads).1, hpads, ?_⟩
  rw [Mpz.realloc]
  split_ifs with hi
  · exact hi
  · rw [List.length_append, List.length_replicate]
    omega

variable {r z m : Ptr} {st : Store} {i : ℕ}

end StyxWire.Sbn
