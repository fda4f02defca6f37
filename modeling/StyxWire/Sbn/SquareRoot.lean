import StyxWire.Sbn.Exponentiation

/-!
# Square roots

`mpz_sqrt` finds the root bit by bit, from the highest one. Where `k` bits are left, `s` is the
square of the root so far and `R` is the root so far times `2 ^ k` (`StyxWire.Sbn.SqrtInv`); so the
square with one more bit is `s` and `R` with a bit that was not set, and the bit is cleared again to
shift `R`. The first bit that is tried is always taken, and so `R` is not zero when it is shifted.

What is found with `k` turns is the nearest number of `k` bits (`StyxWire.Sbn.rootOf`). The number
of the turns comes from that of the bits, which is an `int` here: the root is right if an `int`
counts them, and nowhere else (`StyxWire.Sbn.sqrt_exact_iff`).
-/

namespace StyxWire.Sbn

open Limbs

/-! ### The functions -/

/-- `_mpz_setbit`. -/
def Mpz.setbitGrow (z : Mpz) (i : ℕ) : Except Stop Mpz := do
  let z ← z.setbit i
  return { z with l := max z.l (i / atombits + 1) }

/-- `_mpz_clrbit`. -/
def Mpz.clrbit (z : Mpz) (i : ℕ) : Except Stop Mpz := do
  let w ← z.word (i / atombits)
  let z ← z.write (i / atombits) [w &&& (2 ^ atombits - (2 ^ (i % atombits) + 1))]
  return if i / atombits + 1 = z.l then z.normalizeLength else z

/-- A number as an `int`. -/
def toInt (x : ℤ) : ℤ := Int.bmod x (2 ^ 32)

/-- The number of the turns of the loop: `i` counts down to zero from half of `j - 1`. -/
def sqrtTurns (bits : ℕ) : Except Stop ℕ :=
  if toInt bits - 1 < -2 ^ 31 then .error .overflow else .ok ((toInt bits - 1).tdiv 2 + 1).toNat

/-- `atoms`. -/
def sqrtAtoms (bits : ℕ) : ℕ := (toInt bits / 32 % 2 ^ 32).toNat

/-- The bit is taken: the candidate is not greater than the number. -/
def sqrtTake (r : Ptr) (i : ℕ) (st : Store) : Except Stop Store := do
  let st ← mpzSet .S .X st
  let res ← (st r).setbitGrow i
  let st := st.set r res
  let R ← (st .R).setbitGrow (2 * i + 1)
  return st.set .R R

/-- The square of the root with one more bit goes to `X`. -/
def sqrtCandidate (i : ℕ) (st : Store) : Except Stop Store := do
  let R ← (st .R).setbitGrow (2 * i)
  let st := st.set .R R
  let st ← mpzAddiRaw .X .S (st .R).d (st .R).l st
  let R ← (st .R).clrbit (2 * i)
  return st.set .R R

/-- One turn of the loop. -/
def sqrtTurn (r z : Ptr) (i : ℕ) (st : Store) : Except Stop Store := do
  let st ← sqrtCandidate i st
  let cmp ← mpzCmpabs (st .X) (st z)
  let st ← if cmp.isLE then sqrtTake r i st else .ok st
  let R ← (st .R).selfRshift1
  return st.set .R R

/-- The loop. -/
def sqrtLoop (r z : Ptr) : ℕ → Store → Except Stop Store
  | 0, st => .ok st
  | i + 1, st => do
    let st ← sqrtTurn r z i st
    sqrtLoop r z i st

/-- `mpz_sqrt`. -/
def mpzSqrt (r z : Ptr) (st : Store) : Except Stop Store := do
  let bits ← mpzBits (st z)
  let turns ← sqrtTurns bits
  let (z, st) := st.clone z .cloneSqrt [r]
  let st := st.set .S (Mpz.init.realloc (sqrtAtoms bits))
  let st := st.set .R (Mpz.init.realloc (sqrtAtoms bits))
  let st := st.set .X (Mpz.init.realloc (sqrtAtoms bits))
  let cleared ← (st r).zeroRealloc (sqrtAtoms bits)
  sqrtLoop r z turns (st.set r cleared)

/-! ### Bits -/

/-- A bit that is not set needs its word, and no more. -/
theorem digits_add_two_pow_length {n i : ℕ} (h : n.testBit i = false) :
    (Nat.digits base (n + 2 ^ i)).length =
      max (Nat.digits base n).length (i / atombits + 1) := by
  have hbound : ∀ l, (Nat.digits base n).length ≤ l → i / atombits < l → n + 2 ^ i < base ^ l := by
    intro l hl hi
    rw [← lor_two_pow_eq_add h, base_eq, ← pow_mul]
    refine Nat.or_lt_two_pow ?_ (Nat.pow_lt_pow_right (by decide) ?_)
    · rw [pow_mul, ← base_eq]
      exact (Nat.lt_base_pow_length_digits one_lt_base).trans_le (Nat.pow_le_pow_right base_pos hl)
    · rw [Nat.div_lt_iff_lt_mul (by decide), Nat.mul_comm] at hi
      exact hi
  refine le_antisymm ?_ (max_le ?_ ?_)
  · rw [Nat.digits_length_le_iff one_lt_base]
    exact hbound _ (le_max_left _ _) (Nat.lt_of_succ_le (le_max_right _ _))
  · exact Nat.le_length_digits_le base _ _ (Nat.le_add_right n _)
  · rw [Nat.succ_le_iff, Nat.lt_digits_length_iff one_lt_base, base_eq, ← pow_mul]
    refine le_trans (Nat.pow_le_pow_right (by decide) ?_) (Nat.le_add_left (2 ^ i) n)
    exact Nat.mul_div_le i atombits

theorem Mpz.setbitGrow_of {n : ℕ} (s : Bool) {k i : ℕ} (h : n.testBit i = false)
    (hi : i / atombits < (Nat.digits base n).length + k) :
    ∃ j, (Nat.digits base (n + 2 ^ i)).length + j = (Nat.digits base n).length + k ∧
      (Mpz.of n s k).setbitGrow i = .ok (Mpz.of (n + 2 ^ i) s j) := by
  have hproper : Proper base (Mpz.of n s k).d :=
    proper_append.mpr ⟨proper_digits one_lt_base n, proper_replicate_zero base_pos k⟩
  have hvalue : Nat.ofDigits base (Mpz.of n s k).d = n := by
    rw [of_d, Nat.ofDigits_append_replicate_zero, Nat.ofDigits_digits]
  obtain ⟨d, hset, hproper', hlen, hd⟩ :=
    Mpz.setbit_eq hproper (by rwa [of_d_length]) (by rwa [hvalue])
  rw [hvalue] at hd
  rw [of_d_length] at hlen
  have hsplit := eq_digits_append hproper' one_lt_base
  rw [hd] at hsplit
  have hlength := congrArg List.length hsplit
  rw [List.length_append, List.length_replicate] at hlength
  refine ⟨d.length - size d, by rw [← hlength, hlen], ?_⟩
  have hof : of (n + 2 ^ i) s (d.length - size d) =
      ⟨d, max (Nat.digits base n).length (i / atombits + 1), s⟩ := by
    rw [of, ← hsplit, digits_add_two_pow_length h]
  rw [hof, setbitGrow, hset]
  rfl

theorem land_compl_two_pow {w k : ℕ} (hk : k < atombits) (hw : w < 2 ^ atombits)
    (h : w.testBit k = false) : (w ||| 2 ^ k) &&& (2 ^ atombits - (2 ^ k + 1)) = w := by
  refine Nat.eq_of_testBit_eq fun j => ?_
  rw [Nat.testBit_and, Nat.testBit_or,
    Nat.testBit_two_pow_sub_succ (Nat.pow_lt_pow_right (by decide) hk), Nat.testBit_two_pow]
  by_cases hj : k = j
  · subst hj
    rw [h]
    simp
  · by_cases hlt : j < atombits
    · simp [hj, hlt]
    · rw [Nat.testBit_lt_two_pow (hw.trans_le (Nat.pow_le_pow_right (by decide) (not_lt.mp hlt)))]
      simp [hlt]

/-- **A bit that was set is cleared**: the number is what it was, with all its words. -/
theorem Mpz.clrbit_setbitGrow {n : ℕ} {s : Bool} {k i : ℕ} (h : n.testBit i = false)
    (hi : i / atombits < (Nat.digits base n).length + k) {z : Mpz}
    (hset : (Mpz.of n s k).setbitGrow i = .ok z) : z.clrbit i = .ok (Mpz.of n s k) := by
  set d := (Mpz.of n s k).d with hd
  have hlt : i / atombits < d.length := by rwa [hd, of_d_length]
  have hproper : Proper base d :=
    proper_append.mpr ⟨proper_digits one_lt_base n, proper_replicate_zero base_pos k⟩
  have hword : (Mpz.of n s k).word (i / atombits) = .ok (d.getD (i / atombits) 0) :=
    Mpz.word_of s hi
  have hmod : i % atombits < atombits := Nat.mod_lt i (by decide)
  have hunset : (d.getD (i / atombits) 0).testBit (i % atombits) = false := by
    have hbit := testBit_value (w := atombits) hproper (i / atombits) hmod
    rw [← base_eq, hd, of_d, Nat.ofDigits_append_replicate_zero, Nat.ofDigits_digits,
      Nat.div_add_mod, h] at hbit
    exact hbit.symm
  have hbound : d.getD (i / atombits) 0 < 2 ^ atombits := by
    rw [List.getD_eq_getElem _ _ hlt]
    exact hproper _ (List.getElem_mem hlt)
  obtain rfl : z = ⟨d.set (i / atombits) (d.getD (i / atombits) 0 ||| 2 ^ (i % atombits)),
      max (Nat.digits base n).length (i / atombits + 1), s⟩ := by
    rw [setbitGrow, setbit, hword] at hset
    simp only [bind, Except.bind, write_singleton hlt] at hset
    exact (Except.ok.inj hset).symm
  have hback : (d.set (i / atombits) (d.getD (i / atombits) 0 ||| 2 ^ (i % atombits))).set
      (i / atombits) (d.getD (i / atombits) 0) = d := by
    rw [List.set_set, List.getD_eq_getElem _ _ hlt, List.set_getElem_self]
  have hlt' : i / atombits <
      (d.set (i / atombits) (d.getD (i / atombits) 0 ||| 2 ^ (i % atombits))).length := by
    rwa [List.length_set]
  rw [clrbit, word, List.getElem?_set_self hlt]
  simp only [bind, Except.bind]
  rw [land_compl_two_pow hmod hbound hunset, write_singleton (by exact hlt')]
  simp only [hback, pure, Except.pure]
  split_ifs with hlast
  · -- the length is counted again
    have hnormalize := normalizeLength_of n s k
    rw [normalizeLength] at hnormalize ⊢
    exact congrArg Except.ok hnormalize
  · have hl : max (Nat.digits base n).length (i / atombits + 1) = (Nat.digits base n).length := by
      omega
    rw [hl]
    rfl

/-! ### The highest bits -/

/-- A number without its `k` lowest bits. -/
def highBits (m k : ℕ) : ℕ := m / 2 ^ k * 2 ^ k

theorem highBits_zero (m : ℕ) : highBits m 0 = m := by
  rw [highBits, pow_zero, Nat.div_one, Nat.mul_one]

theorem highBits_of_lt {m k : ℕ} (h : m < 2 ^ k) : highBits m k = 0 := by
  rw [highBits, Nat.div_eq_of_lt h, Nat.zero_mul]

/-- One bit more. -/
theorem highBits_eq_succ (m i : ℕ) :
    highBits m i = if m.testBit i then highBits m (i + 1) + 2 ^ i else highBits m (i + 1) := by
  have hdiv : m / 2 ^ i = 2 * (m / 2 ^ (i + 1)) + (m.testBit i).toNat := by
    rw [Nat.toNat_testBit, pow_succ, ← Nat.div_div_eq_div_mul, Nat.div_add_mod]
  rw [highBits, highBits, hdiv]
  cases m.testBit i with
  | true =>
    rw [if_pos rfl, Bool.toNat_true]
    ring
  | false =>
    rw [if_neg Bool.false_ne_true, Bool.toNat_false]
    ring

/-- **The bit is set if the number is not exceeded with it.** -/
theorem testBit_iff_highBits_add_le (m i : ℕ) :
    m.testBit i = true ↔ highBits m (i + 1) + 2 ^ i ≤ m := by
  have hsplit := Nat.div_add_mod' m (2 ^ (i + 1))
  have hbit := Nat.testBit_eq_decide_div_mod_eq (x := m) (i := i)
  constructor
  · intro h
    have hsucc := highBits_eq_succ m i
    rw [if_pos h] at hsucc
    rw [← hsucc]
    exact Nat.div_mul_le_self m (2 ^ i)
  · intro h
    by_contra hunset
    have hsucc := highBits_eq_succ m i
    rw [if_neg hunset] at hsucc
    -- what is below the bit is less than the bit
    have hlow := Nat.lt_div_mul_add (a := m) (Nat.two_pow_pos i)
    rw [← highBits, hsucc] at hlow
    omega

theorem highBits_testBit (m : ℕ) {i k : ℕ} (h : i < k) : (highBits m k).testBit i = false := by
  rw [highBits, Nat.testBit_mul_two_pow]
  simp [h]

theorem two_pow_mul_highBits_testBit (m : ℕ) {i k : ℕ} (h : i < 2 * k) :
    (2 ^ k * highBits m k).testBit i = false := by
  rw [highBits, Nat.mul_comm, Nat.mul_assoc, ← pow_add, ← two_mul, Nat.testBit_mul_two_pow]
  simp [h]

/-! ### The loop -/

/-- An object holds a number that is not negative, and has words up to that with the number `i`. -/
def Mpz.HasRoom (z : Mpz) (n i : ℕ) : Prop :=
  ∃ j, z = .of n false j ∧ i < (Nat.digits base n).length + j

theorem Mpz.HasRoom.setbitGrow {z : Mpz} {n atoms : ℕ} (h : z.HasRoom n atoms) {i : ℕ}
    (hbit : n.testBit i = false) (hi : i / atombits ≤ atoms) :
    ∃ z', z.setbitGrow i = .ok z' ∧ z'.HasRoom (n + 2 ^ i) atoms ∧ z'.clrbit i = .ok z := by
  obtain ⟨k, rfl, hk⟩ := h
  obtain ⟨j, hlen, hset⟩ := setbitGrow_of false hbit (hi.trans_lt hk)
  exact ⟨_, hset, ⟨j, rfl, hlen ▸ hk⟩, clrbit_setbitGrow hbit (hi.trans_lt hk) hset⟩

theorem Mpz.write_length {z z' : Mpz} {i : ℕ} {ws : List ℕ} (h : z.write i ws = .ok z') :
    z'.d.length = z.d.length := by
  rw [write] at h
  split_ifs at h
  cases h
  exact Mem.length_writeAt _ _ _

theorem Mpz.selfRshift1_length {z z' : Mpz} (h : z.selfRshift1 = .ok z') :
    z'.d.length = z.d.length := by
  rw [selfRshift1] at h
  split_ifs at h
  cases hread : z.read 0 z.l with
  | error e =>
    rw [hread, error_bind] at h
    exact absurd h (by simp)
  | ok ws =>
    cases hwrite : z.write 0 (rshift1 ws) with
    | error e =>
      rw [hread, ok_bind, hwrite, error_bind] at h
      exact absurd h (by simp)
    | ok y =>
      cases hword : y.word (y.l - 1) with
      | error e =>
        rw [hread, ok_bind, hwrite, ok_bind, hword, error_bind] at h
        exact absurd h (by simp)
      | ok top =>
        simp only [hread, hwrite, hword, bind, Except.bind, pure, Except.pure, Except.ok.injEq] at h
        rw [← h, ← write_length hwrite]
        split_ifs <;> rfl

theorem Mpz.HasRoom.selfRshift1 {z : Mpz} {n atoms : ℕ} (h : z.HasRoom (2 * n) atoms) (hn : n ≠ 0) :
    ∃ z', z.selfRshift1 = .ok z' ∧ z'.HasRoom n atoms := by
  obtain ⟨k, rfl, hk⟩ := h
  obtain ⟨j, hshift⟩ := selfRshift1_of (n := 2 * n) (by omega) false k
  rw [Nat.mul_div_cancel_left n Nat.two_pos] at hshift
  have hlen := selfRshift1_length hshift
  rw [of_d_length, of_d_length] at hlen
  exact ⟨_, hshift, j, rfl, hlen ▸ hk⟩

/-- What holds where `k` bits are left. The root of `n` that is found is `m`, and the words up to
that with the number `atoms` are allocated. -/
structure SqrtInv (r z : Ptr) (n m atoms k : ℕ) (st : Store) : Prop where
  z : ∃ s j, st z = .of n s j
  S : ∃ s j, st .S = .of (highBits m k ^ 2) s j
  R : (st .R).HasRoom (2 ^ k * highBits m k) atoms
  X : (st .X).Shape
  r : (st r).HasRoom (highBits m k) atoms

variable {r z : Ptr} {st : Store} {n m atoms i : ℕ}

/-- **A bit of the root is taken.** -/
theorem sqrtTake_spec (hr : r ≠ .S ∧ r ≠ .R ∧ r ≠ .X) (hz : z ≠ .S ∧ z ≠ .R ∧ z ≠ .X ∧ z ≠ r)
    (h : SqrtInv r z n m atoms (i + 1) st) (hi : (2 * i + 1) / atombits ≤ atoms) {x : ℕ}
    (hX : ∃ s j, st .X = .of x s j) :
    ∃ st', sqrtTake r i st = .ok st' ∧ st' z = st z ∧ (∃ s j, st' .S = .of x s j) ∧
      (st' .R).HasRoom (2 ^ (i + 1) * (highBits m (i + 1) + 2 ^ i)) atoms ∧ st' .X = st .X ∧
      (st' r).HasRoom (highBits m (i + 1) + 2 ^ i) atoms := by
  obtain ⟨s, j, hX⟩ := hX
  obtain ⟨s', j', hS⟩ := h.S
  obtain ⟨k, -, hset⟩ := mpzSet_eq (by simp) (hS ▸ Mpz.shape_of _ _ _) hX
  obtain ⟨res, hres, hroom, -⟩ := h.r.setbitGrow (highBits_testBit m (Nat.lt_succ_self i))
    ((Nat.div_le_div_right (by omega)).trans hi)
  obtain ⟨R, hR, hroomR, -⟩ := h.R.setbitGrow
    (two_pow_mul_highBits_testBit m (show 2 * i + 1 < 2 * (i + 1) by omega)) hi
  refine ⟨((st.set .S (.of x s k)).set r res).set .R R, ?_, ?_, ⟨s, k, ?_⟩, ?_, ?_, ?_⟩
  · rw [sqrtTake, hset]
    simp only [bind, Except.bind, Store.set_of_ne _ hr.1, hres, Store.set_of_ne _ hr.2.1.symm,
      Store.set_of_ne st (show Ptr.R ≠ .S by simp), hR]
    rfl
  · rw [Store.set_of_ne _ hz.2.1, Store.set_of_ne _ hz.2.2.2, Store.set_of_ne _ hz.1]
  · rw [Store.set_of_ne _ (by simp), Store.set_of_ne _ hr.1.symm, Store.set_self]
  · rw [Store.set_self, Nat.mul_add, ← pow_add, show i + 1 + i = 2 * i + 1 by ring]
    exact hroomR
  · rw [Store.set_of_ne _ (by simp), Store.set_of_ne _ hr.2.2.symm, Store.set_of_ne _ (by simp)]
  · rw [Store.set_of_ne _ hr.2.1, Store.set_self]
    exact hroom

/-- **The square with one more bit**; what is changed for it is changed back. -/
theorem sqrtCandidate_spec (hr : r ≠ .S ∧ r ≠ .R ∧ r ≠ .X)
    (hz : z ≠ .S ∧ z ≠ .R ∧ z ≠ .X ∧ z ≠ r) (h : SqrtInv r z n m atoms (i + 1) st)
    (hi : (2 * i + 1) / atombits ≤ atoms) :
    ∃ st', sqrtCandidate i st = .ok st' ∧ SqrtInv r z n m atoms (i + 1) st' ∧
      ∃ s j, st' .X = .of ((highBits m (i + 1) + 2 ^ i) ^ 2) s j := by
  obtain ⟨s, j, hzn⟩ := h.z
  obtain ⟨s', j', hS⟩ := h.S
  obtain ⟨R, hset, ⟨j₁, hR, -⟩, hclear⟩ := h.R.setbitGrow
    (two_pow_mul_highBits_testBit m (show 2 * i < 2 * (i + 1) by omega))
    ((Nat.div_le_div_right (by omega)).trans hi)
  have hsquare : 2 ^ (i + 1) * highBits m (i + 1) + 2 ^ (2 * i) + highBits m (i + 1) ^ 2 =
      (highBits m (i + 1) + 2 ^ i) ^ 2 := by ring
  obtain ⟨k, k', hadd⟩ := @mpzAddiRaw_eq .X .S (st.set .R R)
    (by rw [Store.set_of_ne _ (by simp)]; exact h.X) _ _ _
    (by rw [Store.set_of_ne _ (by simp), hS])
    (2 ^ (i + 1) * highBits m (i + 1) + 2 ^ (2 * i)) false j₁
  rw [hsquare, ← hR] at hadd
  set S := Mpz.of (highBits m (i + 1) ^ 2) s' (j' + k)
  set X := Mpz.of ((highBits m (i + 1) + 2 ^ i) ^ 2) (st.set .R R .X).s k' with hX
  have hrun : sqrtCandidate i st = .ok ((((st.set .R R).set .S S).set .X X).set .R (st .R)) := by
    have hl : R.l = (Nat.digits base (2 ^ (i + 1) * highBits m (i + 1) + 2 ^ (2 * i))).length := by
      rw [hR, Mpz.of_l]
    have hR' : (((st.set .R R).set .S S).set .X X) .R = R := by
      rw [Store.set_of_ne _ (by simp), Store.set_of_ne _ (by simp), Store.set_self]
    rw [sqrtCandidate, hset]
    simp only [bind, Except.bind, Store.set_self, hl, hadd, hR', hclear]
    rfl
  refine ⟨_, hrun, ⟨⟨s, j, ?_⟩, ⟨s', j' + k, ?_⟩, ?_, ?_, ?_⟩, (st.set .R R .X).s, k', ?_⟩
  · rw [Store.set_of_ne _ hz.2.1, Store.set_of_ne _ hz.2.2.1, Store.set_of_ne _ hz.1,
      Store.set_of_ne _ hz.2.1, hzn]
  · rw [Store.set_of_ne _ (by simp), Store.set_of_ne _ (by simp), Store.set_self]
  · rw [Store.set_self]
    exact h.R
  · rw [Store.set_of_ne _ (by simp), Store.set_self]
    exact Mpz.shape_of _ _ _
  · rw [Store.set_of_ne _ hr.2.1, Store.set_of_ne _ hr.2.2, Store.set_of_ne _ hr.1,
      Store.set_of_ne _ hr.2.1]
    exact h.r
  · rw [Store.set_of_ne _ (by simp), Store.set_self]

/-- **One turn**: the bit is taken if the square with it is not too large. -/
theorem sqrtTurn_spec (hr : r ≠ .S ∧ r ≠ .R ∧ r ≠ .X) (hz : z ≠ .S ∧ z ≠ .R ∧ z ≠ .X ∧ z ≠ r)
    (h : SqrtInv r z n m atoms (i + 1) st) (hi : (2 * i + 1) / atombits ≤ atoms)
    (hbit : m.testBit i = true ↔ (highBits m (i + 1) + 2 ^ i) ^ 2 ≤ n) (hne : highBits m i ≠ 0) :
    ∃ st', sqrtTurn r z i st = .ok st' ∧ SqrtInv r z n m atoms i st' := by
  obtain ⟨st₁, hcandidate, h₁, hX₁⟩ := sqrtCandidate_spec hr hz h hi
  obtain ⟨s, j, hzn⟩ := h₁.z
  obtain ⟨s', j', hX⟩ := hX₁
  have hsucc := highBits_eq_succ m i
  -- the numbers before the shift
  obtain ⟨st₂, htake, hz₂, hS₂, hR₂, hX₂, hr₂⟩ : ∃ st₂,
      (if (compare ((highBits m (i + 1) + 2 ^ i) ^ 2) n).isLE then sqrtTake r i st₁ else .ok st₁) =
          .ok st₂ ∧ st₂ z = st₁ z ∧ (∃ s j, st₂ .S = .of (highBits m i ^ 2) s j) ∧
        (st₂ .R).HasRoom (2 ^ (i + 1) * highBits m i) atoms ∧ st₂ .X = st₁ .X ∧
        (st₂ r).HasRoom (highBits m i) atoms := by
    by_cases htaken : m.testBit i = true
    · rw [if_pos htaken] at hsucc
      rw [if_pos (by rw [Nat.isLE_compare]; exact hbit.mp htaken), hsucc]
      exact sqrtTake_spec hr hz h₁ hi ⟨s', j', hX⟩
    · rw [if_neg htaken] at hsucc
      rw [if_neg (by rw [Nat.isLE_compare]; exact fun hle => htaken (hbit.mpr hle)), hsucc]
      exact ⟨st₁, rfl, rfl, h₁.S, h₁.R, rfl, h₁.r⟩
  rw [pow_succ, Nat.mul_comm _ 2, Nat.mul_assoc] at hR₂
  obtain ⟨R, hshift, hroom⟩ :=
    hR₂.selfRshift1 (Nat.mul_ne_zero (Nat.two_pow_pos i).ne' hne)
  have hrun : sqrtTurn r z i st = .ok (st₂.set .R R) := by
    rw [sqrtTurn, hcandidate]
    simp only [bind, Except.bind, hX, hzn, mpzCmpabs_of]
    split_ifs at htake ⊢ with hle
    · simp only [htake, hshift]
      rfl
    · cases htake
      simp only [hshift]
      rfl
  refine ⟨_, hrun, ⟨s, j, ?_⟩, ?_, ?_, ?_, ?_⟩
  · rw [Store.set_of_ne _ hz.2.1, hz₂, hzn]
  · rw [Store.set_of_ne _ (by simp)]
    exact hS₂
  · rw [Store.set_self]
    exact hroom
  · rw [Store.set_of_ne _ (by simp), hX₂]
    exact h₁.X
  · rw [Store.set_of_ne _ hr.2.1]
    exact hr₂

/-- **The loop** finds all the bits. -/
theorem sqrtLoop_spec (hr : r ≠ .S ∧ r ≠ .R ∧ r ≠ .X) (hz : z ≠ .S ∧ z ≠ .R ∧ z ≠ .X ∧ z ≠ r)
    {k : ℕ} (h : SqrtInv r z n m atoms k st) (hatoms : ∀ i < k, (2 * i + 1) / atombits ≤ atoms)
    (hbit : ∀ i < k, m.testBit i = true ↔ (highBits m (i + 1) + 2 ^ i) ^ 2 ≤ n)
    (hne : ∀ i < k, highBits m i ≠ 0) :
    ∃ st', sqrtLoop r z k st = .ok st' ∧ ∃ j, st' r = .of m false j := by
  induction k generalizing st with
  | zero =>
    obtain ⟨j, hres, -⟩ := h.r
    rw [highBits_zero] at hres
    exact ⟨st, rfl, j, hres⟩
  | succ i ih =>
    obtain ⟨st₁, hturn, h₁⟩ := sqrtTurn_spec hr hz h (hatoms i (Nat.lt_succ_self i))
      (hbit i (Nat.lt_succ_self i)) (hne i (Nat.lt_succ_self i))
    obtain ⟨st₂, hloop, hres⟩ := ih h₁ (fun j hj => hatoms j (Nat.lt_succ_of_lt hj))
      (fun j hj => hbit j (Nat.lt_succ_of_lt hj)) (fun j hj => hne j (Nat.lt_succ_of_lt hj))
    refine ⟨st₂, ?_, hres⟩
    rw [sqrtLoop, hturn]
    exact hloop

/-! ### The root that is found -/

/-- The number of `k` bits that is nearest to the root. -/
def rootOf (n k : ℕ) : ℕ := min (Nat.sqrt n) (2 ^ k - 1)

theorem rootOf_lt (n k : ℕ) : rootOf n k < 2 ^ k :=
  (min_le_right _ _).trans_lt (Nat.sub_lt (Nat.two_pow_pos k) Nat.one_pos)

/-- **A bit belongs to the root** if the square with it is not too large. -/
theorem rootOf_testBit (n : ℕ) {i k : ℕ} (hi : i < k) :
    (rootOf n k).testBit i = true ↔ (highBits (rootOf n k) (i + 1) + 2 ^ i) ^ 2 ≤ n := by
  have hfits : highBits (rootOf n k) (i + 1) + 2 ^ i ≤ 2 ^ k - 1 := by
    have hpow : 2 ^ k = 2 ^ (k - (i + 1)) * 2 ^ (i + 1) := by
      rw [← pow_add, Nat.sub_add_cancel hi]
    have hquot : rootOf n k / 2 ^ (i + 1) < 2 ^ (k - (i + 1)) := by
      rw [Nat.div_lt_iff_lt_mul (Nat.two_pow_pos _), ← hpow]
      exact rootOf_lt n k
    have hstep : (rootOf n k / 2 ^ (i + 1) + 1) * 2 ^ (i + 1) ≤ 2 ^ k :=
      hpow ▸ Nat.mul_le_mul_right _ hquot
    rw [Nat.succ_mul, ← highBits, pow_succ] at hstep
    have := Nat.two_pow_pos i
    omega
  rw [testBit_iff_highBits_add_le, ← Nat.le_sqrt']
  constructor
  · intro h
    exact h.trans (min_le_left _ _)
  · intro h
    exact le_min h hfits

/-- The highest bit that is tried belongs to it. -/
theorem highBits_rootOf_ne_zero {n k : ℕ} (hn : k ≠ 0 → (2 ^ (k - 1)) ^ 2 ≤ n) {i : ℕ}
    (hi : i < k) :
    highBits (rootOf n k) i ≠ 0 := by
  have hroot : 2 ^ i ≤ rootOf n k := by
    have hle : 2 ^ i ≤ 2 ^ (k - 1) := Nat.pow_le_pow_right (by decide) (by omega)
    have hlt : 2 ^ i < 2 ^ k := Nat.pow_lt_pow_right (by decide) hi
    exact le_min (hle.trans (Nat.le_sqrt'.mpr (hn (by omega)))) (by omega)
  have hquot : 0 < rootOf n k / 2 ^ i := Nat.div_pos hroot (Nat.two_pow_pos i)
  exact (Nat.mul_pos hquot (Nat.two_pow_pos i)).ne'

/-- It is the root, if the root has so many bits. -/
theorem rootOf_exact_iff (n k : ℕ) :
    rootOf n k ^ 2 ≤ n ∧ n < (rootOf n k + 1) ^ 2 ↔ Nat.size n ≤ 2 * k := by
  have hsize : Nat.size n ≤ 2 * k ↔ n < (2 ^ k) ^ 2 := by
    rw [Nat.size_le, ← pow_mul, Nat.mul_comm]
  have hsqrt : n < (2 ^ k) ^ 2 ↔ Nat.sqrt n < 2 ^ k := Nat.sqrt_lt'.symm
  have hpos := Nat.two_pow_pos k
  rw [hsize, hsqrt]
  constructor
  · rintro ⟨-, hlt⟩
    have hle : rootOf n k + 1 ≤ 2 ^ k := rootOf_lt n k
    exact (Nat.sqrt_lt'.mpr hlt).trans_le hle
  · intro hlt
    have hroot : rootOf n k = Nat.sqrt n := min_eq_left (by omega)
    rw [hroot]
    exact ⟨Nat.sqrt_le' n, Nat.lt_succ_sqrt' n⟩

/-- **The turns** are those of all the bits if an `int` counts them, and less otherwise; for their
bits there are words. -/
theorem sqrtTurns_spec {b : ℕ} (hb : 0 < b) :
    (sqrtTurns (b % 2 ^ 32) = .error .overflow ∧ 2 ^ 31 ≤ b) ∨
      ∃ k, sqrtTurns (b % 2 ^ 32) = .ok k ∧ (k ≠ 0 → 2 * (k - 1) < b) ∧
        (∀ i < k, (2 * i + 1) / atombits ≤ sqrtAtoms (b % 2 ^ 32)) ∧ (b ≤ 2 * k ↔ b < 2 ^ 31) := by
  have hmod := Nat.mod_add_div b (2 ^ 32)
  have hlt := Nat.mod_lt b (show 0 < 2 ^ 32 by decide)
  generalize b % 2 ^ 32 = c at *
  have hj : (toInt c = c ∧ c < 2 ^ 31) ∨ (toInt c = (c : ℤ) - 2 ^ 32 ∧ 2 ^ 31 ≤ c) := by
    rw [toInt, Int.bmod]
    split_ifs <;> omega
  rw [sqrtTurns, sqrtAtoms]
  generalize toInt c = j at *
  have hhalf : (0 ≤ j - 1 ∧ (j - 1).tdiv 2 = (j - 1) / 2) ∨
      (j - 1 < 0 ∧ (j - 1).tdiv 2 = -((1 - j) / 2)) := by
    rcases le_or_gt 0 (j - 1) with hpos | hneg
    · exact Or.inl ⟨hpos, Int.tdiv_eq_ediv_of_nonneg hpos⟩
    · refine Or.inr ⟨hneg, ?_⟩
      rw [← Int.tdiv_eq_ediv_of_nonneg (by omega), ← Int.neg_tdiv, neg_sub]
  generalize (j - 1).tdiv 2 = half at *
  split_ifs with hover
  · exact Or.inl ⟨rfl, by omega⟩
  · refine Or.inr ⟨_, rfl, ?_, ?_, ?_⟩
    · intro hk
      omega
    · intro i hi
      rw [atombits]
      omega
    · constructor
      · intro hle
        omega
      · intro hlt
        omega

/-! ### The square root -/

/-- `mpz_sqrt` is as it should be: it ends, no word is accessed that is not allocated, and the
result is the root, rounded down. -/
def SqrtExact (r z : Ptr) (st : Store) : Prop :=
  ∃ st', mpzSqrt r z st = .ok st' ∧ (st' r).Canonical ∧
    (st' r).value * (st' r).value ≤ (st z).value ∧
    (st z).value < ((st' r).value + 1) * ((st' r).value + 1)

/-- **What `mpz_sqrt` computes.** -/
theorem mpzSqrt_spec {r z : ℕ} {n k : ℕ} (hz : st (.obj z) = .of n false k)
    (hr : st (.obj r) = Mpz.init ∨ r = z) {bits turns : ℕ}
    (hbits : mpzBits (st (.obj z)) = .ok bits)
    (hturns : sqrtTurns bits = .ok turns) (hn : turns ≠ 0 → (2 ^ (turns - 1)) ^ 2 ≤ n)
    (hatoms : ∀ i < turns, (2 * i + 1) / atombits ≤ sqrtAtoms bits) :
    ∃ st', mpzSqrt (.obj r) (.obj z) st = .ok st' ∧
      ∃ j, st' (.obj r) = .of (rootOf n turns) false j := by
  generalize hatomsdef : sqrtAtoms bits = atoms at hatoms
  obtain ⟨m, i, hres⟩ : ∃ m i, st (.obj r) = .of m false i := by
    rcases hr with hinit | rfl
    · exact ⟨0, 0, hinit.trans Mpz.init_eq⟩
    · exact ⟨n, k, hz⟩
  obtain ⟨hcopy, hnotin, hwhere, hsame⟩ :=
    @Store.clone_spec st (.obj z) .cloneSqrt [.obj r] (by simp)
  generalize hclone : st.clone (.obj z) .cloneSqrt [.obj r] = copied at hcopy hnotin hwhere hsame
  obtain ⟨z', st₁⟩ := copied
  dsimp only at hcopy hnotin hwhere hsame
  have hz' : z' ≠ .S ∧ z' ≠ .R ∧ z' ≠ .X ∧ z' ≠ .obj r := by
    refine ⟨?_, ?_, ?_, fun heq => hnotin (heq ▸ List.mem_singleton_self _)⟩
    all_goals rcases hwhere with rfl | rfl <;> simp
  -- the working numbers
  obtain ⟨j, hj, hcleared⟩ := Mpz.zeroRealloc_of m false i atoms
  have hempty : Mpz.init.realloc atoms = .of 0 false (atoms + 1) := by
    rw [Mpz.init_eq, Mpz.realloc_of, Nat.digits_zero]
    simp
  set st₂ := (((st₁.set .S (.of 0 false (atoms + 1))).set .R (.of 0 false (atoms + 1))).set .X
    (.of 0 false (atoms + 1))) with hst₂
  have hres₂ : st₂ (.obj r) = .of m false i := by
    rw [hst₂, Store.set_of_ne _ (by simp), Store.set_of_ne _ (by simp),
      Store.set_of_ne _ (by simp), hsame _ (by simp), hres]
  have hzero : highBits (rootOf n turns) turns = 0 := highBits_of_lt (rootOf_lt n turns)
  have hroom : ∀ j, atoms < j → (Mpz.of 0 false j).HasRoom 0 atoms := by
    intro j hj
    exact ⟨j, rfl, by simpa using hj⟩
  have hinv : SqrtInv (.obj r) z' n (rootOf n turns) atoms turns
      (st₂.set (.obj r) (.of 0 false j)) := by
    refine ⟨⟨false, k, ?_⟩, ⟨false, atoms + 1, ?_⟩, ?_, ?_, ?_⟩
    · rw [Store.set_of_ne _ hz'.2.2.2, hst₂, Store.set_of_ne _ hz'.2.2.1, Store.set_of_ne _ hz'.2.1,
        Store.set_of_ne _ hz'.1, hcopy, hz]
    · rw [hzero, Store.set_of_ne _ (by simp), hst₂, Store.set_of_ne _ (by simp),
        Store.set_of_ne _ (by simp), Store.set_self]
      rfl
    · rw [hzero, Nat.mul_zero, Store.set_of_ne _ (by simp), hst₂, Store.set_of_ne _ (by simp),
        Store.set_self]
      exact hroom _ (Nat.lt_succ_self atoms)
    · rw [Store.set_of_ne _ (by simp), hst₂, Store.set_self]
      exact Mpz.shape_of _ _ _
    · rw [hzero, Store.set_self]
      exact hroom j hj
  obtain ⟨st₃, hloop, hroot⟩ := sqrtLoop_spec (by simp) hz' hinv hatoms
    (fun i hi => rootOf_testBit n hi) (fun i hi => highBits_rootOf_ne_zero hn hi)
  refine ⟨st₃, ?_, hroot⟩
  rw [mpzSqrt, hbits, ok_bind, hturns, ok_bind, hclone, hatomsdef, hempty]
  dsimp only
  rw [← hst₂, hres₂, hcleared]
  exact hloop

theorem sqrtExact_iff_size {r z : ℕ} {n k : ℕ} (hz : st (.obj z) = .of n false k) (hn : n ≠ 0)
    (hr : st (.obj r) = Mpz.init ∨ r = z) :
    SqrtExact (.obj r) (.obj z) st ↔ Nat.size n < 2 ^ 31 := by
  have hvalue : (st (.obj z)).value = n := by
    rw [hz, Mpz.of_value, if_neg Bool.false_ne_true]
  have hbits : mpzBits (st (.obj z)) = .ok (Nat.size n % 2 ^ 32) := by rw [hz, mpzBits_of hn]
  have hspec := sqrtTurns_spec (Nat.size_pos.mpr (Nat.pos_of_ne_zero hn))
  generalize Nat.size n % 2 ^ 32 = bits at hbits hspec
  rcases hspec with ⟨hover, hlarge⟩ | ⟨turns, hturns, htop, hatoms, hall⟩
  · have hrun : mpzSqrt (.obj r) (.obj z) st = .error .overflow := by
      rw [mpzSqrt, hbits, ok_bind, hover, error_bind]
    constructor
    · rintro ⟨st', hok, -⟩
      rw [hrun] at hok
      nomatch hok
    · intro hlt
      exact absurd hlt (not_lt.mpr hlarge)
  · have hsquare : turns ≠ 0 → (2 ^ (turns - 1)) ^ 2 ≤ n := by
      intro hpos
      rw [← pow_mul, Nat.mul_comm, ← Nat.lt_size]
      exact htop hpos
    obtain ⟨st', hrun, j, hres⟩ := mpzSqrt_spec hz hr hbits hturns hsquare hatoms
    have hroot : (st' (.obj r)).value = rootOf n turns := by
      rw [hres, Mpz.of_value, if_neg Bool.false_ne_true]
    rw [← hall, ← rootOf_exact_iff]
    constructor
    · rintro ⟨st'', hok, -, hle, hlt⟩
      rw [hrun] at hok
      cases hok
      rw [hroot, hvalue] at hle hlt
      rw [pow_two, pow_two]
      exact_mod_cast And.intro hle hlt
    · rintro ⟨hle, hlt⟩
      rw [pow_two] at hle hlt
      refine ⟨st', hrun, ?_, ?_, ?_⟩
      · rw [hres]
        exact Mpz.canonical_of (fun _ => rfl) j
      · rw [hroot, hvalue]
        exact_mod_cast hle
      · rw [hroot, hvalue]
        exact_mod_cast hlt

/-- **The square root is right if an `int` counts the bits of the number**, and nowhere else. -/
theorem sqrt_exact_iff {r z : ℕ} {st : Store} (hz : (st (.obj z)).Canonical)
    (hpos : 1 ≤ (st (.obj z)).value) (hr : st (.obj r) = Mpz.init ∨ r = z) :
    SqrtExact (.obj r) (.obj z) st ↔ Nat.size (st (.obj z)).value.natAbs < 2 ^ 31 := by
  obtain ⟨n, s, k, hof, -⟩ := hz.exists_of
  rw [hof, Mpz.of_value] at hpos
  obtain rfl : s = false := by
    cases s with
    | false => rfl
    | true =>
      rw [if_pos rfl] at hpos
      omega
  have hn : n ≠ 0 := by
    rintro rfl
    simp at hpos
  rw [sqrtExact_iff_size hof hn hr, hof, Mpz.of_value_natAbs]

/-- A number, and an object that was initialised. -/
def squareStore (n : ℕ) : Store := fun p => if p = .obj 1 then .of n false 0 else Mpz.init

/-- A number of `2 ^ 32 + 1` bits, of which an `int` counts one. -/
theorem sqrt_inexact :
    (squareStore (2 ^ 2 ^ 32) (.obj 1)).Canonical ∧
      (squareStore (2 ^ 2 ^ 32) (.obj 1)).value = 2 ^ 2 ^ 32 ∧
      squareStore (2 ^ 2 ^ 32) (.obj 0) = Mpz.init ∧
      ¬SqrtExact (.obj 0) (.obj 1) (squareStore (2 ^ 2 ^ 32)) := by
  obtain ⟨e, he⟩ : ∃ e, e = 2 ^ 32 := ⟨_, rfl⟩
  rw [← he]
  refine ⟨Mpz.canonical_of (fun _ => rfl) 0, ?_, rfl, ?_⟩
  · rw [squareStore, if_pos rfl, Mpz.of_value, if_neg Bool.false_ne_true, Nat.cast_pow]
    rfl
  · rw [sqrtExact_iff_size (n := 2 ^ e) rfl (Nat.two_pow_pos e).ne' (Or.inl rfl), Nat.size_pow]
    omega

/-- The root of ten, in the object of the number. -/
theorem sqrt_exact_ten : SqrtExact (.obj 1) (.obj 1) (squareStore 10) := by
  have hsize : Nat.size 10 < 2 ^ 31 := by decide
  refine (sqrt_exact_iff (Mpz.canonical_of (fun _ => rfl) 0) ?_ (Or.inr rfl)).mpr ?_
  · rw [squareStore, if_pos rfl, Mpz.of_value, if_neg Bool.false_ne_true]
    decide
  · rw [squareStore, if_pos rfl, Mpz.of_value_natAbs]
    exact hsize

end StyxWire.Sbn
