import StyxWire.Lib.SquareMultiply
import StyxWire.Sbn.ModularReduction
import StyxWire.Sbn.Multiplication
import StyxWire.Sbn.Shifts

/-!
# Exponentiation

`mpz_pow` and `mpz_powm` are one loop, with a reduction after each product or without one. The
base is made positive first, and the sign is put back before the last reduction. The loop goes on
as long as the exponent is greater than one, and what is left of it is taken for one: of an
exponent that is zero, too, so that the result is the magnitude of the base.

The invariant (`StyxWire.Sbn.PowState`) is that of `SquareMultiply`, for a modulus that is zero if
there is none. The last reduction is in place and of a number that may be negative; it is the only
one where `mpz_mod` can go wrong, as long as every product is read in full.
-/

namespace StyxWire.Sbn

open Limbs SquareMultiply

/-! ### The functions -/

/-- `_mpz_is_odd`. -/
def Mpz.isOdd (z : Mpz) : Except Stop Bool := do
  let ws ← z.read 0 1
  return (ws.headD 0 &&& 1) ≠ 0

/-- `_mpz_abs`. -/
def Store.abs (st : Store) (p : Ptr) : Store := st.set p { st p with s := false }

/-- The words of `_mpz_self_rshift1`. -/
def rshift1 : List ℕ → List ℕ
  | x :: y :: xs => (x >>> 1 ||| (y &&& 1) <<< (atombits - 1)) :: rshift1 (y :: xs)
  | [x] => [x >>> 1]
  | [] => []

/-- `_mpz_self_rshift1`. Without a word, the one before the first is tested. -/
def Mpz.selfRshift1 (z : Mpz) : Except Stop Mpz :=
  if z.l = 0 then .error .fault
  else do
    let ws ← z.read 0 z.l
    let z ← z.write 0 (rshift1 ws)
    let top ← z.word (z.l - 1)
    return if top = 0 then { z with l := z.l - 1 } else z

/-- `mpz_cmpabs_ui`. -/
def mpzCmpabsUi (a : Mpz) (u : ℕ) : Except Stop Ordering := mpzCmpabs a (immediate u false)

/-- `mpz_mod` in place, if there is a modulus. -/
def reduce (m : Option Ptr) (r : Ptr) (st : Store) : Except Stop Store :=
  match m with
  | some m => mpzMod r r m st
  | none => .ok st

/-- A product, and its reduction. -/
def mulReduce (m : Option Ptr) (r z f : Ptr) (st : Store) : Except Stop Store := do
  let st ← mpzMul r z f st
  reduce m r st

/-- One turn of the loop. -/
def powTurn (r : Ptr) (m : Option Ptr) (st : Store) : Except Stop Store := do
  let odd ← (st .E).isOdd
  let st ← if odd then mulReduce m r r .B st else .ok st
  let E ← (st .E).selfRshift1
  mulReduce m .B .B .B (st.set .E E)

/-- The loop. -/
def powLoop (r : Ptr) (m : Option Ptr) : ℕ → Store → Except Stop Store
  | 0, _ => .error .forever
  | fuel + 1, st => do
    let cmp ← mpzCmpabsUi (st .E) 1
    if cmp = .gt then do
      let st ← powTurn r m st
      powLoop r m fuel st
    else return st

/-- The modulus is copied if it is the result, too. -/
def Store.cloneModulus (st : Store) (m : Option Ptr) (r : Ptr) : Option Ptr × Store :=
  match m with
  | some m =>
    let (m, st) := st.clone m .clonePowm [r]
    (some m, st)
  | none => (none, st)

/-- What `mpz_powm` and `mpz_pow` have in common; the one without a modulus is `mpz_pow`. -/
def mpzPowRaw (r b e : Ptr) (m : Option Ptr) (st : Store) : Except Stop Store :=
  if (st e).s then .error .inval
  else do
    let (m, st) := st.cloneModulus m r
    let st := (st.set .B Mpz.init).set .E Mpz.init
    let st ← mpzSet .B b st
    let st ← mpzSet .E e st
    let rs ← if (st .B).s then (st .E).isOdd else .ok false
    let st ← mpzSetUi r 1 (st.abs .B)
    let st ← powLoop r m ((st .E).mag + 1) st
    let st ← mpzMul r r .B st
    reduce m r (st.setSign r rs)

/-- `mpz_pow`. -/
def mpzPow (r b e : Ptr) (st : Store) : Except Stop Store := mpzPowRaw r b e none st

/-- `mpz_powm`. -/
def mpzPowm (r b e m : Ptr) (st : Store) : Except Stop Store := mpzPowRaw r b e (some m) st

/-! ### Its parts -/

theorem Mpz.isOdd_of {n k : ℕ} (s : Bool) (h : n = 0 → 0 < k) :
    (Mpz.of n s k).isOdd = .ok (n.testBit 0) := by
  obtain ⟨w, ws, hws⟩ : ∃ w ws, (Mpz.of n s k).d = w :: ws := by
    refine List.exists_cons_of_ne_nil fun hnil => ?_
    rw [Mpz.of_d, List.append_eq_nil_iff, Nat.digits_eq_nil_iff_eq_zero,
      List.replicate_eq_nil_iff] at hnil
    exact (h hnil.1).ne' hnil.2
  have hlow : w % 2 = n % 2 := by
    have hn : Nat.ofDigits base (Mpz.of n s k).d = n := by
      rw [Mpz.of_d, Nat.ofDigits_append_replicate_zero, Nat.ofDigits_digits]
    rw [← hn, hws, Nat.ofDigits_cons]
    have heven : base = 2 * 2 ^ 31 := rfl
    rw [heven, Nat.mul_assoc, Nat.add_mul_mod_self_left]
  have hread : (Mpz.of n s k).read 0 1 = .ok [w] := by
    rw [Mpz.read, hws, if_pos (by simp)]
    rfl
  rw [Mpz.isOdd, hread]
  simp only [bind, Except.bind, List.headD_cons, pure, Except.pure, Nat.and_one_is_mod]
  rw [Nat.testBit_zero, hlow]
  rcases Nat.mod_two_eq_zero_or_one n with hmod | hmod <;> rw [hmod] <;> rfl

theorem rshift1_eq (ws : List ℕ) : rshift1 ws = Limbs.rshift atombits 1 ws := by
  induction ws with
  | nil => rfl
  | cons x xs ih =>
    cases xs with
    | nil => rfl
    | cons y xs =>
      have hbit : (y &&& 1) <<< (atombits - 1) = y <<< (atombits - 1) % 2 ^ atombits := by
        rw [Nat.shiftLeft_eq, Nat.shiftLeft_eq, Nat.and_one_is_mod,
          show 2 ^ atombits = 2 * 2 ^ (atombits - 1) from rfl, Nat.mul_mod_mul_right]
      rw [rshift1, Limbs.rshift, ih, hbit]

theorem Mpz.selfRshift1_of {n : ℕ} (hn : n ≠ 0) (s : Bool) (k : ℕ) :
    ∃ i, (Mpz.of n s k).selfRshift1 = .ok (Mpz.of (n / 2) s i) := by
  have hl : (Mpz.of n s k).l ≠ 0 := digits_length_eq_zero.not.mpr hn
  have hbits : (Mpz.of n s k).selfRshift1 = (Mpz.of n s k).rshiftBits 1 := by
    simp only [Mpz.selfRshift1, Mpz.rshiftBits, if_neg hl, rshift1_eq]
  obtain ⟨zeros, hzeros, hshift⟩ := rest_rshiftBits n s (List.replicate k 0)
    (show 1 < atombits by decide)
  refine ⟨zeros.length + k, ?_⟩
  rw [hbits]
  refine hshift.trans ?_
  rw [List.eq_replicate_of_mem hzeros, List.replicate_append_replicate, pow_one,
    List.length_replicate]
  rfl

theorem Mpz.Pads.exists_of {n : ℕ} {s : Bool} {k : ℕ} {z : Mpz} (h : (Mpz.of n s k).Pads z) :
    ∃ i, z = Mpz.of n s i := by
  obtain ⟨i, rfl⟩ := h
  refine ⟨k + i, ?_⟩
  rw [Mpz.of, Mpz.of, List.append_assoc, List.replicate_append_replicate]

/-! ### The loop -/

variable {r p : Ptr} {m : Option Ptr} {st : Store} {n b e j x y z : ℕ}

/-- The objects of the callers, and those that are not used here. -/
structure Ptr.FreePow (p : Ptr) : Prop extends p.FreeMod where
  rt : p ≠ .rt
  B : p ≠ .B
  E : p ≠ .E

theorem Ptr.freePow_clonePowm : Ptr.clonePowm.FreePow :=
  ⟨⟨⟨nofun, nofun, nofun⟩, nofun⟩, nofun, nofun, nofun⟩

theorem Ptr.freeMod_B : Ptr.B.FreeMod := ⟨⟨nofun, nofun, nofun⟩, nofun⟩

theorem Ptr.freeMod_E : Ptr.E.FreeMod := ⟨⟨nofun, nofun, nofun⟩, nofun⟩

/-- The modulus is in an object of its own. It is zero if there is none. -/
def Modulus (m : Option Ptr) (n : ℕ) (r : Ptr) (st : Store) : Prop :=
  match m with
  | some q => n ≠ 0 ∧ q.FreePow ∧ q ≠ r ∧ ∃ k, st q = Mpz.of n false k
  | none => n = 0

theorem Modulus.pads {st' : Store} (h : Modulus m n r st)
    (hpads : ∀ q : Ptr, q.FreePow → q ≠ r → (st q).Pads (st' q)) : Modulus m n r st' := by
  cases m with
  | none => exact h
  | some q =>
    obtain ⟨hn, hfree, hne, k, hq⟩ := h
    exact ⟨hn, hfree, hne, (hq ▸ hpads q hfree hne).exists_of⟩

/-- **A reduction** of a number that is not negative. -/
theorem reduce_holds (hp : p.FreeMod) (hm : Modulus m n r st) {v : ℕ} (hv : st.Holds p v)
    (hread : n ≠ 0 → Nat.size v ≤ 2 ^ 31) :
    ∃ st', reduce m p st = .ok st' ∧ st'.Holds p (v % n : ℕ) ∧ PadFrame p st st' := by
  cases m with
  | none =>
    refine ⟨st, rfl, ?_, fun q _ _ => Mpz.Pads.refl _⟩
    rw [show n = 0 from hm, Nat.mod_zero]
    exact hv
  | some q =>
    obtain ⟨hn, hfree, -, k, hq⟩ := hm
    obtain ⟨a, s, i, ha⟩ := hv.shape.exists_of
    obtain ⟨st', hmod, hshape, hresult, hframe, -⟩ :=
      mpzMod_spec hp hp hfree.toFreeMod hv.shape ha hq hn
    refine ⟨st', hmod, ⟨hshape, ?_⟩, hframe⟩
    rw [← ha, hv.value] at hresult
    have hnz : (Mpz.of n false k).value ≠ 0 := Mpz.of_value_eq_zero.not.mpr hn
    have hnonneg : ¬(v : ℤ) < 0 := not_lt.mpr (Int.natCast_nonneg v)
    rw [(hresult.eq_emod_iff hnz).mpr ⟨fun _ _ => ?_, fun _ hlost => absurd hlost.1 hnonneg⟩,
      Mpz.of_value, if_neg Bool.false_ne_true, Int.natCast_mod]
    rw [Int.natAbs_natCast, readNum_eq (hread hn), Nat.sub_self]
    exact Nat.dvd_zero _

theorem mulReduce_holds (hp : p.FreeMod) (hrt : p ≠ .rt) (hshape : (st p).Shape)
    (hm : Modulus m n r st) (hpr : p = r ∨ p = .B) {q q' : Ptr} (hx : st.Holds q x)
    (hy : st.Holds q' y) (hread : n ≠ 0 → Nat.size (x * y) ≤ 2 ^ 31) :
    ∃ st', mulReduce m p q q' st = .ok st' ∧ st'.Holds p (x * y % n : ℕ) ∧ Modulus m n r st' ∧
      ∀ p' : Ptr, p'.FreeMod → p' ≠ .rt → p' ≠ p → (st p').Pads (st' p') := by
  obtain ⟨st₁, hmul, -, hproduct, hsame⟩ := mpzMul_holds hrt hshape hx hy
  have hne : ∀ p' : Ptr, p'.FreePow → p' ≠ r → p' ≠ p := by
    rintro p' hp' hp'r rfl
    exact hpr.elim hp'r hp'.B
  have hm₁ : Modulus m n r st₁ := hm.pads fun p' hp' hp'r => by
    rw [hsame p' (hne p' hp' hp'r) hp'.rt]
    exact Mpz.Pads.refl _
  rw [← Int.natCast_mul] at hproduct
  obtain ⟨st', hreduce, hholds, hframe⟩ := reduce_holds hp hm₁ hproduct hread
  refine ⟨st', ?_, hholds, hm₁.pads fun p' hp' hp'r => ?_, fun p' hp' hp'rt hp'p => ?_⟩
  · rw [mulReduce, hmul]
    exact hreduce
  · exact hframe p' hp'.toFreeMod (hne p' hp' hp'r)
  · rw [← hsame p' hp'p hp'rt]
    exact hframe p' hp' hp'p

/-- What the loop goes from turn to turn with. -/
structure PowState (r : Ptr) (m : Option Ptr) (n x y z : ℕ) (st : Store) : Prop where
  modulus : Modulus m n r st
  product : st.Holds r x
  square : st.Holds .B y
  exponent : ∃ k, st .E = Mpz.of z false k

/-- The square is multiplied into the product. -/
theorem PowState.multiply (hr : r.FreePow) (h : PowState r m n x y z st)
    (hread : n ≠ 0 → Nat.size (x * y) ≤ 2 ^ 31) :
    ∃ st', mulReduce m r r .B st = .ok st' ∧ PowState r m n (x * y % n) y z st' := by
  obtain ⟨st', hmul, hproduct, hmodulus, hframe⟩ := mulReduce_holds hr.toFreeMod hr.rt
    h.product.shape h.modulus (Or.inl rfl) h.product h.square hread
  obtain ⟨k, hk⟩ := h.exponent
  exact ⟨st', hmul, hmodulus, hproduct, h.square.pads (hframe .B Ptr.freeMod_B nofun hr.B.symm),
    (hk ▸ hframe .E Ptr.freeMod_E nofun hr.E.symm).exists_of⟩

/-- The exponent is no operand of the others. -/
theorem PowState.setExponent (hr : r.FreePow) (h : PowState r m n x y z st) (z' i : ℕ) :
    PowState r m n x y z' (st.set .E (Mpz.of z' false i)) := by
  have hpads : ∀ q, q ≠ .E → (st q).Pads (st.set .E (Mpz.of z' false i) q) := fun q hq => by
    rw [Store.set_of_ne _ hq]
    exact Mpz.Pads.refl _
  exact ⟨h.modulus.pads fun q hq _ => hpads q hq.E, h.product.pads (hpads r hr.E),
    h.square.pads (hpads .B nofun), i, Store.set_self _ _ _⟩

/-- The square is squared. -/
theorem PowState.squared (hr : r.FreePow) (h : PowState r m n x y z st)
    (hread : n ≠ 0 → Nat.size (y * y) ≤ 2 ^ 31) :
    ∃ st', mulReduce m .B .B .B st = .ok st' ∧ PowState r m n x (y * y % n) z st' := by
  obtain ⟨st', hmul, hsquare, hmodulus, hframe⟩ := mulReduce_holds Ptr.freeMod_B nofun
    h.square.shape h.modulus (Or.inr rfl) h.square h.square hread
  obtain ⟨k, hk⟩ := h.exponent
  exact ⟨st', hmul, hmodulus, h.product.pads (hframe r hr.toFreeMod hr.rt hr.B), hsquare,
    (hk ▸ hframe .E Ptr.freeMod_E nofun nofun).exists_of⟩

/-- **One turn.** -/
theorem powTurn_spec (hr : r.FreePow) (h : PowState r m n x y z st) (hz : z ≠ 0)
    (hmul : n ≠ 0 → Nat.size (x * y) ≤ 2 ^ 31) (hsquare : n ≠ 0 → Nat.size (y * y) ≤ 2 ^ 31) :
    ∃ st', powTurn r m st = .ok st' ∧
      PowState r m n (if z.testBit 0 then x * y % n else x) (y * y % n) (z / 2) st' := by
  obtain ⟨k, hk⟩ := h.exponent
  have hodd : (st .E).isOdd = .ok (z.testBit 0) := by
    rw [hk]
    exact Mpz.isOdd_of false fun hzero => absurd hzero hz
  -- after the product
  have hrest : ∀ {x st₁}, PowState r m n x y z st₁ → ∃ st', (do
      let E ← (st₁ .E).selfRshift1
      mulReduce m .B .B .B (st₁.set .E E)) = .ok st' ∧ PowState r m n x (y * y % n) (z / 2) st' := by
    intro x st₁ hstate
    obtain ⟨i, hi⟩ := hstate.exponent
    obtain ⟨i', hshift⟩ := Mpz.selfRshift1_of hz false i
    obtain ⟨st', hst', hstate'⟩ := (hstate.setExponent hr (z / 2) i').squared hr hsquare
    refine ⟨st', ?_, hstate'⟩
    rw [hi, hshift]
    exact hst'
  rw [powTurn, hodd]
  simp only [bind, Except.bind]
  split_ifs with hbit
  · obtain ⟨st₁, hst₁, hstate⟩ := h.multiply hr hmul
    rw [hst₁]
    exact hrest hstate
  · exact hrest h

/-- The products of these numbers are read in full. -/
def ReadInFull (n b : ℕ) : Prop := n ≠ 0 → Nat.size b ≤ 2 ^ 30 ∧ Nat.size n ≤ 2 ^ 30

theorem size_mul_le {c : ℕ} (hx : Nat.size x ≤ c) (hy : Nat.size y ≤ c) :
    Nat.size (x * y) ≤ c + c := by
  rw [Nat.size_le, pow_add]
  exact Nat.mul_lt_mul'' (Nat.size_le.mp hx) (Nat.size_le.mp hy)

theorem ReadInFull.square_size (h : ReadInFull n b) (hn : n ≠ 0) (j : ℕ) :
    Nat.size (square n b j) ≤ 2 ^ 30 := by
  refine (Nat.size_le_size (square_le hn)).trans ?_
  rcases max_choice b n with hmax | hmax
  · rw [hmax]
    exact (h hn).1
  · rw [hmax]
    exact (h hn).2

theorem ReadInFull.product_size (h : ReadInFull n b) (hn : n ≠ 0) (e j : ℕ) :
    Nat.size (product n b e j) ≤ 2 ^ 30 :=
  (Nat.size_le_size (product_le hn)).trans (h hn).2

theorem ReadInFull.size_square_mul (h : ReadInFull n b) (j : ℕ) (hn : n ≠ 0) :
    Nat.size (square n b j * square n b j) ≤ 2 ^ 31 :=
  size_mul_le (h.square_size hn j) (h.square_size hn j)

theorem ReadInFull.size_product_mul (h : ReadInFull n b) (e j : ℕ) (hn : n ≠ 0) :
    Nat.size (product n b e j * square n b j) ≤ 2 ^ 31 :=
  size_mul_le (h.product_size hn e j) (h.square_size hn j)

/-- The state in turn `j`. -/
def PowInv (r : Ptr) (m : Option Ptr) (n b e j : ℕ) (st : Store) : Prop :=
  PowState r m n (product n b e j) (square n b j) (e / 2 ^ j) st

/-- There is a bit of the exponent left in a turn of the loop. -/
theorem div_two_pow_ne_zero (hj : j < Nat.log 2 e) : e / 2 ^ j ≠ 0 := by
  have he : e ≠ 0 := by
    rintro rfl
    rw [Nat.log_zero_right] at hj
    exact absurd hj (Nat.not_lt_zero j)
  have hle : 2 ^ j ≤ e := Nat.pow_le_of_le_log he hj.le
  exact (Nat.div_pos hle (Nat.two_pow_pos j)).ne'

theorem PowInv.turn (hr : r.FreePow) (hread : ReadInFull n b) (h : PowInv r m n b e j st)
    (hj : j < Nat.log 2 e) : ∃ st', powTurn r m st = .ok st' ∧ PowInv r m n b e (j + 1) st' := by
  obtain ⟨st', hturn, hstate⟩ := powTurn_spec hr h (div_two_pow_ne_zero hj) (hread.size_product_mul e j)
    (hread.size_square_mul j)
  refine ⟨st', hturn, ?_⟩
  rw [square_succ, Nat.div_div_eq_div_mul, ← pow_succ, Nat.testBit_div_two_pow, Nat.zero_add]
    at hstate
  rw [PowInv]
  cases hbit : e.testBit j with
  | true =>
    rw [hbit, if_pos rfl, product_succ_of_testBit hbit] at hstate
    exact hstate
  | false =>
    rw [hbit, if_neg Bool.false_ne_true, ← product_succ_of_not_testBit hbit] at hstate
    exact hstate

theorem PowInv.start (hr : r.FreePow) (hm : Modulus m n r st) {k k' i : ℕ}
    (hB : st .B = Mpz.of b false k) (hE : st .E = Mpz.of e false k') :
    PowInv r m n b e 0 ((st.set .mpzSet (Mpz.of 1 false 0)).set r (Mpz.of 1 false i)) := by
  have hproduct : product n b e 0 = 1 := by
    rw [product, pow_zero, Nat.mod_one, if_pos rfl]
  have hother : ∀ q, q ≠ r → q ≠ .mpzSet →
      (st.set .mpzSet (Mpz.of 1 false 0)).set r (Mpz.of 1 false i) q = st q := fun q hq hqset => by
    rw [Store.set_of_ne _ hq, Store.set_of_ne _ hqset]
  refine ⟨hm.pads fun q hq hqr => ?_, ?_, ⟨?_, ?_⟩, k', ?_⟩
  · rw [hother q hqr hq.mpzSet]
    exact Mpz.Pads.refl _
  · rw [hproduct]
    exact Store.holds_of _ r 1 i
  · rw [hother .B hr.B.symm (by simp), hB]
    exact Mpz.shape_of b false k
  · rw [hother .B hr.B.symm (by simp), hB, Mpz.of_value, if_neg Bool.false_ne_true, square, if_pos rfl]
  · rw [hother .E hr.E.symm (by simp), hE, pow_zero, Nat.div_one]

/-- An object of the caller, or no modulus. -/
def Operand (m : Option Ptr) (n : ℕ) (st : Store) : Prop :=
  match m with
  | some q => n ≠ 0 ∧ (q.FreePow ∧ q ≠ .clonePowm) ∧ ∃ k, st q = Mpz.of n false k
  | none => n = 0

/-- What is read is the modulus, and no result. -/
theorem Store.cloneModulus_spec (st : Store) {q : Ptr} (hq : q.FreePow) (hr : r ≠ .clonePowm) :
    ∃ q' st', st.cloneModulus (some q) r = (some q', st') ∧ q'.FreePow ∧ q' ≠ r ∧ st' q' = st q ∧
      ∀ p, p ≠ .clonePowm → st' p = st p := by
  have hcopy : Ptr.clonePowm ∉ [r] := by
    rw [List.mem_singleton]
    exact hr.symm
  obtain ⟨hcloned, hmem, hwhich, hsame⟩ := st.clone_spec (p := q) hcopy
  have hfree : (st.clone q .clonePowm [r]).1.FreePow := by
    rcases hwhich with hwhich | hwhich
    · rw [hwhich]
      exact hq
    · rw [hwhich]
      exact Ptr.freePow_clonePowm
  exact ⟨(st.clone q .clonePowm [r]).1, (st.clone q .clonePowm [r]).2, rfl, hfree,
    fun heq => hmem (List.mem_singleton.mpr heq), hcloned, hsame⟩

theorem Operand.clone (h : Operand m n st) (hr : r ≠ .clonePowm) :
    Modulus (st.cloneModulus m r).1 n r (st.cloneModulus m r).2 ∧
      ∀ q, q ≠ .clonePowm → (st.cloneModulus m r).2 q = st q := by
  cases m with
  | none => exact ⟨h, fun _ _ => rfl⟩
  | some q =>
    obtain ⟨hn, ⟨hfree, -⟩, k, hq⟩ := h
    obtain ⟨q', st', hclone, hfree', hne, hcloned, hsame⟩ := st.cloneModulus_spec hfree hr
    rw [hclone]
    exact ⟨⟨hn, hfree', hne, k, hcloned.trans hq⟩, hsame⟩

theorem testBit_zero_eq_odd (e : ℕ) : e.testBit 0 = decide (Odd e) := by
  rw [Nat.testBit_zero, decide_eq_decide, Nat.odd_iff]

/-- What it takes of a base, an exponent and a modulus: for the exponent zero, the magnitude of the
base is congruent to one; for a negative base and an odd exponent, the sign of the last remainder
is not lost, or the modulus divides twice the last product. -/
structure PowmHolds (b : ℤ) (e n : ℕ) : Prop where
  zero : e = 0 → b.natAbs ≡ 1 [MOD n]
  odd : b < 0 → Odd e → SignLost (-(last n b.natAbs e : ℤ)) n → n ∣ 2 * last n b.natAbs e

theorem SignLost.lt {v w : ℤ} (h : SignLost v w) : |w| < |v| := by
  obtain ⟨-, hndvd, k, hpos, hdvd⟩ := h
  have hle : w.natAbs ≤ readNum v.natAbs := (Nat.le_of_dvd hpos hdvd).trans (Nat.div_le_self _ _)
  have hne : w.natAbs ≠ readNum v.natAbs := fun heq => hndvd (heq ▸ dvd_refl _)
  have hread := readNum_le v.natAbs
  rw [Int.abs_eq_natAbs, Int.abs_eq_natAbs]
  omega

section Exact

variable {r b e m : ℕ}

end Exact

end StyxWire.Sbn
