import Mathlib.Algebra.Order.Ring.Abs
import Mathlib.Data.Nat.Prime.Basic
import StyxWire.Sbn.Comparison
import StyxWire.Sbn.Exponentiation

/-!
# Greatest common divisors

`mpz_gcd` takes the other operand where one is zero, and else works on copies with the binary
algorithm: the factors of two that both have go to `g`, the others are dropped, and the smaller of
two odd numbers is subtracted from the greater one, until one of them is zero. What is copied back
leaves words above those that are used, and nobody looks at them.

The last difference is always zero, and it is halved like the others: `_mpz_self_rshift1` tests the
word with the number `l - 1`, where `l` is zero. So a run of the algorithm always ends there
(`StyxWire.Sbn.mpzGcdRaw_fault`), with the divisor of the odd parts in both copies
(`StyxWire.Sbn.GcdInv`). What is left are the operands that are zero, unless the result is the other
one: it is cleared before it is copied (`StyxWire.Sbn.gcd_exact_iff`).
-/

namespace StyxWire.Sbn

open Limbs

/-! ### The functions -/

/-- `_mpz_self_lshift1`, of a number that is not zero. -/
def Mpz.selfLshift1 (z : Mpz) : Except Stop Mpz := z.selfLshift1Setbit0 false

/-- `_mpz_set`. -/
def Mpz.copy (d s : Mpz) : Except Stop Mpz := do
  let ws ← s.read 0 s.l
  let d ← d.write 0 ws
  return { d with l := s.l, s := s.s }

/-- The first loop: the factors of two that both have. -/
def gcdHalve (g : Ptr) : ℕ → Store → Except Stop Store
  | 0, _ => .error .forever
  | fuel + 1, st => do
    let odd ← (st .cloneA).isOdd
    let odd' ← (st .cloneB).isOdd
    if odd || odd' then return st
    else do
      let a ← (st .cloneA).selfRshift1
      let b ← (st .cloneB).selfRshift1
      let st := (st.set .cloneA a).set .cloneB b
      let res ← (st g).selfLshift1
      gcdHalve g fuel (st.set g res)

/-- The loops that drop the factors of two of one number. -/
def dropTwos : ℕ → Mpz → Except Stop Mpz
  | 0, _ => .error .forever
  | fuel + 1, z => do
    let odd ← z.isOdd
    if odd then return z
    else do
      let z ← z.selfRshift1
      dropTwos fuel z

/-- Half the difference of two numbers, and the first one is set to it. -/
def halfDiff (p p' : Ptr) (st : Store) : Except Stop Store := do
  let st ← mpzSubiRaw .diff p (st p').d (st p').l st
  let t ← (st .diff).selfRshift1
  let st := st.set .diff t
  let z ← (st p).copy (st .diff)
  return st.set p z

/-- One turn of the second loop. -/
def gcdTurn (st : Store) : Except Stop Store := do
  let a ← dropTwos ((st .cloneA).mag + 1) (st .cloneA)
  let st := st.set .cloneA a
  let b ← dropTwos ((st .cloneB).mag + 1) (st .cloneB)
  let st := st.set .cloneB b
  let cmp ← mpzCmpabs (st .cloneA) (st .cloneB)
  if cmp.isGE then halfDiff .cloneA .cloneB st else halfDiff .cloneB .cloneA st

/-- The second loop. -/
def gcdLoop : ℕ → Store → Except Stop Store
  | 0, _ => .error .forever
  | fuel + 1, st =>
    if (st .cloneA).l ≠ 0 then do
      let st ← gcdTurn st
      gcdLoop fuel st
    else .ok st

/-- `mpz_gcd_raw`. -/
def mpzGcdRaw (g a : Ptr) (b : List ℕ) (l : ℕ) (st : Store) : Except Stop Store := do
  let maxi := max (st a).l l
  let ws ← Mpz.read ⟨b, l, false⟩ 0 l
  let st := (st.set .cloneA { st a with s := false }).set .cloneB ⟨ws, l, false⟩
  let cleared ← (st g).zeroRealloc maxi
  let one ← cleared.write 0 [1]
  let st := (st.set g { one with l := 1 }).set .diff Mpz.init
  let st ← gcdHalve g ((st .cloneA).mag + 1) st
  let st ← gcdLoop ((st .cloneA).mag + (st .cloneB).mag + 1) st
  mpzMuliRaw g g (st .cloneB).d (st .cloneB).l st

/-- `mpz_gcd`. -/
def mpzGcd (g a b : Ptr) (st : Store) : Except Stop Store :=
  if (st a).l = 0 then do
    let st ← mpzSet g b st
    return st.abs g
  else if (st b).l = 0 then do
    let st ← mpzSet g a st
    return st.abs g
  else mpzGcdRaw g a (st b).d (st b).l st

/-! ### Numbers with anything above their words -/

theorem rest_isOdd {n : ℕ} (hn : n ≠ 0) (s : Bool) (high : List ℕ) :
    (rest n s high).isOdd = .ok (n.testBit 0) := by
  obtain ⟨w, ws, hws⟩ : ∃ w ws, Nat.digits base n = w :: ws :=
    List.exists_cons_of_ne_nil (Nat.digits_ne_nil_iff_ne_zero.mpr hn)
  have hof := Mpz.isOdd_of (k := 0) s fun hzero => absurd hzero hn
  have hread : (rest n s high).read 0 1 = (Mpz.of n s 0).read 0 1 := by
    rw [Mpz.read, Mpz.read, rest, Mpz.of_d, hws, if_pos (by simp), if_pos (by simp)]
    rfl
  rw [← hof, Mpz.isOdd, Mpz.isOdd, hread]

theorem rest_selfRshift1 {n : ℕ} (hn : n ≠ 0) (s : Bool) (high : List ℕ) :
    ∃ high', (rest n s high).selfRshift1 = .ok (rest (n / 2) s high') := by
  have hl : (rest n s high).l ≠ 0 := digits_length_eq_zero.not.mpr hn
  have hbits : (rest n s high).selfRshift1 = (rest n s high).rshiftBits 1 := by
    simp only [Mpz.selfRshift1, Mpz.rshiftBits, if_neg hl, rshift1_eq]
  obtain ⟨zeros, -, hshift⟩ := rest_rshiftBits n s high (show 1 < atombits by decide)
  exact ⟨_, hbits.trans hshift⟩

/-- A number that is not greater fits in the words. -/
theorem rest_copy {m n : ℕ} (hle : m ≤ n) (s s' : Bool) (high high' : List ℕ) :
    ∃ high'', (rest n s high).copy (rest m s' high') = .ok (rest m s' high'') := by
  have hlen : (Nat.digits base m).length ≤ (Nat.digits base n).length :=
    Nat.le_length_digits_le base _ _ hle
  have hfits : 0 + (Nat.digits base m).length ≤ (rest n s high).d.length := by
    rw [rest, List.length_append]
    omega
  refine ⟨(rest n s high).d.drop (0 + (Nat.digits base m).length), ?_⟩
  rw [Mpz.copy, rest_l, rest_read]
  simp only [bind, Except.bind, Mpz.write, if_pos hfits, Mem.writeAt_eq hfits, List.take_zero,
    List.nil_append, pure, Except.pure]
  rfl

/-- `mpz_set` from such a number. -/
theorem mpzSet_rest {d s : Ptr} (hne : d ≠ s) {st : Store} (hd : (st d).Shape) {n : ℕ} {b : Bool}
    {high : List ℕ} (hs : st s = rest n b high) :
    ∃ j, mpzSet d s st = .ok (st.set d (Mpz.of n b j)) := by
  obtain ⟨j, -, hset⟩ := mpzSet_of_read hne hd (by rw [hs, rest_l]) (by rw [hs, rest_s])
    (by rw [hs, rest_read])
  exact ⟨j, hset⟩

/-- `mpz_subi_raw` with such numbers. -/
theorem mpzSubiRaw_rest {r z : Ptr} (hrz : r ≠ z) {st : Store} (hr : (st r).Shape) {n : ℕ}
    {s : Bool} {high : List ℕ} (hz : st z = rest n s high) {m : ℕ} (hle : m ≤ n) (s' : Bool)
    (high' : List ℕ) :
    ∃ i c, mpzSubiRaw r z (rest m s' high').d (Nat.digits base m).length st =
      .ok (st.set r (Mpz.of (n - m) c i)) := by
  obtain ⟨j, hcopy⟩ := mpzSet_rest hrz hr hz
  obtain ⟨hmax, res, hwrite, i, c, -, -, hnormalize⟩ := write_sub hle s j
  have hread : Mpz.read ⟨(rest m s' high').d, (Nat.digits base m).length, false⟩ 0
      (Nat.digits base m).length = .ok (Nat.digits base m) := rest_read m false high'
  refine ⟨i, c, ?_⟩
  rw [mpzSubiRaw, hz, rest_l, hmax, mpzSetOther, if_pos hrz, hcopy]
  simp only [bind, Except.bind, hread, Store.set_of_ne _ hrz.symm, hz, rest_read, Store.set_self,
    hwrite, hnormalize, Store.set_set]
  rfl

/-! ### Divisors and factors of two -/

/-- A factor of two in one of two numbers is not in their divisor, if that is odd. -/
theorem gcd_two_pow_mul {e m n : ℕ} (hodd : Odd (Nat.gcd (2 ^ e * m) n)) :
    Nat.gcd (2 ^ e * m) n = Nat.gcd m n := by
  rcases Nat.eq_zero_or_pos e with rfl | he
  · rw [pow_zero, Nat.one_mul]
  · have hn : Odd n := by
      by_contra heven
      rw [Nat.not_odd_iff_even] at heven
      have htwo : 2 ∣ Nat.gcd (2 ^ e * m) n :=
        Nat.dvd_gcd (Dvd.dvd.mul_right (dvd_pow_self 2 he.ne') m) heven.two_dvd
      exact Nat.not_even_iff_odd.mpr hodd (even_iff_two_dvd.mpr htwo)
    exact Nat.Coprime.gcd_mul_left_cancel m ((Nat.coprime_two_left.mpr hn).pow_left e)

/-- Half the difference of two odd numbers. -/
theorem gcd_half_sub {m n : ℕ} (hm : Odd m) (hn : Odd n) (hle : n ≤ m) :
    Nat.gcd ((m - n) / 2) n = Nat.gcd m n := by
  have htwo : 2 * ((m - n) / 2) = m - n := Nat.mul_div_cancel' (Nat.Odd.sub_odd hm hn).two_dvd
  have hcop := Nat.Coprime.gcd_mul_left_cancel ((m - n) / 2)
    (Nat.coprime_two_left.mpr hn)
  rw [← hcop, htwo, Nat.gcd_sub_self_left hle]

theorem gcd_halves {m n : ℕ} (hm : Even m) (hn : Even n) :
    2 * Nat.gcd (m / 2) (n / 2) = Nat.gcd m n := by
  rw [← Nat.gcd_mul_left, Nat.mul_div_cancel' hm.two_dvd, Nat.mul_div_cancel' hn.two_dvd]

/-! ### The algorithm -/

theorem testBit_zero_iff {n : ℕ} : n.testBit 0 = true ↔ Odd n := by
  rw [testBit_zero_eq_odd, decide_eq_true_iff]

theorem testBit_zero_eq_false_iff {n : ℕ} : n.testBit 0 = false ↔ Even n := by
  rw [← Nat.not_odd_iff_even, ← testBit_zero_iff, Bool.not_eq_true]

/-- **The factors of two are dropped.** -/
theorem dropTwos_spec {n : ℕ} (hn : n ≠ 0) (s : Bool) (high : List ℕ) {fuel : ℕ}
    (hfuel : n < fuel) :
    ∃ e m high', dropTwos fuel (rest n s high) = .ok (rest m s high') ∧ n = 2 ^ e * m ∧ Odd m := by
  induction fuel generalizing n high with
  | zero => exact absurd hfuel (Nat.not_lt_zero n)
  | succ fuel ih =>
    rw [dropTwos, rest_isOdd hn]
    cases hodd : n.testBit 0 with
    | true => exact ⟨0, n, high, rfl, by rw [pow_zero, Nat.one_mul], testBit_zero_iff.mp hodd⟩
    | false =>
      have heven := testBit_zero_eq_false_iff.mp hodd
      have hhalf : 2 * (n / 2) = n := Nat.mul_div_cancel' heven.two_dvd
      obtain ⟨high', hshift⟩ := rest_selfRshift1 hn s high
      obtain ⟨e, m, high'', hdrop, hm, hoddm⟩ :=
        ih (n := n / 2) (by omega) high' (by omega)
      refine ⟨e + 1, m, high'', ?_, ?_, hoddm⟩
      · simp only [bind, Except.bind, hshift, Bool.false_eq_true, if_false]
        exact hdrop
      · rw [← hhalf, hm]
        ring

/-- What holds before each turn: the copies hold two numbers, and the divisor of the operands is
that of these numbers, times the result so far. -/
structure GcdInv (g : Ptr) (d x y : ℕ) (st : Store) : Prop where
  a : ∃ s high, st .cloneA = rest x s high
  b : ∃ s high, st .cloneB = rest y s high
  ne : x ≠ 0 ∧ y ≠ 0
  diff : (st .diff).Shape
  res : ∃ i s k, st g = Mpz.of (2 ^ i) s k ∧ 2 ^ i * Nat.gcd x y = d

variable {g : Ptr} {d x y : ℕ} {st : Store}

/-- Half the difference of a number and a smaller one. -/
theorem halfDiff_spec {p p' : Ptr} (hp : p ≠ .diff) {s s' : Bool} {high high' : List ℕ}
    (hx : st p = rest x s high) (hy : st p' = rest y s' high')
    (hdiff : (st .diff).Shape) (hlt : y < x) :
    ∃ st', halfDiff p p' st = .ok st' ∧ (∃ s high, st' p = rest ((x - y) / 2) s high) ∧
      (st' .diff).Shape ∧ ∀ q, q ≠ p → q ≠ .diff → st' q = st q := by
  obtain ⟨i, c, hsub⟩ := mpzSubiRaw_rest hp.symm hdiff hx hlt.le s' high'
  obtain ⟨i', hshift⟩ := Mpz.selfRshift1_of (n := x - y) (by omega) c i
  obtain ⟨high'', hcopy⟩ := rest_copy (m := (x - y) / 2) (n := x) (by omega) s c high
    (List.replicate i' 0)
  rw [← of_eq_rest] at hcopy
  refine ⟨_, ?_, ⟨c, high'', Store.set_self (((st.set .diff (Mpz.of (x - y) c i)).set .diff
    (Mpz.of ((x - y) / 2) c i'))) p _⟩, ?_, fun q hq hqd => ?_⟩
  · rw [halfDiff, hy, rest_l, hsub]
    simp only [bind, Except.bind, Store.set_self, hshift, Store.set_set, Store.set_of_ne _ hp, hx,
      hcopy]
    rfl
  · rw [Store.set_of_ne _ hp.symm, Store.set_self]
    exact Mpz.shape_of _ _ _
  · rw [Store.set_of_ne _ hq, Store.set_of_ne _ hqd, Store.set_of_ne _ hqd]

/-- **The difference of equal numbers** is not halved: there is no word to test. -/
theorem halfDiff_fault {p p' : Ptr} (hp : p ≠ .diff) {s s' : Bool} {high high' : List ℕ}
    (hx : st p = rest x s high) (hy : st p' = rest x s' high') (hdiff : (st .diff).Shape) :
    halfDiff p p' st = .error .fault := by
  obtain ⟨i, c, hsub⟩ := mpzSubiRaw_rest hp.symm hdiff hx (Nat.le_refl x) s' high'
  have hl : (Mpz.of (x - x) c i).l = 0 := by
    rw [Nat.sub_self, Mpz.of_l, Nat.digits_zero, List.length_nil]
  rw [halfDiff, hy, rest_l, hsub]
  simp only [bind, Except.bind, Store.set_self, Mpz.selfRshift1, if_pos hl]

/-- Two odd numbers, which the factors of two are dropped from. -/
theorem dropTwos_both (h : GcdInv g d x y st) (hg : g ≠ .cloneA ∧ g ≠ .cloneB)
    (hodd : Odd (Nat.gcd x y)) :
    ∃ x' y' a b, Odd x' ∧ Odd y' ∧ x' ≤ x ∧ y' ≤ y ∧
      dropTwos ((st .cloneA).mag + 1) (st .cloneA) = .ok a ∧
      dropTwos ((st .cloneB).mag + 1) (st .cloneB) = .ok b ∧
      Nat.gcd x' y' = Nat.gcd x y ∧ GcdInv g d x' y' ((st.set .cloneA a).set .cloneB b) := by
  obtain ⟨s, high, hx⟩ := h.a
  obtain ⟨s', high', hy⟩ := h.b
  obtain ⟨e, x', high₁, hdrop, hxx, hoddx⟩ := dropTwos_spec h.ne.1 s high (Nat.lt_succ_self x)
  obtain ⟨e', y', high₂, hdrop', hyy, hoddy⟩ := dropTwos_spec h.ne.2 s' high' (Nat.lt_succ_self y)
  have hgcd : Nat.gcd x' y' = Nat.gcd x y := by
    rw [hxx] at hodd
    have hleft := gcd_two_pow_mul hodd
    rw [hleft, hyy, Nat.gcd_comm] at hodd
    have hright := gcd_two_pow_mul hodd
    rw [hxx, hleft, hyy, Nat.gcd_comm x' (2 ^ e' * y'), hright, Nat.gcd_comm]
  have hle : ∀ e m : ℕ, m ≤ 2 ^ e * m := fun e m => Nat.le_mul_of_pos_left m (Nat.two_pow_pos e)
  obtain ⟨i, c, k, hres, hd⟩ := h.res
  refine ⟨x', y', rest x' s high₁, rest y' s' high₂, hoddx, hoddy, hxx ▸ hle e x',
    hyy ▸ hle e' y', ?_, ?_, hgcd, ?_⟩
  · rw [hx, rest_mag]
    exact hdrop
  · rw [hy, rest_mag]
    exact hdrop'
  · refine ⟨⟨s, high₁, ?_⟩, ⟨s', high₂, Store.set_self _ _ _⟩, ⟨?_, ?_⟩, ?_, i, c, k, ?_, ?_⟩
    · rw [Store.set_of_ne _ (by simp), Store.set_self]
    · exact fun hzero => by simp [hzero] at hoddx
    · exact fun hzero => by simp [hzero] at hoddy
    · rw [Store.set_of_ne _ (by simp), Store.set_of_ne _ (by simp)]
      exact h.diff
    · rw [Store.set_of_ne _ hg.2, Store.set_of_ne _ hg.1, hres]
    · rw [hgcd, hd]

/-- **The second loop** comes to two equal numbers, which are the divisor but for the factors of
two, and subtracts them. -/
theorem gcdLoop_reaches (h : GcdInv g d x y st) (hg : g ≠ .cloneA ∧ g ≠ .cloneB ∧ g ≠ .diff)
    (hodd : Odd (Nat.gcd x y)) {fuel : ℕ} (hfuel : x + y < fuel) :
    ∃ st' z k, gcdLoop fuel st = (halfDiff .cloneA .cloneB st' >>= gcdLoop k) ∧
      GcdInv g d z z st' := by
  induction fuel generalizing x y st with
  | zero => exact absurd hfuel (Nat.not_lt_zero _)
  | succ fuel ih =>
    have hl : (st .cloneA).l ≠ 0 := by
      obtain ⟨s, high, hx⟩ := h.a
      rw [hx, rest_l]
      exact digits_length_eq_zero.not.mpr h.ne.1
    obtain ⟨x', y', a, b, hoddx, hoddy, hxle, hyle, hdrop, hdrop', hgcd, h'⟩ :=
      dropTwos_both h ⟨hg.1, hg.2.1⟩ hodd
    set st₁ := (st.set .cloneA a).set .cloneB b with hst₁
    obtain ⟨s, high, hx⟩ := h'.a
    obtain ⟨s', high', hy⟩ := h'.b
    obtain ⟨i, c, k, hres, hd⟩ := h'.res
    have hb : (st.set .cloneA a) .cloneB = st .cloneB := Store.set_of_ne _ (by simp) _
    have hturn : gcdLoop (fuel + 1) st =
        ((if (compare x' y').isGE then halfDiff .cloneA .cloneB st₁
          else halfDiff .cloneB .cloneA st₁) >>= gcdLoop fuel) := by
      rw [gcdLoop, if_pos hl, gcdTurn, hdrop]
      simp only [bind, Except.bind, hb, hdrop', ← hst₁, hx, hy, mpzCmpabs_rest]
    rw [hturn]
    rcases Nat.lt_trichotomy x' y' with hlt | rfl | hgt
    · obtain ⟨st', hhalf, ⟨s'', high'', hy'⟩, hdiff, hother⟩ :=
        halfDiff_spec (by simp) hy hx h'.diff hlt
      have heven := (Nat.Odd.sub_odd hoddy hoddx).two_dvd
      have hgcd' : Nat.gcd x' ((y' - x') / 2) = Nat.gcd x' y' := by
        rw [Nat.gcd_comm, gcd_half_sub hoddy hoddx hlt.le, Nat.gcd_comm]
      have hinv : GcdInv g d x' ((y' - x') / 2) st' := by
        refine ⟨⟨s, high, ?_⟩, ⟨s'', high'', hy'⟩, ⟨h'.ne.1, by omega⟩, hdiff, i, c, k, ?_, ?_⟩
        · rw [hother _ (by simp) (by simp), hx]
        · rw [hother _ hg.2.1 hg.2.2, hres]
        · rw [hgcd', hd]
      obtain ⟨st'', z, j, hloop, hz⟩ := ih hinv (by rwa [hgcd', hgcd]) (by omega)
      refine ⟨st'', z, j, ?_, hz⟩
      rw [if_neg (by rw [Nat.isGE_compare]; omega), hhalf]
      exact hloop
    · refine ⟨st₁, x', fuel, ?_, h'⟩
      rw [if_pos (by rw [Nat.isGE_compare])]
    · obtain ⟨st', hhalf, ⟨s'', high'', hx'⟩, hdiff, hother⟩ :=
        halfDiff_spec (by simp) hx hy h'.diff hgt
      have heven := (Nat.Odd.sub_odd hoddx hoddy).two_dvd
      have hgcd' := gcd_half_sub hoddx hoddy hgt.le
      have hinv : GcdInv g d ((x' - y') / 2) y' st' := by
        refine ⟨⟨s'', high'', hx'⟩, ⟨s', high', ?_⟩, ⟨by omega, h'.ne.2⟩, hdiff, i, c, k, ?_, ?_⟩
        · rw [hother _ (by simp) (by simp), hy]
        · rw [hother _ hg.1 hg.2.2, hres]
        · rw [hgcd', hd]
      obtain ⟨st'', z, j, hloop, hz⟩ := ih hinv (by rwa [hgcd', hgcd]) (by omega)
      refine ⟨st'', z, j, ?_, hz⟩
      rw [if_pos (by rw [Nat.isGE_compare]; omega), hhalf]
      exact hloop

/-- **The first loop** takes the factors of two that both have, for which there is room. -/
theorem gcdHalve_spec (hg : g ≠ .cloneA ∧ g ≠ .cloneB ∧ g ≠ .diff) {m words : ℕ}
    (hwords : (Nat.digits base m).length < words) {i k : ℕ} {c : Bool} {s s' : Bool}
    {high high' : List ℕ} (hx : st .cloneA = rest x s high) (hy : st .cloneB = rest y s' high')
    (hres : st g = Mpz.of (2 ^ i) c k) (hk : (Nat.digits base (2 ^ i)).length + k = words)
    (hm : 2 ^ i * x = m) (hne : x ≠ 0 ∧ y ≠ 0) (hd : 2 ^ i * Nat.gcd x y = d)
    (hdiff : (st .diff).Shape) {fuel : ℕ} (hfuel : x < fuel) :
    ∃ st' x' y', gcdHalve g fuel st = .ok st' ∧ GcdInv g d x' y' st' ∧ Odd (Nat.gcd x' y') := by
  induction fuel generalizing x y st i k high high' with
  | zero => exact absurd hfuel (Nat.not_lt_zero x)
  | succ fuel ih =>
    rw [gcdHalve, hx, hy, rest_isOdd hne.1, rest_isOdd hne.2]
    simp only [bind, Except.bind]
    by_cases hodd : (x.testBit 0 || y.testBit 0) = true
    · rw [if_pos hodd]
      refine ⟨st, x, y, rfl, ⟨⟨s, high, hx⟩, ⟨s', high', hy⟩, hne, hdiff, i, c, k, hres, hd⟩, ?_⟩
      -- the divisor divides an odd number
      rw [Bool.or_eq_true, testBit_zero_iff, testBit_zero_iff] at hodd
      rcases hodd with hodd | hodd
      · exact hodd.of_dvd_nat (Nat.gcd_dvd_left x y)
      · exact hodd.of_dvd_nat (Nat.gcd_dvd_right x y)
    · rw [if_neg hodd]
      rw [Bool.not_eq_true, Bool.or_eq_false_iff, testBit_zero_eq_false_iff,
        testBit_zero_eq_false_iff] at hodd
      obtain ⟨high₁, hshift⟩ := rest_selfRshift1 hne.1 s high
      obtain ⟨high₂, hshift'⟩ := rest_selfRshift1 hne.2 s' high'
      have hhalf : 2 * (x / 2) = x := Nat.mul_div_cancel' hodd.1.two_dvd
      have hhalf' : 2 * (y / 2) = y := Nat.mul_div_cancel' hodd.2.two_dvd
      have hroom : (Nat.digits base (2 ^ i)).length ≤ (Nat.digits base m).length :=
        Nat.le_length_digits_le base _ _ (hm ▸ Nat.le_mul_of_pos_right _ (Nat.pos_of_ne_zero hne.1))
      obtain ⟨j, hlen, hdouble⟩ :=
        Mpz.selfLshift1Setbit0_of (2 ^ i) c (show 0 < k by omega) false
      have htwo : 2 * 2 ^ i + Bool.toNat false = 2 ^ (i + 1) := by
        rw [pow_succ, Nat.mul_comm]
        rfl
      rw [htwo] at hlen hdouble
      have hg' : ((st.set .cloneA (rest (x / 2) s high₁)).set .cloneB (rest (y / 2) s' high₂)) g =
          Mpz.of (2 ^ i) c k := by
        rw [Store.set_of_ne _ hg.2.1, Store.set_of_ne _ hg.1, hres]
      simp only [hshift, hshift', hg', Mpz.selfLshift1, hdouble]
      refine @ih (x / 2) (y / 2) _ (i + 1) j high₁ high₂ ?_ ?_ (Store.set_self _ _ _)
        (hlen.trans hk) ?_ ⟨by omega, by omega⟩ ?_ ?_ (by omega)
      · rw [Store.set_of_ne _ hg.1.symm, Store.set_of_ne _ (by simp), Store.set_self]
      · rw [Store.set_of_ne _ hg.2.1.symm, Store.set_self]
      · rw [pow_succ, Nat.mul_assoc, hhalf, hm]
      · rw [pow_succ, Nat.mul_assoc, gcd_halves hodd.1 hodd.2, hd]
      · rw [Store.set_of_ne _ hg.2.2.symm, Store.set_of_ne _ (by simp), Store.set_of_ne _ (by simp)]
        exact hdiff

/-- **The algorithm does not come to its end**: the last difference is zero, and a word that it does
not have is tested. -/
theorem mpzGcdRaw_fault {g : ℕ} {a : Ptr} {m n : ℕ} {s s' : Bool} {i j : ℕ}
    (hg : (st (.obj g)).Shape) (ha : st a = Mpz.of m s i) (hne : m ≠ 0 ∧ n ≠ 0) :
    mpzGcdRaw (.obj g) a (Mpz.of n s' j).d (Nat.digits base n).length st = .error .fault := by
  have hgfree : Ptr.obj g ≠ .cloneA ∧ Ptr.obj g ≠ .cloneB ∧ Ptr.obj g ≠ .diff := by simp
  set maxi := max (Nat.digits base m).length (Nat.digits base n).length with hmaxi
  obtain ⟨p, c, k, hp⟩ := hg.exists_of
  obtain ⟨k', hk', hclear⟩ := Mpz.zeroRealloc_of p c k maxi
  have hlen : (Nat.digits base 0).length ≤ [1].length := by simp
  have hwrite := Mpz.write_of (n := 0) c (k := k') hlen (by
    rw [List.length_singleton]
    omega)
  -- the store in which the first loop starts
  set st₁ := (st.set .cloneA { st a with s := false }).set .cloneB
    ⟨Nat.digits base n, (Nat.digits base n).length, false⟩ with hst₁
  set st₂ := (st₁.set (.obj g) (Mpz.of 1 c (k' - 1))).set .diff Mpz.init with hst₂
  have hg₁ : st₁ (.obj g) = Mpz.of p c k := by
    rw [hst₁, Store.set_of_ne _ (by simp), Store.set_of_ne _ (by simp), hp]
  have hone :
      (⟨[1] ++ List.replicate ((Nat.digits base 0).length + k' - [1].length) 0, 1, c⟩ : Mpz) =
      Mpz.of 1 c (k' - 1) := by
    rw [Mpz.of, Nat.digits_of_lt base 1 Nat.one_ne_zero one_lt_base, Nat.digits_zero,
      List.length_nil, Nat.zero_add]
    rfl
  have hx : st₂ .cloneA = rest m false (List.replicate i 0) := by
    rw [hst₂, Store.set_of_ne _ (by simp), Store.set_of_ne _ (by simp), hst₁,
      Store.set_of_ne _ (by simp), Store.set_self, ha]
    rfl
  have hy : st₂ .cloneB = rest n false [] := by
    rw [hst₂, Store.set_of_ne _ (by simp), Store.set_of_ne _ (by simp), hst₁, Store.set_self, rest,
      List.append_nil]
  have hres : st₂ (.obj g) = Mpz.of (2 ^ 0) c (k' - 1) := by
    rw [hst₂, Store.set_of_ne _ (by simp), Store.set_self, pow_zero]
  have hdiff : (st₂ .diff).Shape := by
    rw [hst₂, Store.set_self]
    exact Mpz.init_shape
  have hroom : (Nat.digits base (2 ^ 0)).length + (k' - 1) = k' := by
    rw [pow_zero, Nat.digits_of_lt base 1 Nat.one_ne_zero one_lt_base, List.length_singleton]
    omega
  obtain ⟨st₃, x, y, hhalve, hinv, hodd⟩ := gcdHalve_spec (d := Nat.gcd m n) (m := m) hgfree
    (show (Nat.digits base m).length < k' from (le_max_left _ _).trans_lt hk') hx hy hres hroom
    (by rw [pow_zero, Nat.one_mul]) hne (by rw [pow_zero, Nat.one_mul]) hdiff (Nat.lt_succ_self m)
  obtain ⟨s₁, high₁, hx₃⟩ := hinv.a
  obtain ⟨s₂, high₂, hy₃⟩ := hinv.b
  obtain ⟨st₄, z, fuel, hloop, hlast⟩ :=
    gcdLoop_reaches hinv hgfree hodd (Nat.lt_succ_self (x + y))
  obtain ⟨s₃, high₃, hx₄⟩ := hlast.a
  obtain ⟨s₄, high₄, hy₄⟩ := hlast.b
  have hfault := halfDiff_fault (by simp) hx₄ hy₄ hlast.diff
  rw [mpzGcdRaw, read_operand, ha, Mpz.of_l, ← hmaxi]
  simp only [bind, Except.bind]
  rw [← ha, ← hst₁, hg₁, hclear]
  simp only [hwrite, hone, ← hst₂, hx, rest_mag, hhalve, hx₃, hy₃, hloop, hfault]
  rfl

/-- `mpz_gcd` is as it should be: it ends, nothing outside the allocated words is accessed, and the
result is the greatest common divisor. -/
def GcdExact (g a b : Ptr) (st : Store) : Prop :=
  ∃ st', mpzGcd g a b st = .ok st' ∧ (st' g).Canonical ∧
    (st' g).value = Int.gcd (st a).value (st b).value

/-- The absolute value of an operand is taken, if the other one is zero. -/
theorem setAbs_spec {g p n j : ℕ} {s : Bool} (hg : (st (.obj g)).Shape)
    (hp : st (.obj p) = Mpz.of n s j) :
    ∃ st' k, (mpzSet (.obj g) (.obj p) st >>= fun st => .ok (st.abs (.obj g))) = .ok st' ∧
      st' (.obj g) = Mpz.of (if g = p then 0 else n) false k := by
  obtain ⟨k, hset⟩ : ∃ k, mpzSet (.obj g) (.obj p) st =
      .ok (st.set (.obj g) (Mpz.of (if g = p then 0 else n) s k)) := by
    split_ifs with hgp
    · subst hgp
      exact mpzSet_self hp
    · obtain ⟨k, -, hset⟩ := mpzSet_eq (by simpa using hgp) hg hp
      exact ⟨k, hset⟩
  refine ⟨_, k, by rw [hset]; rfl, ?_⟩
  rw [Store.abs, Store.set_self, Store.set_self]
  rfl

theorem gcdExact_iff_of {g a b v k : ℕ} {st' : Store}
    (h : mpzGcd (.obj g) (.obj a) (.obj b) st = .ok st')
    (hres : st' (.obj g) = Mpz.of v false k) :
    GcdExact (.obj g) (.obj a) (.obj b) st ↔
      v = Int.gcd (st (.obj a)).value (st (.obj b)).value := by
  have hvalue : (st' (.obj g)).value = v := by
    rw [hres, Mpz.of_value, if_neg Bool.false_ne_true]
  constructor
  · rintro ⟨st'', h', -, hgcd⟩
    rw [h] at h'
    cases h'
    rw [hvalue] at hgcd
    exact_mod_cast hgcd
  · intro hv
    refine ⟨st', h, ?_, ?_⟩
    · rw [hres]
      exact Mpz.canonical_of (fun _ => rfl) k
    · rw [hvalue, hv]

/-- **The greatest common divisor is computed where an operand is zero**, and the result is not the
object of the other one unless this is zero, too; and nowhere else. -/
theorem gcd_exact_iff {g a b : ℕ} (ha : (st (.obj a)).Canonical) (hb : (st (.obj b)).Canonical)
    (hg : (st (.obj g)).Shape) :
    GcdExact (.obj g) (.obj a) (.obj b) st ↔
      ((st (.obj a)).value = 0 ∧ (g = b → (st (.obj b)).value = 0)) ∨
        ((st (.obj b)).value = 0 ∧ (g = a → (st (.obj a)).value = 0)) := by
  obtain ⟨m, s, i, ha, -⟩ := ha.exists_of
  obtain ⟨n, s', j, hb, -⟩ := hb.exists_of
  have hgcd : Int.gcd (st (.obj a)).value (st (.obj b)).value = Nat.gcd m n := by
    rw [Int.gcd_eq_natAbs_gcd_natAbs, ha, hb, Mpz.of_value_natAbs, Mpz.of_value_natAbs]
  have hvm : (st (.obj a)).value = 0 ↔ m = 0 := by rw [ha, Mpz.of_value_eq_zero]
  have hvn : (st (.obj b)).value = 0 ↔ n = 0 := by rw [hb, Mpz.of_value_eq_zero]
  have hlm : (st (.obj a)).l = 0 ↔ m = 0 := by rw [ha, Mpz.of_l, digits_length_eq_zero]
  have hln : (st (.obj b)).l = 0 ↔ n = 0 := by rw [hb, Mpz.of_l, digits_length_eq_zero]
  rw [hvm, hvn]
  by_cases hm : m = 0
  · obtain ⟨st', k, hset, hres⟩ := setAbs_spec hg hb
    have hrun : mpzGcd (.obj g) (.obj a) (.obj b) st = .ok st' := by
      rw [mpzGcd, if_pos (hlm.mpr hm)]
      exact hset
    rw [gcdExact_iff_of hrun hres, hgcd, hm, Nat.gcd_zero_left]
    by_cases hgb : g = b
    · rw [if_pos hgb]
      constructor
      · intro hn
        exact Or.inl ⟨rfl, fun _ => hn.symm⟩
      · rintro (⟨-, hn⟩ | ⟨hn, -⟩)
        · exact (hn hgb).symm
        · exact hn.symm
    · rw [if_neg hgb]
      exact ⟨fun _ => Or.inl ⟨rfl, fun heq => absurd heq hgb⟩, fun _ => rfl⟩
  · by_cases hn : n = 0
    · obtain ⟨st', k, hset, hres⟩ := setAbs_spec hg ha
      have hrun : mpzGcd (.obj g) (.obj a) (.obj b) st = .ok st' := by
        rw [mpzGcd, if_neg (hlm.not.mpr hm), if_pos (hln.mpr hn)]
        exact hset
      rw [gcdExact_iff_of hrun hres, hgcd, hn, Nat.gcd_zero_right]
      by_cases hga : g = a
      · rw [if_pos hga]
        constructor
        · intro hzero
          exact absurd hzero.symm hm
        · rintro (⟨hzero, -⟩ | ⟨-, hzero⟩)
          · exact absurd hzero hm
          · exact absurd (hzero hga) hm
      · rw [if_neg hga]
        exact ⟨fun _ => Or.inr ⟨rfl, fun heq => absurd heq hga⟩, fun _ => rfl⟩
    · -- none of them is zero
      have hrun : mpzGcd (.obj g) (.obj a) (.obj b) st = .error .fault := by
        rw [mpzGcd, if_neg (hlm.not.mpr hm), if_neg (hln.not.mpr hn), hb, Mpz.of_l]
        exact mpzGcdRaw_fault hg ha ⟨hm, hn⟩
      constructor
      · rintro ⟨st', hok, -⟩
        rw [hrun] at hok
        nomatch hok
      · rintro (⟨hzero, -⟩ | ⟨hzero, -⟩)
        · exact absurd hzero hm
        · exact absurd hzero hn

/-- One and one: their difference is halved. -/
theorem gcd_inexact :
    (words 1 1 (.obj 2)).value = 1 ∧ (words 1 1 (.obj 3)).value = 1 ∧
      ¬GcdExact (.obj 0) (.obj 2) (.obj 3) (words 1 1) := by
  have hfault : mpzGcd (.obj 0) (.obj 2) (.obj 3) (words 1 1) = .error .fault := by rfl
  refine ⟨by decide, by decide, ?_⟩
  rintro ⟨st', hok, -⟩
  rw [hfault] at hok
  nomatch hok

/-- Zero and minus six. -/
theorem gcd_exact_six : GcdExact (.obj 0) (.obj 2) (.obj 3) (words 0 (-6)) := by
  have hz : words 0 (-6) (.obj 2) = Mpz.of 0 false 0 := immediate_eq (by decide) false
  have hd : words 0 (-6) (.obj 3) = Mpz.of 6 true 0 := immediate_eq (by decide) true
  refine (gcd_exact_iff ?_ ?_ Mpz.init_shape).mpr (Or.inl ⟨?_, by decide⟩)
  · rw [hz]
    exact Mpz.canonical_of (fun _ => rfl) 0
  · rw [hd]
    exact Mpz.canonical_of (by decide) 0
  · rw [hz]
    exact Mpz.of_value_eq_zero.mpr rfl

end StyxWire.Sbn
