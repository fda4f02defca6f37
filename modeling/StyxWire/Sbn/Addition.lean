import StyxWire.Sbn.Mpz

/-!
# Comparison, addition and subtraction

`mpz_cmpabs`, the loops `mpz_addi_raw` and `mpz_subi_raw` over the words, and `mpz_add` and
`mpz_sub`, which choose between them by the signs. They are exact whichever of the objects are
the same (`StyxWire.Sbn.add_sub_exact`).
-/

namespace StyxWire.Sbn

open Limbs

/-! ### The functions -/

/-- `mpz_cmpabs`. -/
def mpzCmpabs (a b : Mpz) : Except Stop Ordering :=
  if a.l > b.l then .ok .gt
  else if a.l < b.l then .ok .lt
  else do
    let as ← a.read 0 a.l
    let bs ← b.read 0 a.l
    return cmpHigh as.reverse bs.reverse

/-- `mpz_addi_raw`. The words `d` are those at the call. -/
def mpzAddiRaw (r z : Ptr) (d : List ℕ) (l : ℕ) (st : Store) : Except Stop Store := do
  let maxi := max (st z).l l
  let cleared ← if r ≠ z then (st r).zeroRealloc maxi else .ok (st r)
  let st := st.set r cleared
  let st := st.set z ((st z).realloc (if r = z then maxi else l))
  let ds ← Mpz.read ⟨d, l, false⟩ 0 l
  let zs ← (st z).read 0 maxi
  let ws := Limbs.add base ds zs
  let res ← (st r).write 0 ws
  return st.set r { res with l := ws.length }

/-- `mpz_subi_raw`. The words `d` are those at the call. -/
def mpzSubiRaw (r z : Ptr) (d : List ℕ) (l : ℕ) (st : Store) : Except Stop Store := do
  let maxi := max (st z).l l
  let st ← mpzSetOther r z st
  let ds ← Mpz.read ⟨d, l, false⟩ 0 l
  let zs ← (st z).read 0 maxi
  let ws := Limbs.sub base zs ds
  let res ← (st r).write 0 ws
  return st.set r (Mpz.normalize { res with l := ws.length })

/-- The sign of a number is set. -/
def Store.setSign (st : Store) (p : Ptr) (s : Bool) : Store := st.set p { st p with s := s }

/-- The magnitudes, which compare as `cmp`, are subtracted, the smaller one from the other; `s` is
the sign of the difference if the first one is not the smaller, and `s'` if it is. It is left at
positive when the difference is zero. -/
def mpzSubabs (r a b : Ptr) (cmp : Ordering) (s s' : Bool) (st : Store) : Except Stop Store := do
  if cmp.isGE then
    let st ← mpzSubiRaw r a (st b).d (st b).l st
    return st.setSign r (s && (st r).l ≠ 0)
  else
    let st ← mpzSubiRaw r b (st a).d (st a).l st
    return st.setSign r (s' && (st r).l ≠ 0)

/-- The magnitudes are added, under the sign of the first one. -/
def mpzAddabs (r a b : Ptr) (st : Store) : Except Stop Store := do
  let st ← mpzAddiRaw r a (st b).d (st b).l st
  return st.setSign r (st a).s

/-- `mpz_add`. -/
def mpzAdd (r a b : Ptr) (st : Store) : Except Stop Store := do
  let cmp ← mpzCmpabs (st a) (st b)
  if (st a).s = (st b).s then mpzAddabs r a b st
  else if (st a).s then mpzSubabs r a b cmp true false st
  else mpzSubabs r a b cmp false true st

/-- `mpz_sub`. -/
def mpzSub (r a b : Ptr) (st : Store) : Except Stop Store := do
  let cmp ← mpzCmpabs (st a) (st b)
  if (st a).s ≠ (st b).s then mpzAddabs r a b st
  else if (st a).s then mpzSubabs r a b cmp true false st
  else mpzSubabs r a b cmp false true st

/-! ### The loops -/

theorem mpzCmpabs_of (m n : ℕ) (s s' : Bool) (k k' : ℕ) :
    mpzCmpabs (Mpz.of m s k) (Mpz.of n s' k') = .ok (compare m n) := by
  rw [mpzCmpabs, Mpz.of_l, Mpz.of_l]
  split_ifs with hgt hlt
  · have hn : n < m :=
      lt_of_not_ge fun hle => absurd (Nat.le_length_digits_le base _ _ hle) hgt.not_ge
    rw [Nat.compare_eq_gt.mpr hn]
  · have hm : m < n :=
      lt_of_not_ge fun hle => absurd (Nat.le_length_digits_le base _ _ hle) hlt.not_ge
    rw [Nat.compare_eq_lt.mpr hm]
  · have hlen : (Nat.digits base m).length = (Nat.digits base n).length := by omega
    have hcmp := cmpHigh_reverse hlen (proper_digits one_lt_base m) (proper_digits one_lt_base n)
      one_lt_base
    rw [Nat.ofDigits_digits, Nat.ofDigits_digits] at hcmp
    rw [Mpz.read_of_self, hlen, Mpz.read_of_self]
    exact congrArg Except.ok hcmp

/-- The words that the loops read of a number that may be shorter. -/
theorem read_padded {n : ℕ} (s : Bool) {k m : ℕ} (hle : (Nat.digits base n).length ≤ m)
    (hm : m ≤ (Nat.digits base n).length + k) :
    ∃ zs, (Mpz.of n s k).read 0 m = .ok zs ∧ Proper base zs ∧ zs.length = m ∧
      Nat.ofDigits base zs = n := by
  refine ⟨_, Mpz.read_of s hle hm, ?_, ?_, ?_⟩
  · exact proper_append.mpr
      ⟨proper_digits one_lt_base n, proper_replicate_zero base_pos _⟩
  · rw [List.length_append, List.length_replicate]
    omega
  · rw [Nat.ofDigits_append_replicate_zero, Nat.ofDigits_digits]

/-- The words of an operand. -/
theorem read_operand (m : ℕ) (s : Bool) (k : ℕ) :
    Mpz.read ⟨(Mpz.of m s k).d, (Nat.digits base m).length, false⟩ 0 (Nat.digits base m).length =
      .ok (Nat.digits base m) :=
  Mpz.read_of_self m false k

/-- **`mpz_addi_raw` adds the magnitudes**, and may give the operand more words. -/
theorem mpzAddiRaw_eq {r z : Ptr} {st : Store} (hr : (st r).Shape) {n : ℕ} {s : Bool} {k : ℕ}
    (hz : st z = Mpz.of n s k) (m : ℕ) (s' : Bool) (k' : ℕ) :
    ∃ j i, mpzAddiRaw r z (Mpz.of m s' k').d (Nat.digits base m).length st =
      .ok ((st.set z (Mpz.of n s (k + j))).set r (Mpz.of (m + n) (st r).s i)) := by
  set maxi := max (Nat.digits base n).length (Nat.digits base m).length with hmaxi
  -- the digits of the sum are one more than those of the longer operand, at most
  have hsize : maxi ≤ (Nat.digits base (m + n)).length :=
    max_le (Nat.le_length_digits_le base _ _ (Nat.le_add_left n m))
      (Nat.le_length_digits_le base _ _ (Nat.le_add_right m n))
  have hroom : (Nat.digits base (m + n)).length ≤ maxi + 1 := by
    rw [Nat.digits_length_le_iff one_lt_base]
    have hn : n < base ^ maxi :=
      (Nat.lt_base_pow_length_digits one_lt_base).trans_le
        (Nat.pow_le_pow_right base_pos (le_max_left _ _))
    have hm : m < base ^ maxi :=
      (Nat.lt_base_pow_length_digits one_lt_base).trans_le
        (Nat.pow_le_pow_right base_pos (le_max_right _ _))
    have htwo : 2 * base ^ maxi ≤ base ^ (maxi + 1) := by
      rw [pow_succ, Nat.mul_comm]
      exact Nat.mul_le_mul_left _ one_lt_base
    omega
  have hadd : ∀ zs, Proper base zs → zs.length = maxi → Nat.ofDigits base zs = n →
      Limbs.add base (Nat.digits base m) zs = Nat.digits base (m + n) := by
    intro zs hproper hlen hvalue
    refine add_eq_digits (proper_digits one_lt_base m) hproper one_lt_base ?_ ?_ ?_
    · rw [hlen]
      exact le_max_right _ _
    · rw [Nat.ofDigits_digits, hvalue]
    · rwa [hlen]
  rw [mpzAddiRaw, hz, Mpz.of_l]
  by_cases hrz : r = z
  · subst hrz
    obtain ⟨j, hj⟩ : ∃ j, (Mpz.of n s k).realloc maxi = Mpz.of n s (k + j) ∧
        maxi < (Nat.digits base n).length + (k + j) :=
      ⟨_, Mpz.realloc_of n s k maxi, by omega⟩
    obtain ⟨zs, hread, hproper, hlen, hvalue⟩ :=
      read_padded (m := maxi) s (k := k + j) (le_max_left _ _) (by omega)
    have hfits : (Nat.digits base n).length ≤ (Nat.digits base (m + n)).length :=
      (le_max_left _ _).trans hsize
    have hwrite := Mpz.write_of (n := n) s (k := k + j) hfits (by omega)
    refine ⟨j, (Nat.digits base n).length + (k + j) - (Nat.digits base (m + n)).length, ?_⟩
    simp only [ne_eq, not_true_eq_false, if_false, pure, Except.pure, bind, Except.bind, if_true,
      Store.set_self, hz, ← hmaxi, hj.1, read_operand, hread, hadd zs hproper hlen hvalue, hwrite,
      Store.set_set]
    rfl
  · obtain ⟨p, sr, kr, hp⟩ := hr.exists_of
    obtain ⟨i, hi, hzero⟩ := Mpz.zeroRealloc_of p sr kr maxi
    obtain ⟨j, hj⟩ : ∃ j, (Mpz.of n s k).realloc (Nat.digits base m).length =
        Mpz.of n s (k + j) ∧ (Nat.digits base m).length < (Nat.digits base n).length + (k + j) :=
      ⟨_, Mpz.realloc_of n s k _, by omega⟩
    obtain ⟨zs, hread, hproper, hlen, hvalue⟩ :=
      read_padded (m := maxi) s (k := k + j) (le_max_left _ _) (by omega)
    have hfits : (Nat.digits base 0).length ≤ (Nat.digits base (m + n)).length := by simp
    have hwrite := Mpz.write_of (n := 0) sr (k := i) hfits (by omega)
    refine ⟨j, i - (Nat.digits base (m + n)).length, ?_⟩
    have hzr : z ≠ r := fun h => hrz h.symm
    simp only [ne_eq, hrz, not_false_eq_true, if_true, pure, Except.pure, bind, Except.bind,
      if_false, hp, ← hmaxi, hzero, Store.set_self, Store.set_of_ne _ hzr, hz, hj.1, read_operand,
      hread, hadd zs hproper hlen hvalue, Store.set_of_ne _ hrz, hwrite]
    simp only [Nat.digits_zero, List.length_nil, Nat.zero_add, Mpz.of_s]
    rw [Store.set_comm _ hrz, Store.set_set]
    rfl

/-- What is left of a result whose words were overwritten by those of a difference. -/
theorem write_normalize {n : ℕ} {ws : List ℕ} (hproper : Proper base ws)
    (hlen : ws.length = (Nat.digits base n).length) (s : Bool) (k : ℕ) :
    ∃ res, (Mpz.of n s k).write 0 ws = .ok res ∧ ∃ i c,
      (0 < n → c = (s && Nat.ofDigits base ws ≠ 0)) ∧
      (Nat.digits base (Nat.ofDigits base ws)).length + i = (Nat.digits base n).length + k ∧
      Mpz.normalize { res with l := ws.length } = Mpz.of (Nat.ofDigits base ws) c i := by
  refine ⟨_, Mpz.write_of s hlen.ge (by omega), ?_⟩
  rcases eq_or_ne (ws ++ List.replicate ((Nat.digits base n).length + k - ws.length) 0) []
    with hempty | hne
  · -- there is no word, and nothing is done
    have hws := (List.append_eq_nil_iff.mp hempty).1
    have hn : n = 0 := digits_length_eq_zero.mp (by rw [← hlen, hws, List.length_nil])
    have hk : k = 0 := by
      have hlength := congrArg List.length hempty
      rw [List.length_append, List.length_replicate, List.length_nil] at hlength
      omega
    refine ⟨0, s, fun hpos => absurd hn hpos.ne', ?_, ?_⟩
    · rw [hws, hn, hk, Nat.ofDigits_nil]
    · rw [hempty, hws, Mpz.normalize, if_pos rfl, Nat.ofDigits_nil, Mpz.of_zero]
      rfl
  · have hall := proper_append.mpr ⟨hproper, proper_replicate_zero (b := base) base_pos
      ((Nat.digits base n).length + k - ws.length)⟩
    obtain ⟨i, hlength, hi⟩ := Mpz.normalize_eq hall hne ws.length s
    rw [Nat.ofDigits_append_replicate_zero] at hi hlength
    refine ⟨i, _, fun _ => rfl, ?_, hi⟩
    rw [hlength, List.length_append, List.length_replicate]
    omega

/-- The words of a difference are written over those of the larger number, and normalized. -/
theorem write_sub {m n : ℕ} (hle : m ≤ n) (s : Bool) (k : ℕ) :
    max (Nat.digits base n).length (Nat.digits base m).length = (Nat.digits base n).length ∧
      ∃ res, (Mpz.of n s k).write 0 (Limbs.sub base (Nat.digits base n) (Nat.digits base m)) =
        .ok res ∧ ∃ i c, (0 < n → c = (s && n - m ≠ 0)) ∧
          (Nat.digits base (n - m)).length + i = (Nat.digits base n).length + k ∧
          Mpz.normalize
            { res with l := (Limbs.sub base (Nat.digits base n) (Nat.digits base m)).length } =
              Mpz.of (n - m) c i := by
  have hlen : (Nat.digits base m).length ≤ (Nat.digits base n).length :=
    Nat.le_length_digits_le base _ _ hle
  obtain ⟨hproper, hsize, hvalue⟩ := sub_spec (proper_digits one_lt_base n)
    (proper_digits one_lt_base m) one_lt_base hlen
    (by rwa [Nat.ofDigits_digits, Nat.ofDigits_digits])
  rw [Nat.ofDigits_digits, Nat.ofDigits_digits] at hvalue
  have hnormalize := write_normalize hproper hsize s k
  rw [hvalue] at hnormalize
  exact ⟨max_eq_left hlen, hnormalize⟩

/-- **`mpz_subi_raw` subtracts the magnitudes.** -/
theorem mpzSubiRaw_eq {r z : Ptr} {st : Store} (hr : (st r).Shape) {n : ℕ} {s : Bool} {k : ℕ}
    (hz : st z = Mpz.of n s k) {m : ℕ} (hle : m ≤ n) (s' : Bool) (k' : ℕ) :
    ∃ i c, (0 < n → c = (s && n - m ≠ 0)) ∧
      (r = z → (Nat.digits base (n - m)).length + i = (Nat.digits base n).length + k) ∧
      mpzSubiRaw r z (Mpz.of m s' k').d (Nat.digits base m).length st =
        .ok (st.set r (Mpz.of (n - m) c i)) := by
  -- in both cases the result is a copy of the first operand at first
  obtain ⟨j, hcopy, hj, kz, hkz⟩ := mpzSetOther_eq hr hz
  obtain ⟨hmax, res, hwrite, i, c, hc, hlength, hnormalize⟩ := write_sub hle s j
  refine ⟨i, c, hc, fun hrz => by rw [hlength, hj hrz], ?_⟩
  rw [mpzSubiRaw, hz, Mpz.of_l, hmax, hcopy]
  simp only [bind, Except.bind, read_operand, hkz, Mpz.read_of_self, Store.set_self, hwrite,
    hnormalize, Store.set_set]
  rfl

/-! ### The signs -/

variable {r a b : Ptr} {st : Store}

@[simp]
theorem Store.setSign_of (st : Store) (p : Ptr) (n : ℕ) (s s' : Bool) (k : ℕ) :
    (st.set p (Mpz.of n s k)).setSign p s' = st.set p (Mpz.of n s' k) := by
  rw [Store.setSign, Store.set_self, Store.set_set]
  rfl

theorem Store.setSign_of_ne (st : Store) {p p' : Ptr} (h : p' ≠ p) (s : Bool) :
    (st.setSign p s) p' = st p' := Store.set_of_ne st h _

theorem Mpz.Shape.setSign {x : Mpz} (h : x.Shape) (s : Bool) : ({ x with s := s } : Mpz).Shape :=
  ⟨h.le, h.lt, h.top, h.stale⟩

theorem mpzAddabs_eq (hr : (st r).Shape) {m n : ℕ} {s s' : Bool} {k k' : ℕ}
    (ha : st a = Mpz.of m s k) (hb : st b = Mpz.of n s' k') :
    ∃ j i, mpzAddabs r a b st =
      .ok ((st.set a (Mpz.of m s (k + j))).set r (Mpz.of (n + m) s i)) := by
  obtain ⟨j, i, hadd⟩ := mpzAddiRaw_eq hr ha n s' k'
  refine ⟨j, i, ?_⟩
  have hsign : (((st.set a (Mpz.of m s (k + j))).set r (Mpz.of (n + m) (st r).s i)) a).s = s := by
    by_cases har : a = r
    · subst har
      rw [Store.set_self, Mpz.of_s, ha, Mpz.of_s]
    · rw [Store.set_of_ne _ har, Store.set_self, Mpz.of_s]
  rw [mpzAddabs, hb, Mpz.of_l, hadd]
  simp only [bind, Except.bind, hsign, Store.setSign_of]
  rfl

theorem mpzSubabs_eq (hr : (st r).Shape) {m n : ℕ} {s s' : Bool} {k k' : ℕ}
    (ha : st a = Mpz.of m s k) (hb : st b = Mpz.of n s' k') (c c' : Bool) :
    ∃ i, mpzSubabs r a b (compare m n) c c' st =
      .ok (st.set r (if n ≤ m then Mpz.of (m - n) (c && m - n ≠ 0) i
        else Mpz.of (n - m) (c' && n - m ≠ 0) i)) := by
  rw [mpzSubabs]
  by_cases hle : n ≤ m
  · obtain ⟨i, e, -, -, hsub⟩ := mpzSubiRaw_eq hr ha hle s' k'
    have hge : (compare m n).isGE := by
      rwa [Nat.isGE_compare]
    refine ⟨i, ?_⟩
    rw [if_pos hge, if_pos hle, hb, Mpz.of_l, hsub]
    simp only [bind, Except.bind, Store.setSign_of, Store.set_self, Mpz.of_l, ne_eq,
      digits_length_eq_zero]
    rfl
  · obtain ⟨i, e, -, -, hsub⟩ := mpzSubiRaw_eq hr hb (Nat.le_of_not_le hle) s k
    have hge : ¬(compare m n).isGE := by
      rwa [Nat.isGE_compare]
    refine ⟨i, ?_⟩
    rw [if_neg hge, if_neg hle, ha, Mpz.of_l, hsub]
    simp only [bind, Except.bind, Store.setSign_of, Store.set_self, Mpz.of_l, ne_eq,
      digits_length_eq_zero]
    rfl

/-- A result is a number, and the other objects are what they were. -/
structure Computes (r : Ptr) (v : ℤ) (st st' : Store) : Prop where
  canonical : (st' r).Canonical
  value : (st' r).value = v
  pads : ∀ p, p ≠ r → (st p).Pads (st' p)

theorem computes_of {n : ℕ} {s : Bool} (hsign : n = 0 → s = false) (i : ℕ) {v : ℤ}
    (hv : (if s then -(n : ℤ) else n) = v) : Computes r v st (st.set r (Mpz.of n s i)) where
  canonical := by
    rw [Store.set_self]
    exact Mpz.canonical_of hsign i
  value := by rw [Store.set_self, Mpz.of_value, hv]
  pads p hp := by
    rw [Store.set_of_ne _ hp]
    exact Mpz.Pads.refl _

theorem Computes.of_set {v : ℤ} {p : Ptr} {st' : Store} {z : Mpz} (hpads : (st p).Pads z)
    (h : Computes r v (st.set p z) st') : Computes r v st st' where
  canonical := h.canonical
  value := h.value
  pads q hq := by
    have hset := h.pads q hq
    by_cases hqp : q = p
    · subst hqp
      rw [Store.set_self] at hset
      exact hpads.trans hset
    · rwa [Store.set_of_ne _ hqp] at hset

theorem mpzAddabs_computes (hr : (st r).Shape) {m n : ℕ} {s s' : Bool} {k k' : ℕ}
    (ha : st a = Mpz.of m s k) (hb : st b = Mpz.of n s' k') (hsign : n + m = 0 → s = false) {v : ℤ}
    (hv : (if s then -((n + m : ℕ) : ℤ) else (n + m : ℕ)) = v) :
    ∃ st', mpzAddabs r a b st = .ok st' ∧ Computes r v st st' := by
  obtain ⟨j, i, hadd⟩ := mpzAddabs_eq hr ha hb
  refine ⟨_, hadd, Computes.of_set ?_ (computes_of hsign i hv)⟩
  rw [ha]
  exact Mpz.pads_of m s k j

theorem mpzSubabs_computes (hr : (st r).Shape) {m n : ℕ} {s s' : Bool} {k k' : ℕ}
    (ha : st a = Mpz.of m s k) (hb : st b = Mpz.of n s' k') (c : Bool) {v : ℤ}
    (hv : (if c then (n : ℤ) - m else (m : ℤ) - n) = v) :
    ∃ st', mpzSubabs r a b (compare m n) c (!c) st = .ok st' ∧ Computes r v st st' := by
  obtain ⟨i, hsub⟩ := mpzSubabs_eq hr ha hb c (!c)
  refine ⟨_, hsub, ?_⟩
  split_ifs with hle
  · refine computes_of (fun hzero => by simp [hzero]) i ?_
    cases c with
    | false => simpa [hle] using hv
    | true =>
      by_cases hzero : m - n = 0
      · have heq : m = n := by omega
        subst heq
        simpa using hv
      · simp only [hzero, ne_eq, not_false_eq_true, decide_true, Bool.and_self, if_true] at hv ⊢
        omega
  · have hzero : n - m ≠ 0 := by omega
    refine computes_of (fun hcon => absurd hcon hzero) i ?_
    cases c with
    | false => simp [hzero] at hv ⊢; omega
    | true => simp at hv ⊢; omega

/-- **`mpz_add` adds.** The first operand may be a negative zero. -/
theorem mpzAdd_computes (hr : (st r).Shape) (ha : (st a).Shape) (hb : (st b).Canonical) :
    ∃ st', mpzAdd r a b st = .ok st' ∧ Computes r ((st a).value + (st b).value) st st' := by
  obtain ⟨m, s, k, ha⟩ := ha.exists_of
  obtain ⟨n, s', k', hb, hsign⟩ := hb.exists_of
  rw [mpzAdd, ha, hb, mpzCmpabs_of, Mpz.of_value, Mpz.of_value]
  cases s with
  | false =>
    cases s' with
    | false => exact mpzAddabs_computes hr ha hb (fun _ => rfl) (by simp; ring)
    | true => exact mpzSubabs_computes hr ha hb false (by simp; ring)
  | true =>
    cases s' with
    | false => exact mpzSubabs_computes hr ha hb true (by simp; ring)
    | true =>
      -- the second operand is not zero, and neither is the sum
      refine mpzAddabs_computes hr ha hb (fun hzero => ?_) (by simp)
      exact hsign (Nat.add_eq_zero_iff.mp hzero).1

/-- **`mpz_sub` subtracts.** -/
theorem mpzSub_computes (hr : (st r).Shape) (ha : (st a).Canonical) (hb : (st b).Canonical) :
    ∃ st', mpzSub r a b st = .ok st' ∧ Computes r ((st a).value - (st b).value) st st' := by
  obtain ⟨m, s, k, ha, hsign⟩ := ha.exists_of
  obtain ⟨n, s', k', hb, -⟩ := hb.exists_of
  rw [mpzSub, ha, hb, mpzCmpabs_of, Mpz.of_value, Mpz.of_value]
  cases s with
  | false =>
    cases s' with
    | false => exact mpzSubabs_computes hr ha hb false (by simp)
    | true => exact mpzAddabs_computes hr ha hb (fun _ => rfl) (by simp; ring)
  | true =>
    cases s' with
    | false =>
      refine mpzAddabs_computes hr ha hb (fun hzero => ?_) (by simp; ring)
      exact hsign (Nat.add_eq_zero_iff.mp hzero).2
    | true => exact mpzSubabs_computes hr ha hb true (by simp; ring)

/-- **Addition and subtraction are exact**, whichever of the objects are the same: nothing
outside the allocated words is accessed, the result is canonical, and the other objects keep
their values. -/
theorem add_sub_exact (ha : (st a).Canonical) (hb : (st b).Canonical) (hr : (st r).Shape) :
    (∃ st', mpzAdd r a b st = .ok st' ∧ (st' r).Canonical ∧
      (st' r).value = (st a).value + (st b).value ∧
      (∀ p, p ≠ r → (st p).Canonical → (st' p).Canonical ∧ (st' p).value = (st p).value)) ∧
    (∃ st', mpzSub r a b st = .ok st' ∧ (st' r).Canonical ∧
      (st' r).value = (st a).value - (st b).value ∧
      (∀ p, p ≠ r → (st p).Canonical → (st' p).Canonical ∧ (st' p).value = (st p).value)) := by
  constructor
  · obtain ⟨st', hadd, hcomputes⟩ := mpzAdd_computes hr ha.toShape hb
    exact ⟨st', hadd, hcomputes.canonical, hcomputes.value,
      fun p hp hcanonical => hcanonical.pads (hcomputes.pads p hp)⟩
  · obtain ⟨st', hsub, hcomputes⟩ := mpzSub_computes hr ha hb
    exact ⟨st', hsub, hcomputes.canonical, hcomputes.value,
      fun p hp hcanonical => hcanonical.pads (hcomputes.pads p hp)⟩

/-- One object that holds a number of two words and is doubled, and set to zero. -/
theorem add_sub_exact_self :
    (∃ st', mpzAdd (.obj 0) (.obj 0) (.obj 0) (fun _ => Mpz.of (2 ^ 40) true 0) = .ok st' ∧
      (st' (.obj 0)).value = -2 ^ 41) ∧
    ∃ st', mpzSub (.obj 0) (.obj 0) (.obj 0) (fun _ => Mpz.of (2 ^ 40) true 0) = .ok st' ∧
      (st' (.obj 0)).value = 0 := by
  have hcanonical : (Mpz.of (2 ^ 40) true 0).Canonical :=
    Mpz.canonical_of (fun hzero => absurd hzero (by decide)) 0
  obtain ⟨⟨st', hadd, -, hvalue, -⟩, ⟨st'', hsub, -, hvalue', -⟩⟩ :=
    @add_sub_exact (.obj 0) (.obj 0) (.obj 0) (fun _ => Mpz.of (2 ^ 40) true 0) hcanonical
      hcanonical hcanonical.toShape
  refine ⟨⟨st', hadd, hvalue.trans ?_⟩, ⟨st'', hsub, hvalue'.trans ?_⟩⟩
  · rw [Mpz.of_value]
    rfl
  · rw [Mpz.of_value]
    rfl

end StyxWire.Sbn
