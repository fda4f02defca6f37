import StyxWire.Sbn.LongDivision

/-!
# Truncated division

What `mpz_tdiv_qr`, `mpz_tdiv_r` and `mpz_tdiv_q` leave, and when it is the quotient and the
remainder of truncated division (`StyxWire.Sbn.tdiv_exact_iff`). There are four ways in which
it is not:

* where the magnitudes are the same and the signs are not, the quotient is one, and not minus
  one;
* where the dividend is the less and is the object of the remainder, `mpz_set` clears it before
  it copies it (`mpz_tdiv_r` looks whether it is the same object);
* the sign of the remainder of a negative number is lost where the highest bits, as a number,
  are divided by the divisor;
* where the dividend has more bits than an `int` counts, they are not all read.
-/

namespace StyxWire.Sbn

open Limbs

/-! ### What is left -/

/-- The pointer is not one of those of the division. -/
structure Ptr.Free (p : Ptr) : Prop where
  cloneZ : p ≠ .cloneZ
  cloneD : p ≠ .cloneD
  mpzSet : p ≠ .mpzSet

theorem Ptr.free_obj (n : ℕ) : (Ptr.obj n).Free := ⟨nofun, nofun, nofun⟩

/-- Nothing is changed but the results and the objects of the division. -/
def Frame (results : List Ptr) (st st' : Store) : Prop :=
  ∀ p : Ptr, p.Free → p ∉ results → st' p = st p

/-- A copy is made of an object that is a result. -/
theorem Store.clone_spec (st : Store) {p copy : Ptr} {results : List Ptr}
    (hcopy : copy ∉ results) :
    (st.clone p copy results).2 (st.clone p copy results).1 = st p ∧
      (st.clone p copy results).1 ∉ results ∧
      ((st.clone p copy results).1 = p ∨ (st.clone p copy results).1 = copy) ∧
      ∀ p', p' ≠ copy → (st.clone p copy results).2 p' = st p' := by
  rw [Store.clone]
  split_ifs with h
  · exact ⟨Store.set_self _ _ _, hcopy, Or.inr rfl, fun p' hp' => Store.set_of_ne _ hp' _⟩
  · exact ⟨rfl, h, Or.inl rfl, fun _ _ => rfl⟩

variable {q r z d : Ptr} {st : Store} {m n : ℕ} {zs ds : Bool} {i j : ℕ}

/-- Objects with different magnitudes are different. -/
theorem ne_of_mag (hz : st z = Mpz.of m zs i) (hd : st d = Mpz.of n ds j) (hmn : m ≠ n) :
    z ≠ d := by
  rintro rfl
  have hmag := congrArg Mpz.mag (hz.symm.trans hd)
  rw [Mpz.of_mag, Mpz.of_mag] at hmag
  exact hmn hmag

theorem mpzTdivQr_zero (hd : st d = Mpz.of 0 ds j) : mpzTdivQr q r z d st = .error .inval := by
  rw [mpzTdivQr, hd, if_pos (by rw [Mpz.of_l, Nat.digits_zero, List.length_nil])]

theorem mpzTdivR_zero (hd : st d = Mpz.of 0 ds j) : mpzTdivR r z d st = .error .inval := by
  rw [mpzTdivR, hd, if_pos (by rw [Mpz.of_l, Nat.digits_zero, List.length_nil])]

/-- A quotient of one, and no remainder. -/
theorem quotient_one (hq : q.Free) (hqr : q ≠ r) (hqshape : (st q).Shape)
    (hrshape : (st r).Shape) (hr : r.Free) :
    ∃ st', (mpzSetUi q 1 st >>= mpzSetzero r) = .ok st' ∧ (∃ k, st' q = Mpz.of 1 false k) ∧
      (∃ k, st' r = Mpz.of 0 false k) ∧ Frame [q, r] st st' := by
  obtain ⟨k, -, hset⟩ := mpzSetUi_eq hq.mpzSet hqshape one_lt_base
  set st₁ := (st.set .mpzSet (Mpz.of 1 false 0)).set q (Mpz.of 1 false k) with hst₁
  have hr₁ : st₁ r = st r := by
    rw [hst₁, Store.set_of_ne _ hqr.symm, Store.set_of_ne _ hr.mpzSet]
  have hrshape₁ : (st₁ r).Shape := hr₁ ▸ hrshape
  obtain ⟨k', -, hzero⟩ := mpzSetzero_eq hrshape₁
  refine ⟨_, by rw [hset]; exact hzero, ⟨k, ?_⟩, ⟨k', Store.set_self _ _ _⟩, fun p hp hpr => ?_⟩
  · rw [Store.set_of_ne _ hqr, hst₁, Store.set_self]
  · rw [List.mem_cons, List.mem_singleton, not_or] at hpr
    rw [Store.set_of_ne _ hpr.2, hst₁, Store.set_of_ne _ hpr.1, Store.set_of_ne _ hp.mpzSet]

/-- The same object, or the same magnitude. -/
theorem mpzTdivQr_eq (hq : q.Free) (hr : r.Free) (hqr : q ≠ r) (hqshape : (st q).Shape)
    (hrshape : (st r).Shape) (hn : n ≠ 0) (hz : st z = Mpz.of n zs i) (hd : st d = Mpz.of n ds j) :
    ∃ st', mpzTdivQr q r z d st = .ok st' ∧ (∃ k, st' q = Mpz.of 1 false k) ∧
      (∃ k, st' r = Mpz.of 0 false k) ∧ Frame [q, r] st st' := by
  have hl : (st d).l ≠ 0 := by rw [hd, Mpz.of_l]; exact digits_length_eq_zero.not.mpr hn
  have hcmp : mpzCmpabs (st z) (st d) = .ok .eq := by
    rw [hz, hd, mpzCmpabs_of, Nat.compare_eq_eq.mpr rfl]
  obtain ⟨st', hone, hst'⟩ := quotient_one hq hqr hqshape hrshape hr
  refine ⟨st', ?_, hst'⟩
  rw [mpzTdivQr, if_neg hl, hcmp]
  split_ifs
  · exact hone
  · exact hone

/-- A dividend that is less: it is lost if it is the object of the remainder. -/
theorem mpzTdivQr_lt (hqr : q ≠ r) (hqshape : (st q).Shape) (hrshape : (st r).Shape)
    (hmn : m < n) (hz : st z = Mpz.of m zs i) (hd : st d = Mpz.of n ds j) :
    ∃ st', mpzTdivQr q r z d st = .ok st' ∧ (∃ k, st' q = Mpz.of 0 false k) ∧
      (∃ k, st' r = Mpz.of (if r = z then 0 else m) zs k) ∧ Frame [q, r] st st' := by
  have hl : (st d).l ≠ 0 := by
    rw [hd, Mpz.of_l]
    exact digits_length_eq_zero.not.mpr (Nat.ne_zero_of_lt hmn)
  have hzd : z ≠ d := ne_of_mag hz hd hmn.ne
  have hcmp : mpzCmpabs (st z) (st d) = .ok .lt := by
    rw [hz, hd, mpzCmpabs_of, Nat.compare_eq_lt.mpr hmn]
  obtain ⟨k, hset⟩ : ∃ k, mpzSet r z st =
      .ok (st.set r (Mpz.of (if r = z then 0 else m) zs k)) := by
    split_ifs with hrz
    · subst hrz
      exact mpzSet_self hz
    · obtain ⟨k, -, hset⟩ := mpzSet_eq hrz hrshape hz
      exact ⟨k, hset⟩
  have hqshape' : ((st.set r (Mpz.of (if r = z then 0 else m) zs k)) q).Shape := by
    rwa [Store.set_of_ne _ hqr]
  obtain ⟨k', -, hzero⟩ := mpzSetzero_eq hqshape'
  refine ⟨_, ?_, ⟨k', Store.set_self
    (st.set r (Mpz.of (if r = z then 0 else m) zs k)) q (Mpz.of 0 false k')⟩, ⟨k, ?_⟩,
    fun p _ hpr => ?_⟩
  · rw [mpzTdivQr, if_neg hl, if_neg hzd, hcmp]
    simp only [bind, Except.bind, hset]
    exact hzero
  · rw [Store.set_of_ne _ hqr.symm, Store.set_self]
  · rw [List.mem_cons, List.mem_singleton, not_or] at hpr
    rw [Store.set_of_ne _ hpr.1, Store.set_of_ne _ hpr.2]

/-- Copies are made of the dividend and of the divisor, if they are results. -/
theorem Store.clones_spec (st : Store) (hz : z.Free) (hd : d.Free) {results : List Ptr}
    (hresults : ∀ p ∈ results, p.Free) :
    ∃ z' d' st₁ st', st.clone z .cloneZ results = (z', st₁) ∧
      st₁.clone d .cloneD results = (d', st') ∧ z' ∉ results ∧ d' ∉ results ∧ st' z' = st z ∧
      st' d' = st d ∧ ∀ p : Ptr, p.Free → st' p = st p := by
  have hcloneZ : Ptr.cloneZ ∉ results := fun hmem => (hresults _ hmem).cloneZ rfl
  have hcloneD : Ptr.cloneD ∉ results := fun hmem => (hresults _ hmem).cloneD rfl
  obtain ⟨hz₁, hz₁mem, hz₁or, hst₁⟩ := st.clone_spec (p := z) hcloneZ
  generalize hclone : st.clone z .cloneZ results = z₁ at hz₁ hz₁mem hz₁or hst₁
  obtain ⟨z', st₁⟩ := z₁
  obtain ⟨hd₂, hd₂mem, -, hst₂⟩ := st₁.clone_spec (p := d) hcloneD
  generalize hclone' : st₁.clone d .cloneD results = d₂ at hd₂ hd₂mem hst₂
  obtain ⟨d', st₂⟩ := d₂
  dsimp only at hz₁ hz₁mem hz₁or hst₁ hd₂ hd₂mem hst₂
  have hne : z' ≠ .cloneD := by
    rcases hz₁or with rfl | rfl
    · exact hz.cloneD
    · exact nofun
  refine ⟨z', d', st₁, st₂, rfl, hclone', hz₁mem, hd₂mem, ?_, ?_, fun p hp => ?_⟩
  · rw [hst₂ z' hne, hz₁]
  · rw [hd₂, hst₁ d hd.cloneZ]
  · rw [hst₂ p hp.cloneD, hst₁ p hp.cloneZ]

/-- A dividend that is greater. -/
theorem mpzTdivQr_gt (hq : q.Free) (hr : r.Free) (hzfree : z.Free) (hdfree : d.Free) (hqr : q ≠ r)
    (hqshape : (st q).Shape) (hrshape : (st r).Shape) (hn : 0 < n) (hmn : n < m)
    (hz : st z = Mpz.of m zs i) (hd : st d = Mpz.of n ds j) {m' : ℕ}
    (hm' : m' = m % 2 ^ readBits m) :
    ∃ st', mpzTdivQr q r z d st = .ok st' ∧ (∃ k, st' q = Mpz.of (m' / n) (zs ^^ ds) k) ∧
      (∃ c k, st' r = Mpz.of (m' % n) c k ∧
        (c = true ↔ zs = true ∧ ∀ k, 0 < m' / 2 ^ k → ¬n ∣ m' / 2 ^ k)) ∧
      Frame [q, r] st st' := by
  have hl : (st d).l ≠ 0 := by rw [hd, Mpz.of_l]; exact digits_length_eq_zero.not.mpr hn.ne'
  have hcmp : mpzCmpabs (st z) (st d) = .ok .gt := by
    rw [hz, hd, mpzCmpabs_of, Nat.compare_eq_gt.mpr hmn]
  obtain ⟨z', d', st₁, st₂, hclone, hclone', hz'mem, hd'mem, hz', hd', hst₂⟩ :=
    st.clones_spec hzfree hdfree (show ∀ p ∈ [q, r], p.Free by simp [hq, hr])
  rw [List.mem_cons, List.mem_singleton, not_or] at hz'mem hd'mem
  set st₃ := (st₂.setSign q (zs ^^ ds)).setSign r zs with hst₃
  have hq₃ : st₃ q = { st q with s := zs ^^ ds } := by
    rw [hst₃, Store.setSign_of_ne _ hqr, Store.setSign, Store.set_self, hst₂ q hq]
  have hr₃ : st₃ r = { st r with s := zs } := by
    rw [hst₃, Store.setSign, Store.set_self, Store.setSign_of_ne _ hqr.symm, hst₂ r hr]
  have hz₃ : st₃ z' = Mpz.of m zs i := by
    rw [hst₃, Store.setSign_of_ne _ hz'mem.2, Store.setSign_of_ne _ hz'mem.1, hz', hz]
  have hd₃ : st₃ d' = Mpz.of n ds j := by
    rw [hst₃, Store.setSign_of_ne _ hd'mem.2, Store.setSign_of_ne _ hd'mem.1, hd', hd]
  have hrshape₃ : (st₃ r).Shape := hr₃ ▸ hrshape.setSign zs
  have hqshape₃ : ∀ p, some q = some p → (st₃ p).Shape :=
    fun p hp => Option.some.inj hp ▸ hq₃ ▸ hqshape.setSign _
  obtain ⟨st', hraw, hrem, hquot, hother⟩ := mpzDiviRaw_spec hn hmn.le
    (fun p hp => Option.some.inj hp ▸ hqr) hz'mem.2
    (fun hcon => hz'mem.1 (Option.some.inj hcon).symm) hz₃ hrshape₃ hqshape₃ ds j hm'
  refine ⟨st', ?_, ?_, ?_, fun p hp hpr => ?_⟩
  · rw [mpzTdivQr, if_neg hl, if_neg (ne_of_mag hz hd hmn.ne'), hcmp]
    simp only [bind, Except.bind, hclone, hclone', hz', hd', hz, hd, Mpz.of_s,
      Store.setSign_of_ne _ hz'mem.1, ← hst₃, hd₃, Mpz.of_l]
    exact hraw
  · obtain ⟨k, hk⟩ := hquot q rfl
    rw [hq₃] at hk
    exact ⟨k, hk⟩
  · rw [hr₃] at hrem
    exact hrem
  · rw [List.mem_cons, List.mem_singleton, not_or] at hpr
    rw [hother p hpr.2 fun hcon => hpr.1 (Option.some.inj hcon).symm, hst₃,
      Store.setSign_of_ne _ hpr.2, Store.setSign_of_ne _ hpr.1, hst₂ p hp]

/-! ### The remainder alone -/

/-- The same object, or the same magnitude. -/
theorem mpzTdivR_eq (hrshape : (st r).Shape) (hn : n ≠ 0) (hz : st z = Mpz.of n zs i)
    (hd : st d = Mpz.of n ds j) :
    ∃ st', mpzTdivR r z d st = .ok st' ∧ (∃ k, st' r = Mpz.of 0 false k) ∧ Frame [r] st st' := by
  have hl : (st d).l ≠ 0 := by rw [hd, Mpz.of_l]; exact digits_length_eq_zero.not.mpr hn
  have hcmp : mpzCmpabs (st z) (st d) = .ok .eq := by
    rw [hz, hd, mpzCmpabs_of, Nat.compare_eq_eq.mpr rfl]
  obtain ⟨k, -, hzero⟩ := mpzSetzero_eq hrshape
  refine ⟨_, ?_, ⟨k, Store.set_self st r (Mpz.of 0 false k)⟩, fun p _ hpr => ?_⟩
  · rw [mpzTdivR, if_neg hl, hcmp]
    split_ifs
    · exact hzero
    · exact hzero
  · rw [List.mem_singleton] at hpr
    rw [Store.set_of_ne _ hpr]

/-- A dividend that is less. -/
theorem mpzTdivR_lt (hrshape : (st r).Shape) (hmn : m < n) (hz : st z = Mpz.of m zs i)
    (hd : st d = Mpz.of n ds j) :
    ∃ st', mpzTdivR r z d st = .ok st' ∧ (∃ k, st' r = Mpz.of m zs k) ∧ Frame [r] st st' := by
  have hl : (st d).l ≠ 0 := by
    rw [hd, Mpz.of_l]
    exact digits_length_eq_zero.not.mpr (Nat.ne_zero_of_lt hmn)
  have hcmp : mpzCmpabs (st z) (st d) = .ok .lt := by
    rw [hz, hd, mpzCmpabs_of, Nat.compare_eq_lt.mpr hmn]
  obtain ⟨k, hset, -, -⟩ := mpzSetOther_eq hrshape hz
  refine ⟨_, ?_, ⟨k, Store.set_self st r (Mpz.of m zs k)⟩, fun p _ hpr => ?_⟩
  · rw [mpzTdivR, if_neg hl, if_neg (ne_of_mag hz hd hmn.ne), hcmp]
    exact hset
  · rw [List.mem_singleton] at hpr
    rw [Store.set_of_ne _ hpr]

/-- A dividend that is greater. -/
theorem mpzTdivR_gt (hr : r.Free) (hzfree : z.Free) (hdfree : d.Free) (hrshape : (st r).Shape)
    (hn : 0 < n) (hmn : n < m) (hz : st z = Mpz.of m zs i) (hd : st d = Mpz.of n ds j) {m' : ℕ}
    (hm' : m' = m % 2 ^ readBits m) :
    ∃ st', mpzTdivR r z d st = .ok st' ∧
      (∃ c k, st' r = Mpz.of (m' % n) c k ∧
        (c = true ↔ zs = true ∧ ∀ k, 0 < m' / 2 ^ k → ¬n ∣ m' / 2 ^ k)) ∧
      Frame [r] st st' := by
  have hl : (st d).l ≠ 0 := by rw [hd, Mpz.of_l]; exact digits_length_eq_zero.not.mpr hn.ne'
  have hcmp : mpzCmpabs (st z) (st d) = .ok .gt := by
    rw [hz, hd, mpzCmpabs_of, Nat.compare_eq_gt.mpr hmn]
  obtain ⟨z', d', st₁, st₂, hclone, hclone', hz'mem, hd'mem, hz', hd', hst₂⟩ :=
    st.clones_spec hzfree hdfree (show ∀ p ∈ [r], p.Free by simp [hr])
  rw [List.mem_singleton] at hz'mem hd'mem
  have hr₃ : st₂.setSign r zs r = { st r with s := zs } := by
    rw [Store.setSign, Store.set_self, hst₂ r hr]
  have hz₃ : st₂.setSign r zs z' = Mpz.of m zs i := by
    rw [Store.setSign_of_ne _ hz'mem, hz', hz]
  have hd₃ : st₂.setSign r zs d' = Mpz.of n ds j := by
    rw [Store.setSign_of_ne _ hd'mem, hd', hd]
  have hrshape₃ : ((st₂.setSign r zs) r).Shape := hr₃ ▸ hrshape.setSign zs
  have hnone : ∀ p : Ptr, (none : Option Ptr) ≠ some p := fun p => (Option.some_ne_none p).symm
  obtain ⟨st', hraw, hrem, -, hother⟩ := mpzDiviRaw_spec hn hmn.le
    (fun p hp => absurd hp (hnone p)) hz'mem (hnone z') hz₃ hrshape₃
    (fun p hp => absurd hp (hnone p)) ds j hm'
  refine ⟨st', ?_, ?_, fun p hp hpr => ?_⟩
  · rw [mpzTdivR, if_neg hl, if_neg (ne_of_mag hz hd hmn.ne'), hcmp]
    simp only [bind, Except.bind, hclone, hclone', hz', hz, Mpz.of_s, hd₃, Mpz.of_l]
    exact hraw
  · rw [hr₃] at hrem
    exact hrem
  · rw [List.mem_singleton] at hpr
    rw [hother p hpr (hnone p), Store.setSign_of_ne _ hpr, hst₂ p hp]

/-! ### When they are exact -/

/-- The quotient and the remainder of truncated division. -/
structure Truncated (z d q r : ℤ) : Prop where
  eq : z = q * d + r
  lt : |r| < |d|
  sign : r = 0 ∨ r.sign = z.sign
  trunc : q = z.tdiv d

/-- Truncated division is as it should be: `mpz_tdiv_qr` refuses a divisor that is zero and no
other, it leaves the quotient and the remainder, `mpz_tdiv_r` leaves the same remainder and
`mpz_tdiv_q` the same quotient. -/
structure TdivExact (q r z d : Ptr) (st : Store) : Prop where
  inval : mpzTdivQr q r z d st = .error .inval ↔ (st d).value = 0
  exact : (st d).value ≠ 0 → ∃ st₁ st₂ st₃, mpzTdivQr q r z d st = .ok st₁ ∧
    mpzTdivR r z d st = .ok st₂ ∧ mpzTdivQ q z d st = .ok st₃ ∧
    Truncated (st z).value (st d).value (st₁ q).value (st₁ r).value ∧
    (st₂ r).value = (st₁ r).value ∧ (st₃ q).value = (st₁ q).value

/-- What it takes: numbers with one magnitude have one sign; a dividend that is less is not the
object of the remainder, or is zero; an `int` counts the bits of one that is greater, and if it
is negative and the divisor does not divide it, then the divisor divides no number that its
highest bits are. -/
structure TdivHolds (sameObject : Prop) (z d : ℤ) : Prop where
  eq : |z| = |d| → z = d
  lt : |z| < |d| → sameObject → z = 0
  bits : |d| < |z| → Nat.size z.natAbs ≤ 2 ^ 31
  sign : |d| < |z| → z < 0 → ¬d ∣ z → ∀ k, 0 < z.natAbs / 2 ^ k → ¬d.natAbs ∣ z.natAbs / 2 ^ k

theorem truncated_iff {z d q r : ℤ} (hd : d ≠ 0) :
    Truncated z d q r ↔ q = z.tdiv d ∧ r = z.tmod d := by
  constructor
  · intro h
    have hdm := Int.mul_tdiv_add_tmod z d
    have heq := h.eq
    rw [h.trunc] at heq
    exact ⟨h.trunc, by linarith [mul_comm d (z.tdiv d)]⟩
  · rintro ⟨rfl, rfl⟩
    refine ⟨?_, ?_, ?_, rfl⟩
    · rw [mul_comm, Int.mul_tdiv_add_tmod]
    · rw [Int.abs_eq_natAbs, Int.abs_eq_natAbs, Int.natAbs_tmod]
      exact_mod_cast Nat.mod_lt _ (Int.natAbs_pos.mpr hd)
    · by_cases hzero : z.tmod d = 0
      · exact Or.inl hzero
      · right
        rcases lt_trichotomy z 0 with hneg | rfl | hpos
        · have hle : 0 ≤ (-z).tmod d := Int.tmod_nonneg d (by omega)
          rw [Int.neg_tmod] at hle
          rw [Int.sign_eq_neg_one_of_neg hneg, Int.sign_eq_neg_one_of_neg (by omega)]
        · exact absurd (Int.zero_tmod d) hzero
        · have hle : 0 ≤ z.tmod d := Int.tmod_nonneg d hpos.le
          rw [Int.sign_eq_one_of_pos hpos, Int.sign_eq_one_of_pos (by omega)]

theorem Mpz.of_value_tdiv (m n : ℕ) (zs ds : Bool) (i j k : ℕ) :
    (Mpz.of (m / n) (zs ^^ ds) k).value = (Mpz.of m zs i).value.tdiv (Mpz.of n ds j).value := by
  simp only [of_value]
  cases zs <;> cases ds <;> simp [Int.neg_tdiv, Int.tdiv_neg]

theorem Mpz.of_value_tmod (m n : ℕ) (zs ds : Bool) (i j : ℕ) :
    (Mpz.of m zs i).value.tmod (Mpz.of n ds j).value =
      if zs then -((m % n : ℕ) : ℤ) else ((m % n : ℕ) : ℤ) := by
  rw [Int.ofNat_tmod]
  simp only [of_value]
  cases zs <;> cases ds <;> simp

/-- The quotient and the remainder with a divisor that is not zero: the quotient and the
remainder of the three functions are these. -/
theorem tdivExact_iff_of (hd : st d = Mpz.of n ds j) (hn : n ≠ 0) {st₁ st₂ st₃ : Store}
    (h₁ : mpzTdivQr q r z d st = .ok st₁) (h₂ : mpzTdivR r z d st = .ok st₂)
    (h₃ : mpzTdivQ q z d st = .ok st₃) :
    TdivExact q r z d st ↔
      (st₁ q).value = (st z).value.tdiv (st d).value ∧
        (st₁ r).value = (st z).value.tmod (st d).value ∧ (st₂ r).value = (st₁ r).value ∧
        (st₃ q).value = (st₁ q).value := by
  have hvalue : (st d).value ≠ 0 := by
    rw [hd]
    exact Mpz.of_value_eq_zero.not.mpr hn
  constructor
  · intro h
    obtain ⟨st₁', st₂', st₃', h₁', h₂', h₃', htrunc, hr, hq⟩ := h.exact hvalue
    rw [h₁] at h₁'
    rw [h₂] at h₂'
    rw [h₃] at h₃'
    cases h₁'
    cases h₂'
    cases h₃'
    obtain ⟨hquot, hrem⟩ := (truncated_iff hvalue).mp htrunc
    exact ⟨hquot, hrem, hr, hq⟩
  · rintro ⟨hquot, hrem, hr, hq⟩
    refine ⟨⟨fun hinval => ?_, fun hzero => absurd hzero hvalue⟩, fun _ => ?_⟩
    · rw [h₁] at hinval
      nomatch hinval
    · exact ⟨st₁, st₂, st₃, h₁, h₂, h₃, (truncated_iff hvalue).mpr ⟨hquot, hrem⟩, hr, hq⟩

/-- The pointers of a call: the objects of the caller. -/
structure Ptr.Outer (p : Ptr) : Prop extends p.Free where
  rem : p ≠ .rem

theorem Ptr.outer_obj (n : ℕ) : (Ptr.obj n).Outer := ⟨Ptr.free_obj n, nofun⟩

theorem Ptr.free_rem : Ptr.rem.Free := ⟨nofun, nofun, nofun⟩

/-- The store in which `mpz_tdiv_q` divides: its remainder is a local variable. -/
def Store.start (st : Store) : Store := st.set .rem Mpz.init

theorem Store.start_outer (st : Store) {p : Ptr} (hp : p ≠ .rem) : st.start p = st p :=
  Store.set_of_ne _ hp _

theorem Store.start_rem (st : Store) : (st.start .rem).Shape := by
  rw [start, set_self]
  exact Mpz.init_shape

variable (hq : q.Outer) (hr : r.Outer) (hzp : z.Outer) (hdp : d.Outer) (hqr : q ≠ r)
  (hqshape : (st q).Shape) (hrshape : (st r).Shape) (hz : st z = Mpz.of m zs i)
  (hd : st d = Mpz.of n ds j)

include hq hr hzp hdp hqr hqshape hrshape hz hd

theorem tdivExact_iff_eq (hn : n ≠ 0) (hmn : m = n) :
    TdivExact q r z d st ↔ (st z).value = (st d).value := by
  subst hmn
  obtain ⟨st₁, h₁, ⟨k₁, hq₁⟩, ⟨k₁', hr₁⟩, -⟩ :=
    mpzTdivQr_eq hq.toFree hr.toFree hqr hqshape hrshape hn hz hd
  obtain ⟨st₂, h₂, ⟨k₂, hr₂⟩, -⟩ := mpzTdivR_eq hrshape hn hz hd
  have hqshape' : (st.start q).Shape := st.start_outer hq.rem ▸ hqshape
  obtain ⟨st₃, h₃, ⟨k₃, hq₃⟩, -, -⟩ := mpzTdivQr_eq hq.toFree Ptr.free_rem hq.rem hqshape'
    st.start_rem hn ((st.start_outer hzp.rem).trans hz) ((st.start_outer hdp.rem).trans hd)
  rw [tdivExact_iff_of hd hn h₁ h₂ h₃, hq₁, hr₁, hr₂, hq₃, hz, hd, Mpz.of_value_tmod]
  simp only [Mpz.of_value]
  have hself : ((m : ℤ)).tdiv m = 1 := Int.tdiv_self (by omega)
  cases zs <;> cases ds <;> simp [hself] <;> omega

omit hr in
theorem tdivExact_iff_lt (hmn : m < n) : TdivExact q r z d st ↔ (r = z → (st z).value = 0) := by
  have hn : n ≠ 0 := Nat.ne_zero_of_lt hmn
  obtain ⟨st₁, h₁, ⟨k₁, hq₁⟩, ⟨k₁', hr₁⟩, -⟩ := mpzTdivQr_lt hqr hqshape hrshape hmn hz hd
  obtain ⟨st₂, h₂, ⟨k₂, hr₂⟩, -⟩ := mpzTdivR_lt hrshape hmn hz hd
  have hqshape' : (st.start q).Shape := st.start_outer hq.rem ▸ hqshape
  obtain ⟨st₃, h₃, ⟨k₃, hq₃⟩, -, -⟩ := mpzTdivQr_lt hq.rem hqshape' st.start_rem hmn
    ((st.start_outer hzp.rem).trans hz) ((st.start_outer hdp.rem).trans hd)
  have hquot : (Mpz.of 0 false k₁).value = (Mpz.of m zs i).value.tdiv (Mpz.of n ds j).value := by
    rw [← Mpz.of_value_tdiv m n zs ds i j k₁, Nat.div_eq_of_lt hmn, Mpz.of_value_eq_zero.mpr rfl,
      Mpz.of_value_eq_zero.mpr rfl]
  have hrem : (Mpz.of m zs i).value.tmod (Mpz.of n ds j).value = (Mpz.of m zs i).value := by
    rw [Mpz.of_value_tmod, Nat.mod_eq_of_lt hmn, Mpz.of_value]
  rw [tdivExact_iff_of hd hn h₁ h₂ h₃, hq₁, hr₁, hr₂, hq₃, hz, hd, hrem, hquot]
  by_cases hrz : r = z
  · rw [if_pos hrz, Mpz.of_value_eq_zero.mpr rfl]
    constructor
    · rintro ⟨-, hzero, -⟩ -
      exact hzero.symm
    · intro hzero
      have hm := Mpz.of_value_eq_zero.mp (hzero hrz)
      exact ⟨rfl, (hzero hrz).symm, Mpz.of_value_eq_zero.mpr hm, by rw [← hquot]; rfl⟩
  · rw [if_neg hrz]
    exact ⟨fun _ heq => absurd heq hrz, fun _ => ⟨rfl, by rw [Mpz.of_value, Mpz.of_value],
      by rw [Mpz.of_value, Mpz.of_value], by rw [← hquot]; rfl⟩⟩

theorem tdivExact_iff_gt (hn : 0 < n) (hmn : n < m) :
    TdivExact q r z d st ↔ Nat.size m ≤ 2 ^ 31 ∧
      (zs = true → ¬n ∣ m → ∀ k, 0 < m / 2 ^ k → ¬n ∣ m / 2 ^ k) := by
  obtain ⟨m', hm'⟩ : ∃ m', m' = m % 2 ^ readBits m := ⟨_, rfl⟩
  obtain ⟨st₁, h₁, ⟨k₁, hq₁⟩, ⟨c, k₁', hr₁, hc⟩, -⟩ := mpzTdivQr_gt hq.toFree hr.toFree hzp.toFree
    hdp.toFree hqr hqshape hrshape hn hmn hz hd hm'
  obtain ⟨st₂, h₂, ⟨c', k₂, hr₂, hc'⟩, -⟩ := mpzTdivR_gt hr.toFree hzp.toFree hdp.toFree hrshape hn
    hmn hz hd hm'
  have hqshape' : (st.start q).Shape := st.start_outer hq.rem ▸ hqshape
  obtain ⟨st₃, h₃, ⟨k₃, hq₃⟩, -, -⟩ := mpzTdivQr_gt hq.toFree Ptr.free_rem hzp.toFree hdp.toFree
    hq.rem hqshape' st.start_rem hn hmn ((st.start_outer hzp.rem).trans hz)
    ((st.start_outer hdp.rem).trans hd) hm'
  have hcc : c' = c := Bool.eq_iff_iff.mpr (hc'.trans hc.symm)
  rw [tdivExact_iff_of hd hn.ne' h₁ h₂ h₃, hq₁, hr₁, hr₂, hq₃, hz, hd, hcc]
  simp only [Mpz.of_value (k := k₂), Mpz.of_value (k := k₁'), Mpz.of_value (k := k₃),
    Mpz.of_value (k := k₁), and_true]
  constructor
  · rintro ⟨hquot, hrem⟩
    have hdiv : m' / n = m / n := by
      rw [← Mpz.of_value _ _ k₁, ← Mpz.of_value_tdiv m n zs ds i j k₁] at hquot
      simpa only [Mpz.of_value_natAbs] using congrArg Int.natAbs hquot
    have hmod : m' % n = m % n := by
      rw [Mpz.of_value_tmod, ← Mpz.of_value _ _ k₁', ← Mpz.of_value _ _ k₁'] at hrem
      simpa only [Mpz.of_value_natAbs] using congrArg Int.natAbs hrem
    have hmm : m' = m := by rw [← Nat.div_add_mod m' n, hdiv, hmod, Nat.div_add_mod]
    refine ⟨?_, fun hneg hdvd => ?_⟩
    · -- bits that are not read are missing in the quotient or in the remainder
      by_contra hsize
      have hread := readBits_lt (Nat.lt_of_not_le hsize)
      have hlt : m' < 2 ^ readBits m := hm' ▸ Nat.mod_lt m (Nat.two_pow_pos _)
      have hle : 2 ^ readBits m ≤ m := Nat.lt_size.mp hread
      omega
    · rw [Mpz.of_value_tmod, hneg, hmod] at hrem
      have hpos : 0 < m % n := Nat.pos_of_ne_zero fun hzero => hdvd (Nat.dvd_of_mod_eq_zero hzero)
      have hctrue : c = true := by
        cases c with
        | true => rfl
        | false => simp only [Bool.false_eq_true, if_false, if_true] at hrem; omega
      exact hmm ▸ (hc.mp hctrue).2
  · rintro ⟨hsize, hsign⟩
    have hmm : m' = m := by
      rw [hm', readBits_eq (by omega) hsize, Nat.mod_eq_of_lt (Nat.lt_size_self m)]
    rw [hmm] at hc ⊢
    refine ⟨(Mpz.of_value _ _ k₁).symm.trans (Mpz.of_value_tdiv m n zs ds i j k₁), ?_⟩
    rw [Mpz.of_value_tmod]
    rcases Nat.eq_zero_or_pos (m % n) with hzero | hpos
    · rw [hzero]
      simp
    · have hdvd : ¬n ∣ m := fun hdvd => hpos.ne' (Nat.mod_eq_zero_of_dvd hdvd)
      have hcz : c = zs := by
        rw [Bool.eq_iff_iff, hc]
        exact ⟨And.left, fun hneg => ⟨hneg, hsign hneg hdvd⟩⟩
      rw [hcz]

omit hq hr hzp hdp hqr hqshape hrshape hz hd

/-- **Truncated division is exact in these cases and no others**: there is a divisor that is not
zero, and then the numbers are as `StyxWire.Sbn.TdivHolds` says. -/
theorem tdiv_exact_iff {q r z d : ℕ} (hqr : q ≠ r) (hz : (st (.obj z)).Canonical)
    (hd : (st (.obj d)).Canonical) (hq : (st (.obj q)).Shape) (hr : (st (.obj r)).Shape) :
    TdivExact (.obj q) (.obj r) (.obj z) (.obj d) st ↔
      ((st (.obj d)).value ≠ 0 →
        TdivHolds (r = z) (st (.obj z)).value (st (.obj d)).value) := by
  obtain ⟨m, zs, i, hz', -⟩ := hz.exists_of
  obtain ⟨n, ds, j, hd', -⟩ := hd.exists_of
  have hqr' : Ptr.obj q ≠ Ptr.obj r := fun heq => hqr (Ptr.obj.inj heq)
  have habs : |(st (.obj z)).value| = m ∧ |(st (.obj d)).value| = n := by
    rw [hz', hd', Int.abs_eq_natAbs, Int.abs_eq_natAbs, Mpz.of_value_natAbs, Mpz.of_value_natAbs]
    exact ⟨rfl, rfl⟩
  have hneg : zs = true ∧ m ≠ 0 ↔ (st (.obj z)).value < 0 := by
    rw [hz', Mpz.of_value]
    cases zs <;> simp
  have hdvd : (st (.obj d)).value ∣ (st (.obj z)).value ↔ n ∣ m := by
    rw [hz', hd', ← Int.natAbs_dvd_natAbs, Mpz.of_value_natAbs, Mpz.of_value_natAbs]
  have hnatz : (st (.obj z)).value.natAbs = m := by rw [hz', Mpz.of_value_natAbs]
  have hnatd : (st (.obj d)).value.natAbs = n := by rw [hd', Mpz.of_value_natAbs]
  rcases Nat.eq_zero_or_pos n with rfl | hn
  · -- the divisor is zero, and it is refused
    have hzero : (st (.obj d)).value = 0 := by rw [hd']; exact Mpz.of_value_eq_zero.mpr rfl
    exact ⟨fun _ hne => absurd hzero hne, fun _ =>
      ⟨⟨fun _ => hzero, fun _ => mpzTdivQr_zero hd'⟩, fun hne => absurd hzero hne⟩⟩
  have hne : (st (.obj d)).value ≠ 0 := by rw [hd']; exact Mpz.of_value_eq_zero.not.mpr hn.ne'
  rcases lt_trichotomy m n with hlt | heq | hgt
  · rw [tdivExact_iff_lt (Ptr.outer_obj q) (Ptr.outer_obj z) (Ptr.outer_obj d)
      hqr' hq hr hz' hd' hlt]
    constructor
    · intro h _
      refine ⟨fun heq => ?_, fun _ hsame => h (congrArg _ hsame), fun hgt => ?_, fun hgt => ?_⟩
      all_goals rw [habs.1, habs.2] at *; omega
    · intro h hsame
      exact (h hne).lt (by rw [habs.1, habs.2]; exact_mod_cast hlt) (Ptr.obj.inj hsame)
  · rw [tdivExact_iff_eq (Ptr.outer_obj q) (Ptr.outer_obj r) (Ptr.outer_obj z) (Ptr.outer_obj d)
      hqr' hq hr hz' hd' hn.ne' heq]
    constructor
    · intro h _
      refine ⟨fun _ => h, fun hlt => ?_, fun hgt => ?_, fun hgt => ?_⟩
      all_goals rw [habs.1, habs.2] at *; omega
    · intro h
      exact (h hne).eq (by rw [habs.1, habs.2, heq])
  · rw [tdivExact_iff_gt (Ptr.outer_obj q) (Ptr.outer_obj r) (Ptr.outer_obj z) (Ptr.outer_obj d)
      hqr' hq hr hz' hd' hn hgt]
    constructor
    · rintro ⟨hsize, hsign⟩ -
      refine ⟨fun heq => ?_, fun hlt => ?_, fun _ => hnatz ▸ hsize, fun _ hlt hndvd => ?_⟩
      · rw [habs.1, habs.2] at heq; omega
      · rw [habs.1, habs.2] at hlt; omega
      · rw [hnatz, hnatd]
        exact hsign (hneg.mpr hlt).1 fun h => hndvd (hdvd.mpr h)
    · intro h
      have hgt' : |(st (.obj d)).value| < |(st (.obj z)).value| := by
        rw [habs.1, habs.2]
        exact_mod_cast hgt
      refine ⟨hnatz ▸ (h hne).bits hgt', fun hzs hndvd => ?_⟩
      have hsign := (h hne).sign hgt' (hneg.mp ⟨hzs, by omega⟩) fun h => hndvd (hdvd.mp h)
      rwa [hnatz, hnatd] at hsign

/-- Four objects: the third one and the fourth one hold numbers of one word. -/
def words (z d : ℤ) : Store := fun p =>
  if p = .obj 2 then immediate z.natAbs (decide (z < 0))
  else if p = .obj 3 then immediate d.natAbs (decide (d < 0))
  else Mpz.init

/-- Minus five by two: the remainder is one, and not minus one. -/
theorem tdiv_inexact :
    ((words (-5) 2) (.obj 2)).value = -5 ∧ ((words (-5) 2) (.obj 3)).value = 2 ∧
      ¬TdivExact (.obj 0) (.obj 1) (.obj 2) (.obj 3) (words (-5) 2) := by
  refine ⟨by decide, by decide, fun h => ?_⟩
  have hrem : (mpzTdivQr (.obj 0) (.obj 1) (.obj 2) (.obj 3) (words (-5) 2)).map
      (fun st => (st (.obj 1)).value) = .ok 1 := by rfl
  obtain ⟨st₁, -, -, h₁, -, -, htrunc, -⟩ := h.exact (by decide)
  rw [h₁] at hrem
  have hone : (st₁ (.obj 1)).value = 1 := Except.ok.inj hrem
  rcases htrunc.sign with hzero | hsign
  · rw [hone] at hzero
    nomatch hzero
  · rw [hone] at hsign
    exact absurd hsign (by decide)

/-- Five by two is exact. -/
theorem tdiv_exact_five_two :
    TdivExact (.obj 0) (.obj 1) (.obj 2) (.obj 3) (words 5 2) := by
  have hz : (words 5 2 (.obj 2)) = Mpz.of 5 false 0 := immediate_eq (by decide) false
  have hd : (words 5 2 (.obj 3)) = Mpz.of 2 false 0 := immediate_eq (by decide) false
  refine (tdiv_exact_iff (by decide) ?_ ?_ Mpz.init_shape Mpz.init_shape).mpr fun _ => ?_
  · rw [hz]
    exact Mpz.canonical_of (fun _ => rfl) 0
  · rw [hd]
    exact Mpz.canonical_of (fun _ => rfl) 0
  · rw [hz, hd, Mpz.of_value, Mpz.of_value]
    refine ⟨by decide, by decide, fun _ => ?_, fun _ hneg => absurd hneg (by decide)⟩
    exact (Nat.size_le.mpr (show 5 < 2 ^ 3 by decide)).trans (by decide)

end StyxWire.Sbn
