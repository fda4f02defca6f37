import StyxWire.Sbn.Division

/-!
# Long division

What the loop of `mpz_divi_qr_raw` computes (`StyxWire.Sbn.mpzDiviRaw_spec`): after the bits
from `k` on, the remainder is that of the number they are, and the quotient is that of this
number at its place.

The signs are set before the loop. That of the remainder does not always survive it:
`mpz_subi_raw` normalises its result, and where the remainder of the bits so far is zero, it
is positive from then on.
-/

namespace StyxWire.Sbn

open Limbs

/-- A number with one more bit. -/
theorem div_mod_double {x d c : ℕ} (hd : 0 < d) :
    (2 * (x % d) + c < d →
      (2 * x + c) / d = 2 * (x / d) ∧ (2 * x + c) % d = 2 * (x % d) + c) ∧
    (d ≤ 2 * (x % d) + c → c ≤ 1 →
      (2 * x + c) / d = 2 * (x / d) + 1 ∧ (2 * x + c) % d = 2 * (x % d) + c - d) := by
  have hsplit := Nat.mod_add_div x d
  have hlt := Nat.mod_lt x hd
  constructor
  · intro h
    refine (Nat.div_mod_unique hd).mpr ⟨?_, h⟩
    calc 2 * (x % d) + c + d * (2 * (x / d))
        = 2 * (x % d + d * (x / d)) + c := by ring
      _ = 2 * x + c := by rw [hsplit]
  · intro h hc
    refine (Nat.div_mod_unique hd).mpr ⟨?_, by omega⟩
    calc 2 * (x % d) + c - d + d * (2 * (x / d) + 1)
        = 2 * (x % d) + c - d + d + d * (2 * (x / d)) := by ring
      _ = 2 * (x % d) + c + d * (2 * (x / d)) := by rw [Nat.sub_add_cancel h]
      _ = 2 * (x % d + d * (x / d)) + c := by ring
      _ = 2 * x + c := by rw [hsplit]

/-- The number of the bits from `k` on. -/
theorem div_two_pow_eq (n k : ℕ) :
    n / 2 ^ k = 2 * (n / 2 ^ (k + 1)) + (n.testBit k).toNat := by
  rw [Nat.toNat_testBit, pow_succ, ← Nat.div_div_eq_div_mul, Nat.div_add_mod]

/-- What holds after the bits from `k` on. -/
structure DivInv (q : Option Ptr) (r : Ptr) (n d words wordsQ : ℕ) (rs qs : Bool) (st₀ : Store)
    (k : ℕ) (st : Store) : Prop where
  rem : ∃ s i, st r = Mpz.of (n / 2 ^ k % d) s i ∧
    (Nat.digits base (n / 2 ^ k % d)).length + i = words ∧
    (s = true ↔ rs = true ∧ ∀ j, k ≤ j → 0 < n / 2 ^ j → ¬d ∣ n / 2 ^ j)
  quot : ∀ p, q = some p → Proper base (st p).d ∧ (st p).d.length = wordsQ ∧
    Nat.ofDigits base (st p).d = n / 2 ^ k / d * 2 ^ k ∧ (st p).s = qs
  other : ∀ p, p ≠ r → q ≠ some p → st p = st₀ p

section Loop

variable {q : Option Ptr} {r z : Ptr} {n d words wordsQ : ℕ} {rs qs : Bool} {st₀ : Store}

/-- The sign is lost where the remainder is zero. -/
theorem sign_succ {k : ℕ} {s : Bool}
    (hs : s = true ↔ rs = true ∧ ∀ j, k + 1 ≤ j → 0 < n / 2 ^ j → ¬d ∣ n / 2 ^ j) {s' : Bool}
    (hs' : s' = true ↔ s = true ∧ (0 < n / 2 ^ k → ¬d ∣ n / 2 ^ k)) :
    s' = true ↔ rs = true ∧ ∀ j, k ≤ j → 0 < n / 2 ^ j → ¬d ∣ n / 2 ^ j := by
  rw [hs', hs]
  constructor
  · rintro ⟨⟨hrs, hbefore⟩, hnow⟩
    refine ⟨hrs, fun j hj => ?_⟩
    rcases Nat.eq_or_lt_of_le hj with rfl | hlt
    · exact hnow
    · exact hbefore j hlt
  · rintro ⟨hrs, hall⟩
    exact ⟨⟨hrs, fun j hj => hall j (by omega)⟩, hall k (Nat.le_refl k)⟩

/-- A bit of the quotient, for which there is room. -/
theorem setbit_quotient (hd : 0 < d) (hwordsQ : n / d < 2 ^ (atombits * wordsQ)) {k : ℕ} {x : Mpz}
    (hproper : Proper base x.d) (hlength : x.d.length = wordsQ)
    (hvalue : Nat.ofDigits base x.d = n / 2 ^ (k + 1) / d * 2 ^ (k + 1))
    (hdiv : n / 2 ^ k / d = 2 * (n / 2 ^ (k + 1) / d) + 1) :
    ∃ dq, x.setbit k = .ok { x with d := dq } ∧ Proper base dq ∧ dq.length = wordsQ ∧
      Nat.ofDigits base dq = n / 2 ^ k / d * 2 ^ k := by
  have hplace : k / atombits < x.d.length := by
    rw [hlength]
    refine Nat.div_lt_of_lt_mul ?_
    by_contra hlarge
    -- the quotient has a bit at this place
    have hquot : 1 ≤ n / (2 ^ k * d) := by
      rw [← Nat.div_div_eq_div_mul, hdiv]
      omega
    have hone : 2 ^ k ≤ n / d :=
      (Nat.le_div_iff_mul_le hd).mpr
        ((Nat.one_le_div_iff (Nat.mul_pos (Nat.two_pow_pos k) hd)).mp hquot)
    have hpow : 2 ^ (atombits * wordsQ) ≤ 2 ^ k :=
      Nat.pow_le_pow_right (by decide) (not_lt.mp hlarge)
    omega
  have hunset : (Nat.ofDigits base x.d).testBit k = false := by
    rw [hvalue, Nat.testBit_mul_two_pow]
    simp
  obtain ⟨dq, hset, hproper', hlength', hvalue'⟩ := Mpz.setbit_eq hproper hplace hunset
  refine ⟨dq, hset, hproper', hlength'.trans hlength, ?_⟩
  rw [hvalue', hvalue, hdiv, pow_succ]
  ring

/-- **One bit of the loop.** -/
theorem divStep_spec (hd : 0 < d) (hwords : (Nat.digits base d).length < words)
    (hwordsQ : n / d < 2 ^ (atombits * wordsQ)) (hqr : ∀ p, q = some p → p ≠ r) (hzr : z ≠ r)
    (hzq : q ≠ some z) {k : ℕ} {m : ℕ} {zs : Bool} {i : ℕ} (hz : st₀ z = Mpz.of m zs i)
    (hk : k / atombits < (Nat.digits base m).length + i) (hbit : m.testBit k = n.testBit k)
    (s' : Bool) (i' : ℕ) {st : Store} (h : DivInv q r n d words wordsQ rs qs st₀ (k + 1) st) :
    ∃ st', divStep q r z (Mpz.of d s' i').d (Nat.digits base d).length k st = .ok st' ∧
      DivInv q r n d words wordsQ rs qs st₀ k st' := by
  obtain ⟨s, j, hr, hlen, hs⟩ := h.rem
  have hX := div_two_pow_eq n k
  set x := n / 2 ^ (k + 1) with hx
  have hrlen : (Nat.digits base (x % d)).length ≤ (Nat.digits base d).length :=
    Nat.le_length_digits_le base _ _ (Nat.mod_lt x hd).le
  obtain ⟨j', hlen', hshift⟩ :=
    Mpz.selfLshift1Setbit0_of (x % d) s (k := j) (by omega) (n.testBit k)
  have htest : (st z).testbit k = .ok (n.testBit k) := by
    rw [h.other z hzr hzq, hz, Mpz.testbit_of zs hk, hbit]
  obtain ⟨hsmall, hlarge⟩ := div_mod_double (x := x) (c := (n.testBit k).toNat) hd
  have hcle : (n.testBit k).toNat ≤ 1 := Bool.toNat_le _
  have hcmp : mpzCmpabs (Mpz.of (2 * (x % d) + (n.testBit k).toNat) s j')
      ⟨(Mpz.of d s' i').d, (Nat.digits base d).length, false⟩ =
      .ok (compare (2 * (x % d) + (n.testBit k).toNat) d) := mpzCmpabs_of _ d s false j' i'
  rw [divStep, htest, hr]
  simp only [bind, Except.bind, hshift, Store.set_self, hcmp, Mpz.normalizeLength_of,
    Store.set_set]
  by_cases hge : d ≤ 2 * (x % d) + (n.testBit k).toNat
  · -- the divisor is subtracted
    obtain ⟨hdiv, hmod⟩ := hlarge hge hcle
    rw [← hX] at hdiv hmod
    have hshape : ((st.set r (Mpz.of (2 * (x % d) + (n.testBit k).toNat) s j')) r).Shape := by
      rw [Store.set_self]
      exact Mpz.shape_of _ _ _
    obtain ⟨e, c, hc, hlen'', hsub⟩ := mpzSubiRaw_eq hshape (Store.set_self _ _ _) hge s' i'
    rw [if_pos (Nat.isGE_compare.mpr hge), hsub, Store.set_set, ← hmod]
    rw [← hmod] at hc hlen''
    have hnow : c = true ↔ s = true ∧ (0 < n / 2 ^ k → ¬d ∣ n / 2 ^ k) := by
      rw [hc (by omega), Bool.and_eq_true, decide_eq_true_iff, Nat.dvd_iff_mod_eq_zero]
      have hpos : 0 < n / 2 ^ k := by
        by_contra hzero
        rw [Nat.eq_zero_of_not_pos hzero, Nat.zero_div] at hdiv
        omega
      exact ⟨fun hcon => ⟨hcon.1, fun _ => hcon.2⟩, fun hcon => ⟨hcon.1, hcon.2 hpos⟩⟩
    have hsign := sign_succ hs hnow
    cases q with
    | none =>
      refine ⟨_, rfl, ⟨c, e, Store.set_self _ _ _, ?_, hsign⟩, nofun, fun p hp _ => ?_⟩
      · rw [hlen'' rfl, hlen', hlen]
      · rw [Store.set_of_ne _ hp]
        exact h.other p hp (by simp)
    | some p =>
      obtain ⟨hproper, hlength, hvalue, hqs⟩ := h.quot p rfl
      have hpr : p ≠ r := hqr p rfl
      obtain ⟨dq, hset, hproper', hlength', hvalue'⟩ :=
        setbit_quotient hd hwordsQ hproper hlength hvalue hdiv
      refine ⟨(st.set r (Mpz.of (n / 2 ^ k % d) c e)).set p { st p with d := dq }, ?_, ?_⟩
      · simp only [Store.setQuotient, Store.set_of_ne _ hpr, hset, bind, Except.bind]
        rfl
      · refine ⟨⟨c, e, ?_, ?_, hsign⟩, ?_, ?_⟩
        · rw [Store.set_of_ne _ hpr.symm, Store.set_self]
        · rw [hlen'' rfl, hlen', hlen]
        · rintro p' hp'
          obtain rfl := Option.some.inj hp'
          rw [Store.set_self]
          exact ⟨hproper', hlength', hvalue', hqs⟩
        · rintro p' hp' hqp'
          rw [Store.set_of_ne _ (fun heq => hqp' (congrArg some heq.symm)), Store.set_of_ne _ hp']
          exact h.other p' hp' hqp'
  · obtain ⟨hdiv, hmod⟩ := hsmall (not_le.mp hge)
    rw [← hX] at hdiv hmod
    rw [if_neg (by rwa [Nat.isGE_compare]), ← hmod]
    rw [← hmod] at hlen'
    refine ⟨_, rfl, ⟨s, j', Store.set_self _ _ _, ?_, ?_⟩, ?_, ?_⟩
    · rw [hlen', hlen]
    · refine sign_succ hs (iff_self_and.mpr fun hstrue hpos hdvd => ?_)
      -- a remainder of zero is that of the bits before, too
      have hzero := Nat.mod_eq_zero_of_dvd hdvd
      rw [hmod] at hzero
      refine (hs.mp hstrue).2 (k + 1) (Nat.le_refl _) ?_ (Nat.dvd_of_mod_eq_zero ?_)
      · rw [← hx]
        omega
      · rw [← hx]
        omega
    · rintro p hp
      obtain ⟨hproper, hlength, hvalue, hqs⟩ := h.quot p hp
      rw [Store.set_of_ne _ (hqr p hp)]
      refine ⟨hproper, hlength, ?_, hqs⟩
      rw [hvalue, ← hx, hdiv, pow_succ]
      ring
    · rintro p hp hqp
      rw [Store.set_of_ne _ hp]
      exact h.other p hp hqp

/-- **The loop** over the bits below `k`. -/
theorem divLoop_spec (hd : 0 < d) (hwords : (Nat.digits base d).length < words)
    (hwordsQ : n / d < 2 ^ (atombits * wordsQ)) (hqr : ∀ p, q = some p → p ≠ r) (hzr : z ≠ r)
    (hzq : q ≠ some z) {m : ℕ} {zs : Bool} {i : ℕ} (hz : st₀ z = Mpz.of m zs i) {k : ℕ}
    (hk : ∀ j < k, j / atombits < (Nat.digits base m).length + i)
    (hbit : ∀ j < k, m.testBit j = n.testBit j) (s' : Bool) (i' : ℕ) {st : Store}
    (h : DivInv q r n d words wordsQ rs qs st₀ k st) :
    ∃ st', divLoop q r z (Mpz.of d s' i').d (Nat.digits base d).length k st = .ok st' ∧
      DivInv q r n d words wordsQ rs qs st₀ 0 st' := by
  induction k generalizing st with
  | zero => exact ⟨st, rfl, h⟩
  | succ k ih =>
    obtain ⟨st', hstep, h'⟩ := divStep_spec hd hwords hwordsQ hqr hzr hzq hz
      (hk k (Nat.lt_succ_self k)) (hbit k (Nat.lt_succ_self k)) s' i' h
    obtain ⟨st'', hloop, h''⟩ := ih (fun j hj => hk j (Nat.lt_succ_of_lt hj))
      (fun j hj => hbit j (Nat.lt_succ_of_lt hj)) h'
    refine ⟨st'', ?_, h''⟩
    rw [divLoop, hstep]
    exact hloop

end Loop

/-- The bits that the loop reads. -/
def readBits (n : ℕ) : ℕ := bitCount (Nat.size n % 2 ^ 32)

theorem readBits_le {n : ℕ} (hn : n ≠ 0) : readBits n ≤ Nat.size n := by
  have hpos : 0 < Nat.size n := Nat.size_pos.mpr (Nat.pos_of_ne_zero hn)
  have hmod := Nat.mod_le (Nat.size n) (2 ^ 32)
  rw [readBits, bitCount]
  rcases Nat.eq_zero_or_pos (Nat.size n % 2 ^ 32) with hzero | hmodpos
  · rw [hzero]
    exact Nat.zero_le _
  · have hlt : ((Nat.size n % 2 ^ 32 : ℕ) : ℤ) < 2 ^ 32 := by
      exact_mod_cast Nat.mod_lt _ (by decide)
    rw [Int.bmod]
    split_ifs <;> omega

/-- All the bits are read, if an `int` can count them. -/
theorem readBits_eq {n : ℕ} (hn : n ≠ 0) (hsize : Nat.size n ≤ 2 ^ 31) :
    readBits n = Nat.size n := by
  have hpos : 0 < Nat.size n := Nat.size_pos.mpr (Nat.pos_of_ne_zero hn)
  rw [readBits, bitCount, Nat.mod_eq_of_lt (by omega), Int.bmod_eq_of_le (by omega) (by omega)]
  omega

/-- Otherwise, some are not. -/
theorem readBits_lt {n : ℕ} (hsize : 2 ^ 31 < Nat.size n) : readBits n < Nat.size n := by
  rw [readBits, bitCount, Int.bmod]
  split_ifs <;> omega

/-- The words that are allocated for a quotient hold it. -/
theorem quotient_lt {m d : ℕ} (hd : 0 < d) (hdm : d ≤ m) {n : ℕ} (hn : n ≤ m) {words : ℕ}
    (hwords : (Nat.digits base m).length - (Nat.digits base d).length + 1 < words) :
    n / d < 2 ^ (atombits * words) := by
  have hldpos : 0 < (Nat.digits base d).length :=
    Nat.pos_of_ne_zero fun hzero => hd.ne' (digits_length_eq_zero.mp hzero)
  have hle : (Nat.digits base d).length ≤ (Nat.digits base m).length :=
    Nat.le_length_digits_le base _ _ hdm
  have hdge : base ^ ((Nat.digits base d).length - 1) ≤ d :=
    (Nat.lt_digits_length_iff one_lt_base d).mp (Nat.sub_lt hldpos Nat.one_pos)
  have hquot : m / d <
      base ^ ((Nat.digits base m).length - (Nat.digits base d).length + 1) := by
    refine Nat.div_lt_of_lt_mul ((Nat.lt_base_pow_length_digits one_lt_base).trans_le ?_)
    calc base ^ (Nat.digits base m).length
        = base ^ ((Nat.digits base d).length - 1) *
            base ^ ((Nat.digits base m).length - (Nat.digits base d).length + 1) := by
          rw [← pow_add]
          congr 1
          omega
      _ ≤ d * base ^ ((Nat.digits base m).length - (Nat.digits base d).length + 1) :=
          Nat.mul_le_mul_right _ hdge
  calc n / d ≤ m / d := Nat.div_le_div_right hn
    _ < base ^ ((Nat.digits base m).length - (Nat.digits base d).length + 1) := hquot
    _ ≤ base ^ words := Nat.pow_le_pow_right base_pos hwords.le
    _ = 2 ^ (atombits * words) := by rw [base_eq, ← pow_mul]

/-- The bits that are read are in the words of the number. -/
theorem div_atombits_lt {m : ℕ} (hm : m ≠ 0) {j : ℕ} (hj : j < readBits m) :
    j / atombits < (Nat.digits base m).length := by
  have hsize : Nat.size m ≤ atombits * (Nat.digits base m).length := by
    rw [Nat.size_le, pow_mul, ← base_eq]
    exact Nat.lt_base_pow_length_digits one_lt_base
  exact Nat.div_lt_of_lt_mul ((hj.trans_le (readBits_le hm)).trans_le hsize)

/-- The quotient is cleared, if there is one. -/
theorem setQuotient_zeroRealloc {q : Option Ptr} {st : Store}
    (hq : ∀ p, q = some p → (st p).Shape) (i : ℕ) :
    ∃ st' words, i < words ∧ st.setQuotient q (·.zeroRealloc i) = .ok st' ∧
      (∀ p, q = some p → st' p = Mpz.of 0 (st p).s words) ∧ ∀ p, q ≠ some p → st' p = st p := by
  cases q with
  | none => exact ⟨st, i + 1, Nat.lt_succ_self i, rfl, nofun, fun _ _ => rfl⟩
  | some p =>
    obtain ⟨n, s, k, hof⟩ := (hq p rfl).exists_of
    obtain ⟨j, hj, hclear⟩ := Mpz.zeroRealloc_of n s k i
    refine ⟨st.set p (Mpz.of 0 s j), j, hj, ?_, ?_, ?_⟩
    · rw [Store.setQuotient, hof, hclear]
      rfl
    · rintro p' hp'
      obtain rfl := Option.some.inj hp'
      rw [Store.set_self, hof, Mpz.of_s]
    · rintro p' hp'
      rw [Store.set_of_ne _ fun heq => hp' (congrArg some heq.symm)]

/-- No bit was read yet. -/
theorem divInv_start {q : Option Ptr} {r : Ptr} {n d words wordsQ k : ℕ} {rs qs : Bool}
    {st : Store} (hn : n < 2 ^ k) (hqr : ∀ p, q = some p → p ≠ r)
    (hq : ∀ p, q = some p → st p = Mpz.of 0 qs wordsQ) :
    DivInv q r n d words wordsQ rs qs st k (st.set r (Mpz.of 0 rs words)) := by
  have hzero : n / 2 ^ k = 0 := Nat.div_eq_of_lt hn
  refine ⟨⟨rs, words, ?_, ?_, ?_⟩, ?_, ?_⟩
  · rw [Store.set_self, hzero, Nat.zero_mod]
  · rw [hzero, Nat.zero_mod, Nat.digits_zero, List.length_nil, Nat.zero_add]
  · refine (and_iff_left fun j hj hpos => ?_).symm
    have hle : n / 2 ^ j ≤ n / 2 ^ k :=
      Nat.div_le_div_left (Nat.pow_le_pow_right (by decide) hj) (Nat.two_pow_pos _)
    omega
  · rintro p hp
    rw [Store.set_of_ne _ (hqr p hp), hq p hp, Mpz.of_zero, hzero, Nat.zero_div, Nat.zero_mul]
    exact ⟨proper_replicate_zero base_pos _, List.length_replicate, Nat.ofDigits_replicate_zero,
      rfl⟩
  · rintro p hp -
    rw [Store.set_of_ne _ hp]

/-- **What `mpz_divi_qr_raw` leaves**: the quotient and the remainder of the bits that are read,
under the signs that were there; but that of the remainder is lost where the remainder of the
highest bits is zero. -/
theorem mpzDiviRaw_spec {q : Option Ptr} {r z : Ptr} {st : Store} {m d : ℕ} (hd : 0 < d)
    (hdm : d ≤ m) (hqr : ∀ p, q = some p → p ≠ r) (hzr : z ≠ r) (hzq : q ≠ some z) {zs : Bool}
    {i : ℕ} (hz : st z = Mpz.of m zs i) (hr : (st r).Shape)
    (hq : ∀ p, q = some p → (st p).Shape) (s' : Bool) (i' : ℕ) {n : ℕ}
    (hn : n = m % 2 ^ readBits m) :
    ∃ st', mpzDiviRaw q r z (Mpz.of d s' i').d (Nat.digits base d).length st = .ok st' ∧
      (∃ c j, st' r = Mpz.of (n % d) c j ∧
        (c = true ↔ (st r).s = true ∧ ∀ k, 0 < n / 2 ^ k → ¬d ∣ n / 2 ^ k)) ∧
      (∀ p, q = some p → ∃ j, st' p = Mpz.of (n / d) (st p).s j) ∧
      ∀ p, p ≠ r → q ≠ some p → st' p = st p := by
  have hm : m ≠ 0 := by omega
  have hbits : mpzBits (st z) = .ok (Nat.size m % 2 ^ 32) := by rw [hz, mpzBits_of hm]
  obtain ⟨nr, sr, kr, hrof⟩ := hr.exists_of
  obtain ⟨words, hwords, hclear⟩ := Mpz.zeroRealloc_of nr sr kr (Nat.digits base d).length
  obtain ⟨stq, wordsQ, hwordsQ, hquotient, hsome, hother⟩ := setQuotient_zeroRealloc hq
    ((Nat.digits base m).length - (Nat.digits base d).length + 1)
  have hstqr : stq r = Mpz.of nr sr kr := by
    rw [hother r fun hcon => hqr r hcon rfl, hrof]
  have hstart : DivInv q r n d words wordsQ sr ((q.map fun p => (st p).s).getD false) stq
      (readBits m) (stq.set r (Mpz.of 0 sr words)) :=
    divInv_start (hn ▸ Nat.mod_lt _ (Nat.two_pow_pos _)) hqr (by rintro p rfl; exact hsome p rfl)
  obtain ⟨st', hloop, h'⟩ := divLoop_spec hd hwords
    (quotient_lt hd hdm (hn ▸ Nat.mod_le _ _) hwordsQ) hqr hzr hzq ((hother z hzq).trans hz)
    (fun j hj => Nat.lt_add_right i (div_atombits_lt hm hj))
    (fun j hj => by rw [hn, Nat.testBit_mod_two_pow]; simp [hj]) s' i' hstart
  obtain ⟨c, j, hrem, -, hc⟩ := h'.rem
  rw [pow_zero, Nat.div_one] at hrem
  have hraw : mpzDiviRaw q r z (Mpz.of d s' i').d (Nat.digits base d).length st =
      (st'.setQuotient q fun z => .ok z.normalizeLength).map fun st =>
        st.set r (st r).normalizeLength := by
    rw [mpzDiviRaw, hbits]
    simp only [bind, Except.bind, hz, Mpz.of_l, hquotient, hstqr, hclear]
    rw [show bitCount (Nat.size m % 2 ^ 32) = readBits m from rfl, hloop]
    rfl
  -- the remainder is normalised already
  have hend : ∀ st'' : Store, st'' r = Mpz.of (n % d) c j →
      st''.set r (st'' r).normalizeLength = st'' := by
    intro st'' hst''
    rw [hst'', Mpz.normalizeLength_of, ← hst'', Store.set, Function.update_eq_self]
  have hrs : (st r).s = sr := by rw [hrof, Mpz.of_s]
  rw [hraw, hrs]
  cases q with
  | none =>
    refine ⟨st', ?_, ⟨c, j, hrem, by simpa using hc⟩, fun p hp => absurd hp (by simp),
      fun p hp hqp => ?_⟩
    · exact congrArg Except.ok (hend st' hrem)
    · rw [h'.other p hp hqp, hother p hqp]
  | some p =>
    obtain ⟨hproper, -, hvalue, hqs⟩ := h'.quot p rfl
    rw [pow_zero, Nat.div_one, Nat.mul_one] at hvalue
    obtain ⟨jq, -, hnormal⟩ := Mpz.normalizeLength_eq hproper (st' p).l (st' p).s
    have hpr := hqr p rfl
    refine ⟨st'.set p (Mpz.of (n / d) (st' p).s jq), ?_, ⟨c, j, ?_, by simpa using hc⟩, ?_, ?_⟩
    · refine congrArg Except.ok ((hend _ ?_).trans ?_)
      · rw [Store.set_of_ne _ hpr.symm, hrem]
      · rw [← hvalue, ← hnormal]
    · rw [Store.set_of_ne _ hpr.symm, hrem]
    · rintro p' hp'
      obtain rfl := Option.some.inj hp'
      exact ⟨jq, by rw [Store.set_self, hqs]; rfl⟩
    · rintro p' hp' hqp'
      rw [Store.set_of_ne _ fun heq => hqp' (congrArg some heq.symm), h'.other p' hp' hqp',
        hother p' hqp']

end StyxWire.Sbn
