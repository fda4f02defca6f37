import Mathlib.Data.Int.ModEq
import StyxWire.Sbn.TruncatedDivision

/-!
# Modular reduction

`mpz_mod` takes the remainder of truncated division, and corrects it if it is not zero and the
dividend is negative: it adds the magnitude of the modulus. This is right where `mpz_tdiv_r` leaves
a negative remainder. Where the sign of the remainder is lost (`StyxWire.Sbn.SignLost`), the result
is not reduced, or, in place, the correction is not made: the sign of the dividend is read after
the result was written over it.

What `mpz_mod` leaves is said as a whole (`StyxWire.Sbn.ModResult`), for the callers, and then when
it is the residue (`StyxWire.Sbn.mod_exact_iff`).
-/

namespace StyxWire.Sbn

open Limbs

/-- `mpz_mod`. -/
def mpzMod (r z m : Ptr) (st : Store) : Except Stop Store := do
  let (m, st) := st.clone m .cloneM [r]
  let st ← mpzTdivR r z m st
  if (st r).l ≠ 0 ∧ (st z).s then
    if (st m).s then mpzSub r r m st else mpzAdd r r m st
  else return st

/-! ### What it leaves -/

/-- The number that is read of a dividend: its lowest bits, as many as an `int` counts. -/
def readNum (a : ℕ) : ℕ := a % 2 ^ readBits a

theorem readNum_eq {a : ℕ} (h : Nat.size a ≤ 2 ^ 31) : readNum a = a := by
  rcases eq_or_ne a 0 with rfl | hne
  · exact Nat.zero_mod _
  · rw [readNum, readBits_eq hne h, Nat.mod_eq_of_lt (Nat.lt_size_self a)]

/-- The sign of a remainder that is not zero is lost: the modulus divides a number that the highest
bits of the dividend are. -/
def SignLost (z m : ℤ) : Prop :=
  z < 0 ∧ ¬m.natAbs ∣ readNum z.natAbs ∧
    ∃ k, 0 < readNum z.natAbs / 2 ^ k ∧ m.natAbs ∣ readNum z.natAbs / 2 ^ k

/-- What `mpz_mod` leaves; `same` says that the dividend is the object of the result. -/
structure ModResult (same : Prop) (z m v : ℤ) : Prop where
  small : |z| ≤ |m| → v = z % m
  kept : |m| < |z| → ¬SignLost z m → v = z.sign * readNum z.natAbs % m
  lost : |m| < |z| → SignLost z m → ¬same → v = |m| + (readNum z.natAbs % m.natAbs : ℕ)
  lostSame : |m| < |z| → SignLost z m → same → v = (readNum z.natAbs % m.natAbs : ℕ)

/-- A bit of a negative dividend is read, if it is divided. -/
def RemainderKept (z m : ℤ) : Prop := z < 0 → |m| < |z| → readNum z.natAbs ≠ 0

/-- The sign of a result, from that of the dividend. -/
structure SignResult (zs : Bool) (z m : ℤ) (x : Mpz) : Prop where
  nonneg : zs = false → x.s = false
  canonical : (z = 0 → zs = false) → RemainderKept z m → x.Canonical

variable {r z m : Ptr} {st : Store} {a n : ℕ} {zs ms : Bool} {i j : ℕ}

/-- The objects of the callers, and those that are not used here. -/
structure Ptr.FreeMod (p : Ptr) : Prop extends p.Free where
  cloneM : p ≠ .cloneM

theorem Ptr.freeMod_obj (n : ℕ) : (Ptr.obj n).FreeMod := ⟨Ptr.free_obj n, nofun⟩

theorem Ptr.free_cloneM : Ptr.cloneM.Free := ⟨nofun, nofun, nofun⟩

/-- Nothing is changed but the result; an operand may get words to spare. -/
def PadFrame (r : Ptr) (st st' : Store) : Prop :=
  ∀ p : Ptr, p.FreeMod → p ≠ r → (st p).Pads (st' p)

theorem abs_value (a : ℕ) (zs : Bool) (i : ℕ) : |(Mpz.of a zs i).value| = a := by
  rw [Int.abs_eq_natAbs, Mpz.of_value_natAbs]

/-- A dividend that is not divided, and no remainder. -/
theorem signResult_of {b : ℕ} {c : Bool} (hb : b = 0 → c = true → a = 0) (hc : c = true → zs = true)
    (v : ℤ) (k : ℕ) : SignResult zs (Mpz.of a zs i).value v (Mpz.of b c k) where
  nonneg hzs := by
    rw [Mpz.of_s]
    rw [hzs] at hc
    simpa using hc
  canonical hsign _ := by
    refine Mpz.canonical_of (fun hzero => ?_) k
    by_contra hcon
    rw [Bool.not_eq_false] at hcon
    have hzs := hc hcon
    rw [hsign (Mpz.of_value_eq_zero.mpr (hb hzero hcon))] at hzs
    exact Bool.noConfusion hzs

/-- **The remainder of a dividend that is divided.** If it is zero, the divisor divides all the bits
that are read, and the sign is lost where they are not zero. -/
theorem signResult_gt (hlt : n < a) {c : Bool}
    (hc : c = true ↔ zs = true ∧ ∀ k, 0 < readNum a / 2 ^ k → ¬n ∣ readNum a / 2 ^ k) (k : ℕ) :
    SignResult zs (Mpz.of a zs i).value (Mpz.of n ms j).value (Mpz.of (readNum a % n) c k) where
  nonneg hzs := by
    rw [Mpz.of_s]
    cases c with
    | false => rfl
    | true => exact absurd (hc.mp rfl).1 (by simp [hzs])
  canonical _ hkept := by
    refine Mpz.canonical_of (fun hzero => ?_) k
    by_contra hcon
    rw [Bool.not_eq_false] at hcon
    obtain ⟨hzs, hall⟩ := hc.mp hcon
    have hread : readNum a ≠ 0 := by
      have hneg : (Mpz.of a zs i).value < 0 := by
        rw [Mpz.of_value, if_pos hzs]
        omega
      have hne := hkept hneg (by rw [abs_value, abs_value]; exact_mod_cast hlt)
      rwa [Mpz.of_value_natAbs] at hne
    refine hall 0 ?_ ?_
    · rw [pow_zero, Nat.div_one]
      exact Nat.pos_of_ne_zero hread
    · rw [pow_zero, Nat.div_one]
      exact Nat.dvd_of_mod_eq_zero hzero

/-- The remainder is corrected if it is not zero and the dividend is negative. -/
theorem correct_spec (hr : st r = Mpz.of a zs i) (hm : st m = Mpz.of n ms j) (hn : n ≠ 0) :
    ∃ st', (if (st r).l ≠ 0 ∧ (st z).s then
        if (st m).s then mpzSub r r m st else mpzAdd r r m st
      else .ok st) = .ok st' ∧
      (st' r).Shape ∧ (∀ p, p ≠ r → (st p).Pads (st' p)) ∧
      ((st' r).value = if a ≠ 0 ∧ (st z).s then (Mpz.of a zs i).value + n
        else (Mpz.of a zs i).value) ∧
      ∀ {c : Bool} {v w : ℤ}, (c = false → (st z).s = false) → SignResult c v w (st r) →
        SignResult c v w (st' r) := by
  have hl : (st r).l ≠ 0 ↔ a ≠ 0 := by rw [hr, Mpz.of_l, not_iff_not, digits_length_eq_zero]
  simp only [hl]
  split_ifs with hcorrect hms
  all_goals
    have hshape : (st r).Shape := hr ▸ Mpz.shape_of a zs i
    have hmc : (st m).Canonical := hm ▸ Mpz.canonical_of (fun hzero => absurd hzero hn) j
  · have hrc : (st r).Canonical := hr ▸ Mpz.canonical_of (fun hzero => absurd hzero hcorrect.1) i
    obtain ⟨st', hsub, hcomputes⟩ := mpzSub_computes hshape hrc hmc
    refine ⟨st', hsub, hcomputes.canonical.toShape, hcomputes.pads, ?_, fun hc _ =>
      ⟨fun hcon => absurd hcorrect.2 (by simp [hc hcon]), fun _ _ => hcomputes.canonical⟩⟩
    rw [hm, Mpz.of_s] at hms
    rw [hcomputes.value, hr, hm, Mpz.of_value n, if_pos hms, sub_neg_eq_add]
  · obtain ⟨st', hadd, hcomputes⟩ := mpzAdd_computes hshape hshape hmc
    refine ⟨st', hadd, hcomputes.canonical.toShape, hcomputes.pads, ?_, fun hc _ =>
      ⟨fun hcon => absurd hcorrect.2 (by simp [hc hcon]), fun _ _ => hcomputes.canonical⟩⟩
    rw [hm, Mpz.of_s] at hms
    rw [hcomputes.value, hr, hm, Mpz.of_value n, if_neg hms]
  · exact ⟨st, rfl, hshape, fun p _ => Mpz.Pads.refl _, by rw [hr], fun _ hresult => hresult⟩

theorem emod_value (v : ℤ) (n : ℕ) (ms : Bool) (j : ℕ) :
    v % (Mpz.of n ms j).value = v % (n : ℤ) := by
  rw [← Int.emod_abs, abs_value]

theorem sign_value {a : ℕ} (ha : a ≠ 0) (zs : Bool) (i : ℕ) :
    (Mpz.of a zs i).value.sign = if zs then -1 else 1 := by
  have hpos : (0 : ℤ) < a := by exact_mod_cast Nat.pos_of_ne_zero ha
  rw [Mpz.of_value]
  cases zs with
  | true => simpa using Int.sign_eq_one_of_pos hpos
  | false => simpa using Int.sign_eq_one_of_pos hpos

/-- The residue of a dividend that is less. -/
theorem value_emod_of_lt (hlt : a < n) (zs : Bool) (i k : ℕ) :
    (Mpz.of a zs i).value % n = if a ≠ 0 ∧ zs then (Mpz.of a zs k).value + n
      else (Mpz.of a zs k).value := by
  rw [Mpz.of_value, Mpz.of_value]
  cases zs with
  | false =>
    rw [if_neg Bool.false_ne_true, if_neg (by simp)]
    exact Int.emod_eq_of_lt (by omega) (by omega)
  | true =>
    rw [if_pos rfl]
    rcases Nat.eq_zero_or_pos a with rfl | hpos
    · simp
    · rw [if_pos ⟨hpos.ne', rfl⟩, ← Int.add_emod_right]
      exact Int.emod_eq_of_lt (by omega) (by omega)

/-- The remainder of a dividend that is not greater, corrected. -/
theorem modResult_small {same : Prop} (hle : a ≤ n) {v : ℤ}
    (hv : v = (Mpz.of a zs i).value % n) :
    ModResult same (Mpz.of a zs i).value (Mpz.of n ms j).value v := by
  have habs : ¬|(Mpz.of n ms j).value| < |(Mpz.of a zs i).value| := by
    rw [abs_value, abs_value]
    exact_mod_cast hle.not_gt
  exact ⟨fun _ => by rw [hv, emod_value], fun h => absurd h habs, fun h => absurd h habs,
    fun h => absurd h habs⟩

/-- The remainder of a dividend that is greater: `c` is the sign that `mpz_tdiv_r` leaves. -/
theorem modResult_gt {same : Prop} (hn : 0 < n) (hlt : n < a) {c : Bool}
    (hc : c = true ↔ zs = true ∧ ∀ k, 0 < readNum a / 2 ^ k → ¬n ∣ readNum a / 2 ^ k)
    {b : Bool} (hb : same → b = c) (hb' : ¬same → b = zs) {v : ℤ} {k : ℕ}
    (hv : v = if readNum a % n ≠ 0 ∧ b then (Mpz.of (readNum a % n) c k).value + n
      else (Mpz.of (readNum a % n) c k).value) :
    ModResult same (Mpz.of a zs i).value (Mpz.of n ms j).value v := by
  have ha : a ≠ 0 := by omega
  have habs : |(Mpz.of n ms j).value| < |(Mpz.of a zs i).value| := by
    rw [abs_value, abs_value]
    exact_mod_cast hlt
  have hrem : readNum a % n < n := Nat.mod_lt _ hn
  have hneg : (Mpz.of a zs i).value < 0 ↔ zs = true := by
    rw [Mpz.of_value]
    cases zs with
    | false => simp
    | true =>
      simp only [if_true, iff_true]
      omega
  have hlost : SignLost (Mpz.of a zs i).value (Mpz.of n ms j).value ↔
      zs = true ∧ readNum a % n ≠ 0 ∧ c = false := by
    rw [SignLost, hneg, Mpz.of_value_natAbs, Mpz.of_value_natAbs, Nat.dvd_iff_mod_eq_zero]
    refine and_congr_right fun hzs => and_congr_right fun _ => ?_
    rw [← Bool.not_eq_true, hc]
    simp [hzs]
  rw [Mpz.of_value] at hv
  refine ⟨fun h => absurd habs (not_lt.mpr h), fun _ hkept => ?_, fun _ h hsame => ?_,
    fun _ h hsame => ?_⟩
  · rw [hlost] at hkept
    rw [emod_value, sign_value ha, Mpz.of_value_natAbs]
    cases zs with
    | false =>
      -- the remainder of a number that is not negative
      have hcf : c = false := by
        rw [← Bool.not_eq_true, hc]
        simp
      have hbf : b = false := by
        by_cases hsame : same
        · rw [hb hsame, hcf]
        · exact hb' hsame
      simpa [hcf, hbf] using hv
    | true =>
      rcases eq_or_ne (readNum a % n) 0 with hzero | hne
      · rw [hzero] at hv
        have hdvd : (n : ℤ) ∣ -1 * (readNum a : ℤ) :=
          Dvd.dvd.mul_left (by exact_mod_cast Nat.dvd_of_mod_eq_zero hzero) _
        rw [if_pos rfl, Int.emod_eq_zero_of_dvd hdvd, hv]
        cases c <;> simp
      · have hct : c = true := by
          rw [← Bool.not_eq_false]
          exact fun hcf => hkept ⟨rfl, hne, hcf⟩
        have hbt : b = true := by
          by_cases hsame : same
          · rw [hb hsame, hct]
          · exact hb' hsame
        rw [hct, hbt, if_pos ⟨hne, rfl⟩, if_pos rfl] at hv
        have hdiv : ((readNum a % n : ℕ) : ℤ) + n * (readNum a / n : ℕ) = readNum a := by
          exact_mod_cast Nat.mod_add_div (readNum a) n
        have hmultiple : -1 * (readNum a : ℤ) =
            -((readNum a % n : ℕ) : ℤ) + n + n * (-((readNum a / n : ℕ) : ℤ) - 1) := by
          linear_combination hdiv
        rw [if_pos rfl, hv, hmultiple, Int.add_mul_emod_self_left, Int.emod_eq_of_lt]
        all_goals omega
  · obtain ⟨hzs, hne, hcf⟩ := hlost.mp h
    rw [hcf, hb' hsame, hzs, if_pos ⟨hne, rfl⟩, if_neg Bool.false_ne_true] at hv
    rw [hv, abs_value, Mpz.of_value_natAbs, Mpz.of_value_natAbs, add_comm]
  · obtain ⟨hzs, hne, hcf⟩ := hlost.mp h
    rw [hcf, hb hsame, hcf, if_neg (by simp), if_neg Bool.false_ne_true] at hv
    rw [hv, Mpz.of_value_natAbs, Mpz.of_value_natAbs]

/-- **What `mpz_mod` leaves**, whichever of the objects are the same. -/
theorem mpzMod_spec (hr : r.FreeMod) (hzf : z.FreeMod) (hmf : m.FreeMod) (hshape : (st r).Shape)
    (hz : st z = Mpz.of a zs i) (hm : st m = Mpz.of n ms j) (hn : n ≠ 0) :
    ∃ st', mpzMod r z m st = .ok st' ∧ (st' r).Shape ∧
      ModResult (r = z) (Mpz.of a zs i).value (Mpz.of n ms j).value (st' r).value ∧
      PadFrame r st st' ∧
      SignResult zs (Mpz.of a zs i).value (Mpz.of n ms j).value (st' r) := by
  have hcopy : Ptr.cloneM ∉ [r] := by
    rw [List.mem_singleton]
    exact hr.cloneM.symm
  obtain ⟨hcloned, hmem, hwhich, hsame⟩ := st.clone_spec (p := m) hcopy
  rw [mpzMod]
  obtain ⟨⟨m', st₁⟩, hclone⟩ : ∃ pair, st.clone m .cloneM [r] = pair := ⟨_, rfl⟩
  rw [hclone] at hcloned hmem hwhich hsame ⊢
  dsimp only at hcloned hmem hwhich hsame ⊢
  rw [List.mem_singleton] at hmem
  have hfree : m'.Free := by
    rcases hwhich with rfl | rfl
    · exact hmf.toFree
    · exact Ptr.free_cloneM
  have hr₁ : (st₁ r).Shape := hsame r hr.cloneM ▸ hshape
  have hz₁ : st₁ z = Mpz.of a zs i := (hsame z hzf.cloneM).trans hz
  have hm₁ : st₁ m' = Mpz.of n ms j := hcloned.trans hm
  -- the modulus and the other objects after the division
  have hframe : ∀ {st₂ st' : Store}, Frame [r] st₁ st₂ → (∀ p, p ≠ r → (st₂ p).Pads (st' p)) →
      PadFrame r st st' := by
    intro st₂ st' hdiv hpads p hp hpr
    rw [← hsame p hp.cloneM, ← hdiv p hp.toFree (by rwa [List.mem_singleton])]
    exact hpads p hpr
  have hm₂ : ∀ {st₂ : Store}, Frame [r] st₁ st₂ → st₂ m' = Mpz.of n ms j := fun hdiv =>
    (hdiv m' hfree (by rwa [List.mem_singleton])).trans hm₁
  have hz₂ : ∀ {st₂ : Store}, Frame [r] st₁ st₂ → r ≠ z → (st₂ z).s = zs := fun hdiv hne => by
    rw [hdiv z hzf.toFree (by rw [List.mem_singleton]; exact hne.symm), hz₁, Mpz.of_s]
  rcases Nat.lt_trichotomy a n with hlt | heq | hgt
  · obtain ⟨st₂, hdiv, ⟨k, hr₂⟩, hother⟩ := mpzTdivR_lt hr₁ hlt hz₁ hm₁
    have hsign : (st₂ z).s = zs := by
      by_cases hrz : r = z
      · rw [← hrz, hr₂, Mpz.of_s]
      · exact hz₂ hother hrz
    obtain ⟨st', hcorrect, hres, hpads, hvalue, hresult⟩ := correct_spec (z := z) hr₂ (hm₂ hother) hn
    refine ⟨st', ?_, hres, modResult_small hlt.le ?_, hframe hother hpads,
      hresult (fun hzs => hsign.trans hzs) (hr₂ ▸ signResult_of (fun hzero _ => hzero) id _ k)⟩
    · rw [hdiv]
      exact hcorrect
    · rw [hvalue, hsign, value_emod_of_lt hlt zs i k]
  · obtain ⟨st₂, hdiv, ⟨k, hr₂⟩, hother⟩ := mpzTdivR_eq hr₁ hn (heq ▸ hz₁) hm₁
    obtain ⟨st', hcorrect, hres, hpads, hvalue, hresult⟩ := correct_spec (z := z) hr₂ (hm₂ hother) hn
    have hsign : zs = false → (st₂ z).s = false := fun hzs => by
      by_cases hrz : r = z
      · rw [← hrz, hr₂, Mpz.of_s]
      · rw [hz₂ hother hrz, hzs]
    refine ⟨st', ?_, hres, modResult_small heq.le ?_, hframe hother hpads, hresult hsign
      (hr₂ ▸ signResult_of (fun _ hcon => absurd hcon Bool.false_ne_true)
        (fun hcon => absurd hcon Bool.false_ne_true) _ k)⟩
    · rw [hdiv]
      exact hcorrect
    · rw [hvalue, if_neg (by simp), Mpz.of_value, Mpz.of_value, heq]
      cases zs <;> simp
  · have hread : readNum a = a % 2 ^ readBits a := rfl
    obtain ⟨st₂, hdiv, ⟨c, k, hr₂, hc⟩, hother⟩ := mpzTdivR_gt hr.toFree hzf.toFree hfree hr₁
      (Nat.pos_of_ne_zero hn) hgt hz₁ hm₁ hread
    obtain ⟨st', hcorrect, hres, hpads, hvalue, hresult⟩ := correct_spec (z := z) hr₂ (hm₂ hother) hn
    have hremainder : SignResult zs (Mpz.of a zs i).value (Mpz.of n ms j).value
        (Mpz.of (readNum a % n) c k) := signResult_gt hgt hc k
    rw [← hr₂] at hremainder
    have hsign : zs = false → (st₂ z).s = false := fun hzs => by
      by_cases hrz : r = z
      · rw [← hrz]
        exact hremainder.nonneg hzs
      · rw [hz₂ hother hrz, hzs]
    refine ⟨st', ?_, hres, ?_, hframe hother hpads, hresult hsign hremainder⟩
    · rw [hdiv]
      exact hcorrect
    · refine modResult_gt (Nat.pos_of_ne_zero hn) hgt hc (fun hrz => ?_) (hz₂ hother) hvalue
      rw [← hrz, hr₂, Mpz.of_s]

/-! ### When it is the residue -/

/-- The result is the residue of the dividend. -/
structure ModExact (r z m : Ptr) (st : Store) : Prop where
  exact : ∃ st', mpzMod r z m st = .ok st' ∧ 0 ≤ (st' r).value ∧
    (st' r).value < |(st m).value| ∧ (st' r).value ≡ (st z).value [ZMOD (st m).value]

/-- What it takes of a dividend that is greater than the modulus, as magnitudes: the modulus divides
what is not read of it (which is nothing, up to `2 ^ 31` bits); but if the sign of the remainder is
lost, the dividend is the object of the result, and the modulus divides the sum of what is read of
it and of the whole (twice the dividend, up to `2 ^ 31` bits). -/
structure ModHolds (same : Prop) (z m : ℤ) : Prop where
  kept : |m| < |z| → ¬SignLost z m → m.natAbs ∣ z.natAbs - readNum z.natAbs
  lost : |m| < |z| → SignLost z m → same ∧ m.natAbs ∣ z.natAbs + readNum z.natAbs

/-- The residue is the only number of its class that is reduced. -/
theorem residue_iff {z m v : ℤ} (hm : m ≠ 0) :
    (0 ≤ v ∧ v < |m| ∧ v ≡ z [ZMOD m]) ↔ v = z % m := by
  constructor
  · rintro ⟨hle, hlt, hmod⟩
    rw [← hmod.eq, ← Int.emod_abs, Int.emod_eq_of_lt hle hlt]
  · rintro rfl
    refine ⟨Int.emod_nonneg z hm, ?_, Int.mod_modEq z m⟩
    rw [Int.abs_eq_natAbs]
    exact Int.emod_lt z hm

theorem sign_mul_modEq_iff {z m : ℤ} (hz : z ≠ 0) {y : ℕ} (hy : y ≤ z.natAbs) :
    z.sign * y ≡ z [ZMOD m] ↔ m.natAbs ∣ z.natAbs - y := by
  have hcast : ((z.natAbs - y : ℕ) : ℤ) = z.natAbs - y := Nat.cast_sub hy
  have hdiff : z - z.sign * y = z.sign * (z.natAbs - y : ℕ) := by
    rw [hcast, mul_sub, Int.sign_mul_natAbs]
  rw [Int.modEq_iff_dvd, hdiff, ← Int.natAbs_dvd_natAbs, Int.natAbs_mul, Int.natAbs_sign_of_ne_zero hz,
    Nat.one_mul, Int.natAbs_natCast]

theorem readNum_le (a : ℕ) : readNum a ≤ a := Nat.mod_le _ _

/-- A result of `mpz_mod` is the residue in these cases and no others. -/
theorem ModResult.eq_emod_iff {same : Prop} {z m v : ℤ} (hm : m ≠ 0) (h : ModResult same z m v) :
    v = z % m ↔ ModHolds same z m := by
  have hpos : 0 < m.natAbs := Int.natAbs_pos.mpr hm
  rcases le_or_gt |z| |m| with hle | hlt
  · have hsmall := h.small hle
    exact ⟨fun _ => ⟨fun hlt => absurd hle (not_le.mpr hlt), fun hlt => absurd hle (not_le.mpr hlt)⟩,
      fun _ => hsmall⟩
  have hz : z ≠ 0 := by
    rintro rfl
    rw [abs_zero] at hlt
    exact absurd hlt (not_lt.mpr (abs_nonneg m))
  by_cases hlost : SignLost z m
  · have hrem : readNum z.natAbs % m.natAbs < m.natAbs := Nat.mod_lt _ hpos
    by_cases hsame : same
    · rw [h.lostSame hlt hlost hsame]
      have habs : ((readNum z.natAbs % m.natAbs : ℕ) : ℤ) < |m| := by
        rw [Int.abs_eq_natAbs]
        exact_mod_cast hrem
      have hzneg : z = -(z.natAbs : ℤ) := by
        have hneg := hlost.1
        omega
      have hiff : ((readNum z.natAbs % m.natAbs : ℕ) : ℤ) ≡ z [ZMOD m] ↔
          m.natAbs ∣ z.natAbs + readNum z.natAbs := by
        rw [Int.modEq_comm, Int.modEq_iff_dvd, ← Int.natAbs_dvd, hzneg, sub_neg_eq_add]
        simp only [Int.natAbs_neg, Int.natAbs_natCast]
        rw [← Int.natCast_add, Int.natCast_dvd_natCast, Nat.add_comm,
          Nat.dvd_iff_mod_eq_zero, Nat.dvd_iff_mod_eq_zero, Nat.add_mod_mod]
      rw [← residue_iff hm, hiff]
      constructor
      · rintro ⟨-, -, hdvd⟩
        exact ⟨fun _ hkept => absurd hlost hkept, fun _ _ => ⟨hsame, hdvd⟩⟩
      · intro hholds
        exact ⟨Int.natCast_nonneg _, habs, (hholds.lost hlt hlost).2⟩
    · -- it is not reduced
      rw [h.lost hlt hlost hsame, ← residue_iff hm]
      constructor
      · rintro ⟨-, hlt', -⟩
        omega
      · intro hholds
        exact absurd (hholds.lost hlt hlost).1 hsame
  · rw [h.kept hlt hlost]
    have hiff := sign_mul_modEq_iff (m := m) hz (readNum_le z.natAbs)
    exact ⟨fun heq => ⟨fun _ _ => hiff.mp heq, fun _ h => absurd h hlost⟩,
      fun hholds => hiff.mpr (hholds.kept hlt hlost)⟩

/-- **Modular reduction is canonical in these cases and no others.** -/
theorem mod_exact_iff {r z m : ℕ} (hz : (st (.obj z)).Canonical) (hm : (st (.obj m)).Canonical)
    (hr : (st (.obj r)).Shape) (hne : (st (.obj m)).value ≠ 0) :
    ModExact (.obj r) (.obj z) (.obj m) st ↔
      ModHolds (r = z) (st (.obj z)).value (st (.obj m)).value := by
  obtain ⟨a, zs, i, hz, -⟩ := hz.exists_of
  obtain ⟨n, ms, j, hm, -⟩ := hm.exists_of
  have hn : n ≠ 0 := by
    rw [hm] at hne
    exact Mpz.of_value_eq_zero.not.mp hne
  obtain ⟨st', hmod, -, hresult, -⟩ := mpzMod_spec (Ptr.freeMod_obj r) (Ptr.freeMod_obj z)
    (Ptr.freeMod_obj m) hr hz hm hn
  rw [← hz, ← hm, show (Ptr.obj r = Ptr.obj z) = (r = z) from propext ⟨Ptr.obj.inj, congrArg _⟩]
    at hresult
  rw [← hresult.eq_emod_iff hne, ← residue_iff hne]
  constructor
  · rintro ⟨st'', hmod', hexact⟩
    rw [hmod] at hmod'
    cases hmod'
    exact hexact
  · exact fun hexact => ⟨st', hmod, hexact⟩

/-- Minus seven by three: four in another object, one in place. -/
theorem mod_inexact :
    ((words (-7) 3) (.obj 2)).value = -7 ∧ ((words (-7) 3) (.obj 3)).value = 3 ∧
      ¬ModExact (.obj 0) (.obj 2) (.obj 3) (words (-7) 3) ∧
      ¬ModExact (.obj 2) (.obj 2) (.obj 3) (words (-7) 3) := by
  refine ⟨by decide, by decide, fun h => ?_, fun h => ?_⟩
  · have hrun : (mpzMod (.obj 0) (.obj 2) (.obj 3) (words (-7) 3)).map
        (fun st => (st (.obj 0)).value) = .ok 4 := by rfl
    obtain ⟨st', hmod, -, hlt, -⟩ := h.exact
    rw [hmod] at hrun
    rw [show (st' (.obj 0)).value = 4 from Except.ok.inj hrun] at hlt
    exact absurd hlt (by decide)
  · have hrun : (mpzMod (.obj 2) (.obj 2) (.obj 3) (words (-7) 3)).map
        (fun st => (st (.obj 2)).value) = .ok 1 := by rfl
    obtain ⟨st', hmod, -, -, hcongr⟩ := h.exact
    rw [hmod] at hrun
    rw [show (st' (.obj 2)).value = 1 from Except.ok.inj hrun] at hcongr
    exact absurd hcongr (by decide)

/-- Minus three by five is reduced, in the object of the modulus. -/
theorem mod_exact_three_five : ModExact (.obj 3) (.obj 2) (.obj 3) (words (-3) 5) := by
  have hz : (words (-3) 5 (.obj 2)) = Mpz.of 3 true 0 := immediate_eq (by decide) true
  have hm : (words (-3) 5 (.obj 3)) = Mpz.of 5 false 0 := immediate_eq (by decide) false
  have hne : (words (-3) 5 (.obj 3)).value ≠ 0 := by decide
  have hmc : (words (-3) 5 (.obj 3)).Canonical := hm ▸ Mpz.canonical_of (fun _ => rfl) 0
  have hzc : (words (-3) 5 (.obj 2)).Canonical :=
    hz ▸ Mpz.canonical_of (fun hzero => absurd hzero (by decide)) 0
  have hnot : ¬|(words (-3) 5 (.obj 3)).value| < |(words (-3) 5 (.obj 2)).value| := by decide
  exact (mod_exact_iff hzc hmc hmc.toShape hne).mpr
    ⟨fun hlt => absurd hlt hnot, fun hlt => absurd hlt hnot⟩

end StyxWire.Sbn
