import StyxWire.Sbn.Comparison
import StyxWire.Sbn.Exponentiation

/-!
# Immediate operands

The variants with an operand that is an integer of the machine pack it into a number on the stack,
`mpz`, and call the general function; those of `mpz_mul` pass its word to `mpz_muli_raw`. To compare
them with the general functions, these are called with an object that holds the same value. What
the two calls leave is the same if it is so for every object, but for words to spare
(`StyxWire.Sbn.Agree`).

All the variants agree but two: `mpz_tdiv_q_ui` and `mpz_tdiv_q_si` call `mpz_tdiv_r`, and leave the
remainder. So they agree where the quotient and the remainder happen to be one number
(`StyxWire.Sbn.immediates_agree_iff`).
-/

namespace StyxWire.Sbn

open Limbs

/-! ### The functions -/

/-- A number that is packed from an unsigned integer, as the last operand. -/
def withUi (op : Ptr → Store → Except Stop Store) (u : ℕ) (st : Store) : Except Stop Store :=
  op .mpz (st.set .mpz (immediate u false))

/-- A number that is packed from a signed integer. The magnitude is unsigned, so that there is one
for the least integer. -/
def withSi (op : Ptr → Store → Except Stop Store) (s : ℤ) (st : Store) : Except Stop Store :=
  op .mpz (st.set .mpz (immediate s.natAbs (s < 0)))

/-- `mpz_add_ui`. -/
def mpzAddUi (r z : Ptr) : ℕ → Store → Except Stop Store := withUi (mpzAdd r z)

/-- `mpz_add_si`. -/
def mpzAddSi (r z : Ptr) : ℤ → Store → Except Stop Store := withSi (mpzAdd r z)

/-- `mpz_sub_ui`. -/
def mpzSubUi (r z : Ptr) : ℕ → Store → Except Stop Store := withUi (mpzSub r z)

/-- `mpz_sub_si`. -/
def mpzSubSi (r z : Ptr) : ℤ → Store → Except Stop Store := withSi (mpzSub r z)

/-- `mpz_mul_si`. -/
def mpzMulSi (r z : Ptr) (s : ℤ) (st : Store) : Except Stop Store :=
  let st := st.setSign r ((st z).s ^^ (s < 0))
  mpzMuliRaw r z (immediate s.natAbs false).d (immediate s.natAbs false).l st

/-- `mpz_tdiv_qr_ui`. -/
def mpzTdivQrUi (q r z : Ptr) : ℕ → Store → Except Stop Store := withUi (mpzTdivQr q r z)

/-- `mpz_tdiv_qr_si`. -/
def mpzTdivQrSi (q r z : Ptr) : ℤ → Store → Except Stop Store := withSi (mpzTdivQr q r z)

/-- `mpz_tdiv_r_ui`. -/
def mpzTdivRUi (r z : Ptr) : ℕ → Store → Except Stop Store := withUi (mpzTdivR r z)

/-- `mpz_tdiv_r_si`. -/
def mpzTdivRSi (r z : Ptr) : ℤ → Store → Except Stop Store := withSi (mpzTdivR r z)

/-- `mpz_tdiv_q_ui`: it is the remainder that is computed. -/
def mpzTdivQUi (q z : Ptr) : ℕ → Store → Except Stop Store := withUi (mpzTdivR q z)

/-- `mpz_tdiv_q_si`: so it is here. -/
def mpzTdivQSi (q z : Ptr) : ℤ → Store → Except Stop Store := withSi (mpzTdivR q z)

/-! ### The same result -/

/-- They are one number, but for the words to spare. -/
def Mpz.Same (z z' : Mpz) : Prop := ∃ x : Mpz, x.Pads z ∧ x.Pads z'

theorem Mpz.Same.refl (z : Mpz) : z.Same z := ⟨z, Mpz.Pads.refl z, Mpz.Pads.refl z⟩

theorem Mpz.same_of_iff {n n' : ℕ} {s s' : Bool} {k k' : ℕ} :
    (Mpz.of n s k).Same (Mpz.of n' s' k') ↔ n = n' ∧ s = s' := by
  have hnum : ∀ (n : ℕ) (s : Bool) (k : ℕ), Nat.ofDigits base (Mpz.of n s k).d = n := by
    intro n s k
    rw [Mpz.of_d, Nat.ofDigits_append_replicate_zero, Nat.ofDigits_digits]
  constructor
  · rintro ⟨x, ⟨i, hi⟩, ⟨i', hi'⟩⟩
    have hn := hnum n s k
    have hn' := hnum n' s' k'
    rw [hi, Nat.ofDigits_append_replicate_zero] at hn
    rw [hi', Nat.ofDigits_append_replicate_zero] at hn'
    exact ⟨hn.symm.trans hn', (congrArg Mpz.s hi).trans (congrArg Mpz.s hi').symm⟩
  · rintro ⟨rfl, rfl⟩
    refine ⟨Mpz.of n s 0, ?_, ?_⟩
    · have hpads := Mpz.pads_of n s 0 k
      rwa [Nat.zero_add] at hpads
    · have hpads := Mpz.pads_of n s 0 k'
      rwa [Nat.zero_add] at hpads

theorem Mpz.Canonical.same {z z' : Mpz} (h : z.Canonical) (h' : z'.Canonical)
    (hvalue : z.value = z'.value) : z.Same z' := by
  obtain ⟨n, s, k, rfl, hs⟩ := h.exists_of
  obtain ⟨n', s', k', rfl, hs'⟩ := h'.exists_of
  have hn : n = n' := by
    rw [← Mpz.of_value_natAbs n s k, hvalue, Mpz.of_value_natAbs]
  subst hn
  refine Mpz.same_of_iff.mpr ⟨rfl, ?_⟩
  rcases Nat.eq_zero_or_pos n with hzero | hpos
  · rw [hs hzero, hs' hzero]
  · rw [Mpz.of_value, Mpz.of_value] at hvalue
    cases s <;> cases s' <;> simp only [if_true, if_false, Bool.false_eq_true] at hvalue
    · rfl
    · omega
    · omega
    · rfl

/-- Two calls end in the same way: with the same error, or with the same numbers in the objects of
the caller. -/
inductive Agree : Except Stop Store → Except Stop Store → Prop
  | ok {st st' : Store} (h : ∀ n, (st (.obj n)).Same (st' (.obj n))) : Agree (.ok st) (.ok st')
  | error (e : Stop) : Agree (.error e) (.error e)

section Agreement

variable {q r z f : ℕ} {st : Store} {x : Mpz}

theorem set_mpz_obj (st : Store) (x : Mpz) (n : ℕ) : (st.set .mpz x) (.obj n) = st (.obj n) :=
  Store.set_of_ne _ (by simp) _

theorem Ptr.free_mpz : Ptr.mpz.Free := ⟨by simp, by simp, by simp⟩

theorem Computes.agree {v : ℤ} {st₁ st₂ st₁' st₂' : Store}
    (hsame : ∀ n, st₁ (.obj n) = st₂ (.obj n)) (h : Computes (.obj r) v st₁ st₁')
    (h' : Computes (.obj r) v st₂ st₂') : Agree (.ok st₁') (.ok st₂') := by
  refine Agree.ok fun n => ?_
  by_cases hn : n = r
  · subst hn
    exact h.canonical.same h'.canonical (h.value.trans h'.value.symm)
  · have hne : Ptr.obj n ≠ .obj r := fun heq => hn (Ptr.obj.inj heq)
    have hpads := h.pads _ hne
    rw [hsame n] at hpads
    exact ⟨_, hpads, h'.pads _ hne⟩

theorem mpzAdd_agree (hr : (st (.obj r)).Shape) (hz : (st (.obj z)).Canonical) (hx : x.Canonical)
    (hf : (st (.obj f)).Canonical) (hv : x.value = (st (.obj f)).value) :
    Agree (mpzAdd (.obj r) (.obj z) .mpz (st.set .mpz x))
      (mpzAdd (.obj r) (.obj z) (.obj f) st) := by
  have hobj := set_mpz_obj st x
  have hmpz : (st.set .mpz x) .mpz = x := Store.set_self _ _ _
  obtain ⟨st₁, hadd₁, h₁⟩ := @mpzAdd_computes (.obj r) (.obj z) .mpz (st.set .mpz x)
    (by rwa [hobj]) (by rw [hobj]; exact hz.toShape) (by rwa [hmpz])
  obtain ⟨st₂, hadd₂, h₂⟩ := mpzAdd_computes hr hz.toShape hf
  rw [hobj, hmpz, hv] at h₁
  rw [hadd₁, hadd₂]
  exact h₁.agree hobj h₂

theorem mpzSub_agree (hr : (st (.obj r)).Shape) (hz : (st (.obj z)).Canonical) (hx : x.Canonical)
    (hf : (st (.obj f)).Canonical) (hv : x.value = (st (.obj f)).value) :
    Agree (mpzSub (.obj r) (.obj z) .mpz (st.set .mpz x))
      (mpzSub (.obj r) (.obj z) (.obj f) st) := by
  have hobj := set_mpz_obj st x
  have hmpz : (st.set .mpz x) .mpz = x := Store.set_self _ _ _
  obtain ⟨st₁, hsub₁, h₁⟩ := @mpzSub_computes (.obj r) (.obj z) .mpz (st.set .mpz x)
    (by rwa [hobj]) (by rwa [hobj]) (by rwa [hmpz])
  obtain ⟨st₂, hsub₂, h₂⟩ := mpzSub_computes hr hz hf
  rw [hobj, hmpz, hv] at h₁
  rw [hsub₁, hsub₂]
  exact h₁.agree hobj h₂

/-- What `mpz_mul` leaves. -/
theorem mpzMuliRaw_setSign {m n : ℕ} {zs : Bool} {i : ℕ} (hr : (st (.obj r)).Shape)
    (hz : st (.obj z) = Mpz.of m zs i) (c c' : Bool) (j : ℕ) :
    ∃ st' k, mpzMuliRaw (.obj r) (.obj z) (Mpz.of n c' j).d (Nat.digits base n).length
        (st.setSign (.obj r) c) = .ok st' ∧
      st' (.obj r) = Mpz.of (m * n) (c && m * n ≠ 0) k ∧
      ∀ p, p ≠ r → st' (.obj p) = st (.obj p) := by
  obtain ⟨c₁, hz₁⟩ : ∃ c₁, st.setSign (.obj r) c (.obj z) = Mpz.of m c₁ i := by
    by_cases hzr : z = r
    · subst hzr
      rw [Store.setSign, Store.set_self, hz]
      exact ⟨c, rfl⟩
    · rw [Store.setSign_of_ne _ (by simpa using hzr)]
      exact ⟨zs, hz⟩
  have hr₁ : st.setSign (.obj r) c (.obj r) = { st (.obj r) with s := c } := by
    rw [Store.setSign, Store.set_self]
  obtain ⟨⟨st', k, hraw, hres, hother⟩, -⟩ :=
    mpzMuliRaw_eq (r := .obj r) (by simp) (hr₁ ▸ hr.setSign c) hz₁ n c' j
  rw [hr₁] at hres
  refine ⟨st', k, hraw, hres, fun p hp => ?_⟩
  have hne : Ptr.obj p ≠ .obj r := fun heq => hp (Ptr.obj.inj heq)
  rw [hother _ hne (by simp), Store.setSign_of_ne _ hne]

theorem mpzMul_agree {u : ℕ} (hu : u < base) (c : Bool) (hr : (st (.obj r)).Shape)
    (hz : (st (.obj z)).Canonical) {j : ℕ} (hf : st (.obj f) = Mpz.of u c j) :
    Agree (mpzMuliRaw (.obj r) (.obj z) (immediate u false).d (immediate u false).l
        (st.setSign (.obj r) ((st (.obj z)).s ^^ c)))
      (mpzMul (.obj r) (.obj z) (.obj f) st) := by
  obtain ⟨m, zs, i, hz, -⟩ := hz.exists_of
  obtain ⟨st₁, k₁, hmul₁, hres₁, hother₁⟩ :=
    mpzMuliRaw_setSign hr hz ((st (.obj z)).s ^^ c) false 0 (n := u)
  obtain ⟨⟨st₂, k₂, hmul₂, hres₂, hother₂⟩, -⟩ :=
    mpzMul_eq (r := .obj r) (by simp) hr hz hf
  rw [immediate_eq hu, Mpz.of_l, hmul₁, hmul₂]
  refine Agree.ok fun n => ?_
  by_cases hn : n = r
  · subst hn
    rw [hres₁, hres₂, hz, Mpz.of_s]
    exact Mpz.same_of_iff.mpr ⟨rfl, rfl⟩
  · rw [hother₁ n hn, hother₂ _ (fun heq => hn (Ptr.obj.inj heq)) (by simp)]
    exact Mpz.Same.refl _

/-! ### Division -/

/-- The same numbers were written to the results of two calls. -/
theorem Frame.agree {results results' : List Ptr} {st₁ st₂ st₁' st₂' : Store}
    (hsame : ∀ n, st₁ (.obj n) = st₂ (.obj n)) (h : Frame results st₁ st₁')
    (h' : Frame results' st₂ st₂') (hsub : results ⊆ results')
    (hres : ∀ j, Ptr.obj j ∈ results' →
      ∃ n s, (∃ k, st₁' (.obj j) = Mpz.of n s k) ∧ ∃ k, st₂' (.obj j) = Mpz.of n s k) :
    Agree (.ok st₁') (.ok st₂') := by
  refine Agree.ok fun j => ?_
  by_cases hj : Ptr.obj j ∈ results'
  · obtain ⟨n, s, ⟨k, hk⟩, ⟨k', hk'⟩⟩ := hres j hj
    rw [hk, hk']
    exact Mpz.same_of_iff.mpr ⟨rfl, rfl⟩
  · rw [h _ (Ptr.free_obj j) fun hmem => hj (hsub hmem), h' _ (Ptr.free_obj j) hj, hsame]
    exact Mpz.Same.refl _

variable {m n : ℕ} {zs ds : Bool} {i j j' : ℕ}

theorem mpzTdivQr_agree (hqr : q ≠ r) (hq : (st (.obj q)).Shape) (hr : (st (.obj r)).Shape)
    (hz : st (.obj z) = Mpz.of m zs i) (hf : st (.obj f) = Mpz.of n ds j) :
    Agree (mpzTdivQr (.obj q) (.obj r) (.obj z) .mpz (st.set .mpz (Mpz.of n ds j')))
      (mpzTdivQr (.obj q) (.obj r) (.obj z) (.obj f) st) := by
  have hobj := set_mpz_obj st (Mpz.of n ds j')
  set st₁ := st.set .mpz (Mpz.of n ds j') with hst₁
  have hd₁ : st₁ .mpz = Mpz.of n ds j' := Store.set_self _ _ _
  have hz₁ : st₁ (.obj z) = Mpz.of m zs i := (hobj z).trans hz
  have hq₁ : (st₁ (.obj q)).Shape := by rwa [hobj]
  have hr₁ : (st₁ (.obj r)).Shape := by rwa [hobj]
  have hqr' : Ptr.obj q ≠ .obj r := fun heq => hqr (Ptr.obj.inj heq)
  have hpair : ∀ {a a' : ℕ} {s s' : Bool} {st₁' st₂' : Store},
      (∃ k, st₁' (.obj q) = Mpz.of a s k) → (∃ k, st₂' (.obj q) = Mpz.of a s k) →
      (∃ k, st₁' (.obj r) = Mpz.of a' s' k) → (∃ k, st₂' (.obj r) = Mpz.of a' s' k) →
      ∀ j, Ptr.obj j ∈ [Ptr.obj q, .obj r] →
        ∃ n s, (∃ k, st₁' (.obj j) = Mpz.of n s k) ∧ ∃ k, st₂' (.obj j) = Mpz.of n s k := by
    intro a a' s s' st₁' st₂' hquot₁ hquot₂ hrem₁ hrem₂ j hj
    rcases List.mem_pair.mp hj with hj | hj
    · exact hj ▸ ⟨a, s, hquot₁, hquot₂⟩
    · exact hj ▸ ⟨a', s', hrem₁, hrem₂⟩
  rcases Nat.eq_zero_or_pos n with rfl | hn
  · rw [mpzTdivQr_zero hd₁, mpzTdivQr_zero hf]
    exact Agree.error _
  rcases Nat.lt_trichotomy m n with hlt | rfl | hgt
  · obtain ⟨st₁', h₁, hquot₁, hrem₁, hframe₁⟩ := mpzTdivQr_lt hqr' hq₁ hr₁ hlt hz₁ hd₁
    obtain ⟨st₂', h₂, hquot₂, hrem₂, hframe₂⟩ := mpzTdivQr_lt hqr' hq hr hlt hz hf
    rw [h₁, h₂]
    exact hframe₁.agree hobj hframe₂ (List.Subset.refl _) (hpair hquot₁ hquot₂ hrem₁ hrem₂)
  · obtain ⟨st₁', h₁, hquot₁, hrem₁, hframe₁⟩ :=
      mpzTdivQr_eq (Ptr.free_obj q) (Ptr.free_obj r) hqr' hq₁ hr₁ hn.ne' hz₁ hd₁
    obtain ⟨st₂', h₂, hquot₂, hrem₂, hframe₂⟩ :=
      mpzTdivQr_eq (Ptr.free_obj q) (Ptr.free_obj r) hqr' hq hr hn.ne' hz hf
    rw [h₁, h₂]
    exact hframe₁.agree hobj hframe₂ (List.Subset.refl _) (hpair hquot₁ hquot₂ hrem₁ hrem₂)
  · obtain ⟨st₁', h₁, hquot₁, ⟨c₁, k₁, hrem₁, hc₁⟩, hframe₁⟩ := mpzTdivQr_gt (Ptr.free_obj q)
      (Ptr.free_obj r) (Ptr.free_obj z) Ptr.free_mpz hqr' hq₁ hr₁ hn hgt hz₁ hd₁ rfl
    obtain ⟨st₂', h₂, hquot₂, ⟨c₂, k₂, hrem₂, hc₂⟩, hframe₂⟩ := mpzTdivQr_gt (Ptr.free_obj q)
      (Ptr.free_obj r) (Ptr.free_obj z) (Ptr.free_obj f) hqr' hq hr hn hgt hz hf rfl
    have hcc : c₁ = c₂ := Bool.eq_iff_iff.mpr (hc₁.trans hc₂.symm)
    subst hcc
    rw [h₁, h₂]
    exact hframe₁.agree hobj hframe₂ (List.Subset.refl _)
      (hpair hquot₁ hquot₂ ⟨k₁, hrem₁⟩ ⟨k₂, hrem₂⟩)

theorem mpzTdivR_agree (hr : (st (.obj r)).Shape) (hz : st (.obj z) = Mpz.of m zs i)
    (hf : st (.obj f) = Mpz.of n ds j) :
    Agree (mpzTdivR (.obj r) (.obj z) .mpz (st.set .mpz (Mpz.of n ds j')))
      (mpzTdivR (.obj r) (.obj z) (.obj f) st) := by
  have hobj := set_mpz_obj st (Mpz.of n ds j')
  set st₁ := st.set .mpz (Mpz.of n ds j') with hst₁
  have hd₁ : st₁ .mpz = Mpz.of n ds j' := Store.set_self _ _ _
  have hz₁ : st₁ (.obj z) = Mpz.of m zs i := (hobj z).trans hz
  have hr₁ : (st₁ (.obj r)).Shape := by rwa [hobj]
  have hsingle : ∀ {a : ℕ} {s : Bool} {st₁' st₂' : Store},
      (∃ k, st₁' (.obj r) = Mpz.of a s k) → (∃ k, st₂' (.obj r) = Mpz.of a s k) →
      ∀ j, Ptr.obj j ∈ [Ptr.obj r] →
        ∃ n s, (∃ k, st₁' (.obj j) = Mpz.of n s k) ∧ ∃ k, st₂' (.obj j) = Mpz.of n s k := by
    intro a s st₁' st₂' hrem₁ hrem₂ j hj
    exact List.mem_singleton.mp hj ▸ ⟨a, s, hrem₁, hrem₂⟩
  rcases Nat.eq_zero_or_pos n with rfl | hn
  · rw [mpzTdivR_zero hd₁, mpzTdivR_zero hf]
    exact Agree.error _
  rcases Nat.lt_trichotomy m n with hlt | rfl | hgt
  · obtain ⟨st₁', h₁, hrem₁, hframe₁⟩ := mpzTdivR_lt hr₁ hlt hz₁ hd₁
    obtain ⟨st₂', h₂, hrem₂, hframe₂⟩ := mpzTdivR_lt hr hlt hz hf
    rw [h₁, h₂]
    exact hframe₁.agree hobj hframe₂ (List.Subset.refl _) (hsingle hrem₁ hrem₂)
  · obtain ⟨st₁', h₁, hrem₁, hframe₁⟩ := mpzTdivR_eq hr₁ hn.ne' hz₁ hd₁
    obtain ⟨st₂', h₂, hrem₂, hframe₂⟩ := mpzTdivR_eq hr hn.ne' hz hf
    rw [h₁, h₂]
    exact hframe₁.agree hobj hframe₂ (List.Subset.refl _) (hsingle hrem₁ hrem₂)
  · obtain ⟨st₁', h₁, ⟨c₁, k₁, hrem₁, hc₁⟩, hframe₁⟩ := mpzTdivR_gt (Ptr.free_obj r)
      (Ptr.free_obj z) Ptr.free_mpz hr₁ hn hgt hz₁ hd₁ rfl
    obtain ⟨st₂', h₂, ⟨c₂, k₂, hrem₂, hc₂⟩, hframe₂⟩ := mpzTdivR_gt (Ptr.free_obj r)
      (Ptr.free_obj z) (Ptr.free_obj f) hr hn hgt hz hf rfl
    have hcc : c₁ = c₂ := Bool.eq_iff_iff.mpr (hc₁.trans hc₂.symm)
    subst hcc
    rw [h₁, h₂]
    exact hframe₁.agree hobj hframe₂ (List.Subset.refl _) (hsingle ⟨k₁, hrem₁⟩ ⟨k₂, hrem₂⟩)

/-! ### The quotient that is a remainder -/

theorem Agree.same {st₁ st₂ : Store} (h : Agree (.ok st₁) (.ok st₂)) (n : ℕ) :
    (st₁ (.obj n)).Same (st₂ (.obj n)) := by
  cases h with
  | ok h => exact h n

/-- The quotient and the remainder that are left are one number: there is none, or both are zero, or
they are equal and have one sign. -/
def QuotientAgrees (z d : ℤ) : Prop :=
  d = 0 ∨ z = 0 ∨
    |d| < |z| ∧ (∃ k < d.natAbs, readNum z.natAbs = k * (d.natAbs + 1)) ∧
      ((z < 0 ∧ ∀ k, 0 < readNum z.natAbs / 2 ^ k → ¬d.natAbs ∣ readNum z.natAbs / 2 ^ k) ↔
        Xor (z < 0) (d < 0))

theorem mod_eq_div_iff {a n : ℕ} (hn : 0 < n) : a % n = a / n ↔ ∃ k < n, a = k * (n + 1) := by
  constructor
  · intro h
    refine ⟨a % n, Nat.mod_lt a hn, ?_⟩
    calc a = n * (a / n) + a % n := (Nat.div_add_mod a n).symm
      _ = n * (a % n) + a % n := by rw [h]
      _ = a % n * (n + 1) := by ring
  · rintro ⟨k, hk, rfl⟩
    have hsplit : k * (n + 1) = k + n * k := by ring
    rw [hsplit, Nat.add_mul_mod_self_left, Nat.add_mul_div_left _ _ hn, Nat.mod_eq_of_lt hk,
      Nat.div_eq_of_lt hk, Nat.zero_add]

theorem tdivQ_agree_iff (hq : (st (.obj q)).Shape) (hz : st (.obj z) = Mpz.of m zs i)
    (hzs : m = 0 → zs = false) (hf : st (.obj f) = Mpz.of n ds j) :
    Agree (mpzTdivR (.obj q) (.obj z) .mpz (st.set .mpz (Mpz.of n ds j')))
        (mpzTdivQ (.obj q) (.obj z) (.obj f) st) ↔
      QuotientAgrees (st (.obj z)).value (st (.obj f)).value := by
  have hobj := set_mpz_obj st (Mpz.of n ds j')
  set st₁ := st.set .mpz (Mpz.of n ds j') with hst₁
  have hd₁ : st₁ .mpz = Mpz.of n ds j' := Store.set_self _ _ _
  have hz₁ : st₁ (.obj z) = Mpz.of m zs i := (hobj z).trans hz
  have hq₁ : (st₁ (.obj q)).Shape := by rwa [hobj]
  -- the division of `mpz_tdiv_q` starts with an object for the remainder
  have hstart : ∀ p : ℕ, st.start (.obj p) = st (.obj p) := fun p => st.start_outer (by simp)
  have hqrem : Ptr.obj q ≠ .rem := by simp
  have hq₂ : (st.start (.obj q)).Shape := by rwa [hstart]
  have hz₂ : st.start (.obj z) = Mpz.of m zs i := (hstart z).trans hz
  have hf₂ : st.start (.obj f) = Mpz.of n ds j := (hstart f).trans hf
  have hsame : ∀ p, st₁ (.obj p) = st.start (.obj p) := fun p => (hobj p).trans (hstart p).symm
  have hvz : (st (.obj z)).value.natAbs = m := by rw [hz, Mpz.of_value_natAbs]
  have hvf : (st (.obj f)).value.natAbs = n := by rw [hf, Mpz.of_value_natAbs]
  have hzzero : (st (.obj z)).value = 0 ↔ m = 0 := by rw [hz, Mpz.of_value_eq_zero]
  have hfzero : (st (.obj f)).value = 0 ↔ n = 0 := by rw [hf, Mpz.of_value_eq_zero]
  -- two calls with known results agree if these are equal
  have hresults : ∀ {a a' : ℕ} {s s' : Bool} {st₁' st₂' : Store},
      (∃ k, st₁' (.obj q) = Mpz.of a s k) → (∃ k, st₂' (.obj q) = Mpz.of a' s' k) →
      Frame [.obj q] st₁ st₁' → Frame [.obj q, .rem] st.start st₂' →
      (Agree (.ok st₁') (.ok st₂') ↔ a = a' ∧ s = s') := by
    rintro a a' s s' st₁' st₂' ⟨k₁, hk₁⟩ ⟨k₂, hk₂⟩ hframe₁ hframe₂
    constructor
    · intro h
      have hq := h.same q
      rw [hk₁, hk₂] at hq
      exact Mpz.same_of_iff.mp hq
    · rintro ⟨rfl, rfl⟩
      refine hframe₁.agree hsame hframe₂ (by simp) fun j hj => ?_
      rcases List.mem_pair.mp hj with hj | hj
      · exact hj ▸ ⟨a, s, ⟨k₁, hk₁⟩, ⟨k₂, hk₂⟩⟩
      · simp at hj
  rw [QuotientAgrees, hvz, hvf, hzzero, hfzero, Int.abs_eq_natAbs, Int.abs_eq_natAbs, hvz, hvf,
    Nat.cast_lt]
  rw [show mpzTdivQ (.obj q) (.obj z) (.obj f) st =
    mpzTdivQr (.obj q) .rem (.obj z) (.obj f) st.start from rfl]
  rcases Nat.eq_zero_or_pos n with rfl | hn
  · rw [mpzTdivR_zero hd₁, mpzTdivQr_zero hf₂]
    exact ⟨fun _ => Or.inl rfl, fun _ => Agree.error _⟩
  rcases Nat.lt_trichotomy m n with hlt | rfl | hgt
  · obtain ⟨st₁', h₁, hrem₁, hframe₁⟩ := mpzTdivR_lt hq₁ hlt hz₁ hd₁
    obtain ⟨st₂', h₂, hquot₂, -, hframe₂⟩ := mpzTdivQr_lt hqrem hq₂ st.start_rem hlt hz₂ hf₂
    rw [h₁, h₂, hresults hrem₁ hquot₂ hframe₁ hframe₂]
    constructor
    · rintro ⟨hm, -⟩
      exact Or.inr (Or.inl hm)
    · rintro (hzero | hm | ⟨hcon, -⟩)
      · exact absurd hzero hn.ne'
      · exact ⟨hm, hzs hm⟩
      · exact absurd hcon hlt.asymm
  · obtain ⟨st₁', h₁, hrem₁, hframe₁⟩ := mpzTdivR_eq hq₁ hn.ne' hz₁ hd₁
    obtain ⟨st₂', h₂, hquot₂, -, hframe₂⟩ := mpzTdivQr_eq (Ptr.free_obj q) Ptr.free_rem hqrem hq₂
      st.start_rem hn.ne' hz₂ hf₂
    rw [h₁, h₂, hresults hrem₁ hquot₂ hframe₁ hframe₂]
    constructor
    · rintro ⟨hcon, -⟩
      exact absurd hcon Nat.zero_ne_one
    · rintro (hzero | hzero | ⟨hcon, -⟩)
      · exact absurd hzero hn.ne'
      · exact absurd hzero hn.ne'
      · exact absurd hcon (lt_irrefl _)
  · obtain ⟨st₁', h₁, ⟨c, k₁, hrem₁, hc⟩, hframe₁⟩ := mpzTdivR_gt (Ptr.free_obj q)
      (Ptr.free_obj z) Ptr.free_mpz hq₁ hn hgt hz₁ hd₁ rfl
    obtain ⟨st₂', h₂, hquot₂, -, hframe₂⟩ := mpzTdivQr_gt (Ptr.free_obj q) Ptr.free_rem
      (Ptr.free_obj z) (Ptr.free_obj f) hqrem hq₂ st.start_rem hn hgt hz₂ hf₂ rfl
    rw [h₁, h₂, hresults ⟨k₁, hrem₁⟩ hquot₂ hframe₁ hframe₂, mod_eq_div_iff hn]
    have hneg : ∀ {a : ℕ} (ha : 0 < a) (s : Bool) (l : ℕ), (Mpz.of a s l).value < 0 ↔ s = true := by
      intro a ha s l
      rw [Mpz.of_value]
      cases s <;> simp [ha]
    have hsign : c = (zs ^^ ds) ↔
        (((st (.obj z)).value < 0 ∧ ∀ k, 0 < readNum m / 2 ^ k → ¬n ∣ readNum m / 2 ^ k) ↔
          Xor ((st (.obj z)).value < 0) ((st (.obj f)).value < 0)) := by
      rw [hz, hf, hneg (by omega), hneg hn, Bool.eq_iff_iff, hc]
      refine iff_congr Iff.rfl ?_
      cases zs <;> cases ds <;> simp [Xor]
    rw [hsign]
    constructor
    · rintro ⟨hk, hs⟩
      exact Or.inr (Or.inr ⟨hgt, hk, hs⟩)
    · rintro (hzero | hzero | ⟨-, hk, hs⟩)
      · exact absurd hzero hn.ne'
      · omega
      · exact ⟨hk, hs⟩

/-! ### Assignment -/

theorem set_agree {p : Ptr} (hp : ∀ n, Ptr.obj n ≠ p) {x y : Mpz} (h : x.Same y) (x₀ : Mpz) :
    Agree (.ok ((st.set p x₀).set (.obj r) x)) (.ok (st.set (.obj r) y)) := by
  refine Agree.ok fun n => ?_
  by_cases hn : n = r
  · subst hn
    rwa [Store.set_self, Store.set_self]
  · have hne : Ptr.obj n ≠ .obj r := fun heq => hn (Ptr.obj.inj heq)
    rw [Store.set_of_ne _ hne, Store.set_of_ne _ hne, Store.set_of_ne _ (hp n)]
    exact Mpz.Same.refl _

theorem mpzSetUi_agree {u : ℕ} (hu : u < base) (hr : (st (.obj r)).Shape) (hrf : r ≠ f)
    (hf : st (.obj f) = Mpz.of u false j) :
    Agree (mpzSetUi (.obj r) u st) (mpzSet (.obj r) (.obj f) st) := by
  obtain ⟨k₁, -, h₁⟩ := mpzSetUi_eq (z := .obj r) (by simp) hr hu
  obtain ⟨k₂, -, h₂⟩ := mpzSet_eq (d := .obj r) (s := .obj f) (by simpa using hrf) hr hf
  rw [h₁, h₂]
  exact set_agree (by simp) (Mpz.same_of_iff.mpr ⟨rfl, rfl⟩) _

theorem mpzSetSi_agree {s : ℤ} (hs : s.natAbs < base) (hr : (st (.obj r)).Shape) (hrf : r ≠ f)
    (hf : st (.obj f) = Mpz.of s.natAbs (s < 0) j) :
    Agree (mpzSetSi (.obj r) s st) (mpzSet (.obj r) (.obj f) st) := by
  obtain ⟨k₁, -, h₁⟩ := mpzSetUi_eq (z := .obj r) (by simp) hr hs
  obtain ⟨k₂, -, h₂⟩ := mpzSet_eq (d := .obj r) (s := .obj f) (by simpa using hrf) hr hf
  rw [mpzSetUi] at h₁
  rw [mpzSetSi, h₁, h₂]
  by_cases hneg : s < 0
  · simp only [bind, Except.bind, if_pos hneg, Store.set_self, Store.set_set]
    exact set_agree (by simp) (Mpz.same_of_iff.mpr ⟨rfl, by simp [hneg]⟩) _
  · simp only [bind, Except.bind, if_neg hneg]
    exact set_agree (by simp) (Mpz.same_of_iff.mpr ⟨rfl, by simp [hneg]⟩) _

end Agreement

/-! ### All the variants -/

/-- The variants do what the general functions do with objects that hold the immediate operands:
the unsigned one is in `fu`, the signed one in `fs`. -/
structure ImmediatesAgree (q r z fu fs : Ptr) (u : ℕ) (s : ℤ) (st : Store) : Prop where
  cmpabsUi : mpzCmpabsUi (st z) u = mpzCmpabs (st z) (st fu)
  cmpUi : mpzCmpUi (st z) u = mpzCmp (st z) (st fu)
  cmpSi : mpzCmpSi (st z) s = mpzCmp (st z) (st fs)
  setUi : Agree (mpzSetUi r u st) (mpzSet r fu st)
  setSi : Agree (mpzSetSi r s st) (mpzSet r fs st)
  addUi : Agree (mpzAddUi r z u st) (mpzAdd r z fu st)
  addSi : Agree (mpzAddSi r z s st) (mpzAdd r z fs st)
  subUi : Agree (mpzSubUi r z u st) (mpzSub r z fu st)
  subSi : Agree (mpzSubSi r z s st) (mpzSub r z fs st)
  mulUi : Agree (mpzMulUi r z u st) (mpzMul r z fu st)
  mulSi : Agree (mpzMulSi r z s st) (mpzMul r z fs st)
  tdivQrUi : Agree (mpzTdivQrUi q r z u st) (mpzTdivQr q r z fu st)
  tdivQrSi : Agree (mpzTdivQrSi q r z s st) (mpzTdivQr q r z fs st)
  tdivRUi : Agree (mpzTdivRUi r z u st) (mpzTdivR r z fu st)
  tdivRSi : Agree (mpzTdivRSi r z s st) (mpzTdivR r z fs st)
  tdivQUi : Agree (mpzTdivQUi q z u st) (mpzTdivQ q z fu st)
  tdivQSi : Agree (mpzTdivQSi q z s st) (mpzTdivQ q z fs st)

/-- A number that has the value of an integer of the machine. -/
theorem Mpz.Canonical.eq_of {x : Mpz} (h : x.Canonical) {v : ℤ} (hv : x.value = v) :
    ∃ j, x = Mpz.of v.natAbs (v < 0) j := by
  obtain ⟨n, s, j, rfl, hs⟩ := h.exists_of
  rw [← hv, Mpz.of_value_natAbs]
  refine ⟨j, ?_⟩
  congr 1
  rw [Mpz.of_value]
  cases s with
  | false => simp
  | true =>
    have hn : n ≠ 0 := fun hzero => absurd (hs hzero) (by simp)
    simp [Nat.pos_of_ne_zero hn]

section Main

variable {q r z fu fs u : ℕ} {s : ℤ} {st : Store}

/-- **The variants agree with the general functions**, but for the two that should leave a quotient:
these agree where the remainder is the same number, and nowhere else. -/
theorem immediates_agree_iff (hu : u < 2 ^ 32) (hs : -2 ^ 31 ≤ s ∧ s < 2 ^ 31)
    (hz : (st (.obj z)).Canonical) (hq : (st (.obj q)).Shape) (hr : (st (.obj r)).Shape)
    (hqr : q ≠ r) (hfu : (st (.obj fu)).Canonical ∧ (st (.obj fu)).value = u ∧ r ≠ fu)
    (hfs : (st (.obj fs)).Canonical ∧ (st (.obj fs)).value = s ∧ r ≠ fs) :
    ImmediatesAgree (.obj q) (.obj r) (.obj z) (.obj fu) (.obj fs) u s st ↔
      QuotientAgrees (st (.obj z)).value u ∧ QuotientAgrees (st (.obj z)).value s := by
  obtain ⟨hfuc, hfuv, hrfu⟩ := hfu
  obtain ⟨hfsc, hfsv, hrfs⟩ := hfs
  have hs' : s.natAbs < base := by
    rw [base]
    omega
  obtain ⟨ju, hfu⟩ : ∃ j, st (.obj fu) = Mpz.of u false j := by
    obtain ⟨j, hj⟩ := hfuc.eq_of hfuv
    rw [Int.natAbs_natCast, decide_eq_false (Int.not_lt.mpr (Int.natCast_nonneg u))] at hj
    exact ⟨j, hj⟩
  obtain ⟨js, hfs⟩ := hfsc.eq_of hfsv
  have hiu : immediate u false = Mpz.of u false 0 := immediate_eq hu false
  have his : immediate s.natAbs (s < 0) = Mpz.of s.natAbs (s < 0) 0 := immediate_eq hs' _
  have hiuc : (immediate u false).Canonical := hiu ▸ Mpz.canonical_of (fun _ => rfl) 0
  have hisc : (immediate s.natAbs (s < 0)).Canonical := by
    rw [his]
    exact Mpz.canonical_of (fun hzero => by simp; omega) 0
  have hiuv : (immediate u false).value = (st (.obj fu)).value := by
    rw [hiu, hfu, Mpz.of_value, Mpz.of_value]
  have hisv : (immediate s.natAbs (s < 0)).value = (st (.obj fs)).value := by
    rw [his, hfs, Mpz.of_value, Mpz.of_value]
  obtain ⟨m, zs, i, hzof, hzs⟩ := hz.exists_of
  have hquot := @tdivQ_agree_iff _ _ _ _ _ _ _ _ _ _ 0 hq hzof hzs hfu
  have hquot' := @tdivQ_agree_iff _ _ _ _ _ _ _ _ _ _ 0 hq hzof hzs hfs
  rw [← hiu, hfuv] at hquot
  rw [← his, hfsv] at hquot'
  constructor
  · intro h
    exact ⟨hquot.mp h.tdivQUi, hquot'.mp h.tdivQSi⟩
  · rintro ⟨hagree, hagree'⟩
    have htrim := hz.toShape.trimmed
    have hmulUi := mpzMul_agree (r := r) hu false hr hz hfu
    rw [Bool.xor_false] at hmulUi
    have hqrUi := @mpzTdivQr_agree _ _ _ _ _ _ _ _ _ _ _ 0 hqr hq hr hzof hfu
    have hqrSi := @mpzTdivQr_agree _ _ _ _ _ _ _ _ _ _ _ 0 hqr hq hr hzof hfs
    have hrUi := @mpzTdivR_agree _ _ _ _ _ _ _ _ _ _ 0 hr hzof hfu
    have hrSi := @mpzTdivR_agree _ _ _ _ _ _ _ _ _ _ 0 hr hzof hfs
    rw [← hiu] at hqrUi hrUi
    rw [← his] at hqrSi hrSi
    exact
      { cmpabsUi := by
          rw [mpzCmpabsUi, mpzCmpabs_eq htrim hiuc.toShape.trimmed,
            mpzCmpabs_eq htrim hfuc.toShape.trimmed, hiuv]
        cmpUi := by
          rw [mpzCmpUi, mpzCmp_eq htrim hiuc.toShape.trimmed, mpzCmp_eq htrim hfuc.toShape.trimmed,
            hiuv]
        cmpSi := by
          rw [mpzCmpSi, mpzCmp_eq htrim hisc.toShape.trimmed, mpzCmp_eq htrim hfsc.toShape.trimmed,
            hisv]
        setUi := mpzSetUi_agree hu hr hrfu hfu
        setSi := mpzSetSi_agree hs' hr hrfs hfs
        addUi := mpzAdd_agree hr hz hiuc hfuc hiuv
        addSi := mpzAdd_agree hr hz hisc hfsc hisv
        subUi := mpzSub_agree hr hz hiuc hfuc hiuv
        subSi := mpzSub_agree hr hz hisc hfsc hisv
        mulUi := hmulUi
        mulSi := mpzMul_agree hs' _ hr hz hfs
        tdivQrUi := hqrUi
        tdivQrSi := hqrSi
        tdivRUi := hrUi
        tdivRSi := hrSi
        tdivQUi := hquot.mpr hagree
        tdivQSi := hquot'.mpr hagree' }

/-- Seven by two: what `mpz_tdiv_q_ui` leaves is one, and not three. -/
theorem immediates_disagree :
    (words 7 2 (.obj 2)).value = 7 ∧ (words 7 2 (.obj 3)).value = 2 ∧
      ¬ImmediatesAgree (.obj 0) (.obj 1) (.obj 2) (.obj 3) (.obj 3) 2 2 (words 7 2) := by
  refine ⟨by decide, by decide, fun h => ?_⟩
  have hz : words 7 2 (.obj 2) = Mpz.of 7 false 0 := immediate_eq (by decide) false
  have hf : words 7 2 (.obj 3) = Mpz.of 2 false 0 := immediate_eq (by decide) false
  have hi : immediate 2 false = Mpz.of 2 false 0 := immediate_eq (by decide) false
  have hquot := h.tdivQUi
  rw [mpzTdivQUi, withUi, hi, tdivQ_agree_iff Mpz.init_shape hz (fun _ => rfl) hf, hz, hf,
    Mpz.of_value, Mpz.of_value] at hquot
  have hread : readNum 7 = 7 :=
    readNum_eq ((Nat.size_le.mpr (show 7 < 2 ^ 3 by decide)).trans (by decide))
  rcases hquot with hzero | hzero | ⟨-, ⟨k, hk, heq⟩, -⟩
  · exact absurd hzero (by decide)
  · exact absurd hzero (by decide)
  · change readNum 7 = k * 3 at heq
    omega

/-- Three by two: the quotient and the remainder are one. -/
theorem immediates_agree_three :
    ImmediatesAgree (.obj 0) (.obj 1) (.obj 2) (.obj 3) (.obj 3) 2 2 (words 3 2) := by
  have hz : words 3 2 (.obj 2) = Mpz.of 3 false 0 := immediate_eq (by decide) false
  have hf : words 3 2 (.obj 3) = Mpz.of 2 false 0 := immediate_eq (by decide) false
  have hfc : (words 3 2 (.obj 3)).Canonical := hf ▸ Mpz.canonical_of (fun _ => rfl) 0
  have hread : readNum 3 = 3 :=
    readNum_eq ((Nat.size_le.mpr (show 3 < 2 ^ 2 by decide)).trans (by decide))
  have hagree : QuotientAgrees (words 3 2 (.obj 2)).value 2 := by
    rw [hz, Mpz.of_value]
    refine Or.inr (Or.inr ⟨by decide, ⟨1, by decide, hread⟩, ?_⟩)
    simp [Xor]
  refine (immediates_agree_iff (by decide) (by decide) (hz ▸ Mpz.canonical_of (fun _ => rfl) 0)
    Mpz.init_shape Mpz.init_shape (by decide) ⟨hfc, ?_, by decide⟩ ⟨hfc, ?_, by decide⟩).mpr
    ⟨hagree, hagree⟩
  · rw [hf, Mpz.of_value]
    rfl
  · rw [hf, Mpz.of_value]
    rfl

end Main

end StyxWire.Sbn
