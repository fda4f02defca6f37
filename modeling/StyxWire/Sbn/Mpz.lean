import Mathlib.Data.Nat.Size
import Mathlib.Logic.Function.Basic
import StyxWire.Lib.Bytes
import StyxWire.Lib.Limbs

/-!
# Bignums

The numbers of `sbignum.c`: an allocated block of 32-bit words, of which the first `l` are in
use, and a sign. The functions of the library take pointers to them, and the objects behind
these may be the same one; so they are functions on a store (`StyxWire.Sbn.Store`) here, from
the pointers to the numbers. The local variables of a function, and the copies it makes on
the stack, have pointers of their own.

Every access to a block is checked: one that is outside the allocated words ends the run
(`StyxWire.Sbn.Stop.fault`). There is always enough memory. The lengths and the sizes of the
blocks are natural numbers, as are the addresses: where a block is, and that it may move when
it grows, is not modelled.

A number that is as it should be is the list of the digits of its magnitude, and zeros
(`StyxWire.Sbn.Mpz.of`): this is what the functions are computed on later.
-/

namespace StyxWire.Sbn

open Limbs

/-- `MPZ_BASE`. -/
def base : ℕ := 2 ^ 32

theorem one_lt_base : 1 < base := by decide

theorem base_pos : 0 < base := by decide

/-- `ATOMBITS`. -/
def atombits : ℕ := 32

/-- `struct struct_sbnz`. The number of the words that are allocated is the length of `d`. -/
structure Mpz where
  /-- The words, the lowest one first. -/
  d : List ℕ
  /-- The number of them that are used. -/
  l : ℕ
  /-- Whether it is negative. -/
  s : Bool
  deriving DecidableEq, Repr

/-- The number of the words that are allocated. -/
def Mpz.a (z : Mpz) : ℕ := z.d.length

/-- How a function ends that does not return `SBN_OK`. -/
inductive Stop
  /-- It returns `SBN_INVAL`. -/
  | inval
  /-- It accesses a word that is not allocated. -/
  | fault
  /-- The result of an operation is no `int`. -/
  | overflow
  /-- It does not return. -/
  | forever
  deriving DecidableEq, Repr

theorem ok_bind {α β : Type} (a : α) (f : α → Except Stop β) : (Except.ok a >>= f) = f a := rfl

theorem error_bind {α β : Type} (e : Stop) (f : α → Except Stop β) :
    (Except.error e >>= f) = .error e := rfl

/-- Some of the words. -/
def Mpz.read (z : Mpz) (i n : ℕ) : Except Stop (List ℕ) :=
  if i + n ≤ z.d.length then .ok ((z.d.drop i).take n) else .error .fault

/-- Some of the words are written. -/
def Mpz.write (z : Mpz) (i : ℕ) (ws : List ℕ) : Except Stop Mpz :=
  if i + ws.length ≤ z.d.length then .ok { z with d := Mem.writeAt z.d i ws } else .error .fault

theorem Mpz.read_middle (low mid high : List ℕ) (l : ℕ) (s : Bool) :
    Mpz.read ⟨low ++ mid ++ high, l, s⟩ low.length mid.length = .ok mid := by
  rw [read, if_pos (by simp), List.append_assoc, List.drop_left, List.take_left]

theorem Mpz.write_middle (low : List ℕ) {mid mid' : List ℕ} (h : mid'.length = mid.length)
    (high : List ℕ) (l : ℕ) (s : Bool) :
    Mpz.write ⟨low ++ mid ++ high, l, s⟩ low.length mid' = .ok ⟨low ++ mid' ++ high, l, s⟩ := by
  have hfits : low.length + mid'.length ≤ (low ++ mid ++ high).length := by simp [h]
  rw [write, if_pos hfits, Mem.writeAt_eq hfits, List.append_assoc low mid high, List.take_left,
    List.drop_length_add_append, h, List.drop_left]

/-! ### Allocation -/

/-- `mpz_init`. -/
def Mpz.init : Mpz := ⟨[], 0, false⟩

/-- `mpz_realloc`. The words that are added are zero. -/
def Mpz.realloc (z : Mpz) (i : ℕ) : Mpz :=
  if i < z.d.length then z else { z with d := z.d ++ List.replicate (i + 1 - z.d.length) 0 }

/-- `mpz_normalize`. -/
def Mpz.normalize (z : Mpz) : Mpz :=
  if z.d = [] then z
  else { z with l := size z.d, s := if size z.d = 0 then false else z.s }

/-- `_mpz_normalize`. -/
def Mpz.normalizeLength (z : Mpz) : Mpz := { z with l := size z.d }

/-- `mpz_zero`. -/
def Mpz.zero (z : Mpz) : Except Stop Mpz :=
  if z.l = 0 then .ok z
  else do
    let z ← z.write 0 (List.replicate z.l 0)
    return { z with l := 0 }

/-- `mpz_zero_realloc`. -/
def Mpz.zeroRealloc (z : Mpz) (i : ℕ) : Except Stop Mpz := (z.realloc i).zero

/-! ### The store -/

/-- The pointers: to an object of the caller, to a local variable, or to a copy on the stack. -/
inductive Ptr
  | obj (n : ℕ)
  /-- `mpz` of the immediate variants. -/
  | mpz
  /-- `mpz` of `mpz_set_ui` and `mpz_set_si`. -/
  | mpzSet
  /-- `rt` of `mpz_muli_raw`. -/
  | rt
  /-- The copies of `mpz_tdiv_qr` and `mpz_tdiv_r`. -/
  | cloneZ
  | cloneD
  /-- `r` of `mpz_tdiv_q`. -/
  | rem
  /-- The copy of `mpz_mod`. -/
  | cloneM
  /-- The copy, and `B` and `E`, of `mpz_pow` and `mpz_powm`. -/
  | clonePowm
  | B
  | E
  /-- `pow` and `toadd` of `mpz_set_str`. -/
  | pow
  | toadd
  /-- The copies of `mpz_gcd_raw`, and its `t`. -/
  | cloneA
  | cloneB
  | diff
  /-- The copy of `mpz_sqrt`, and its `s`, `R` and `X`. -/
  | cloneSqrt
  | S
  | R
  | X
  /-- `t` of `mpz_tostr`. -/
  | t
  deriving DecidableEq, Repr

/-- The numbers behind the pointers. -/
abbrev Store := Ptr → Mpz

/-- A number is changed. -/
def Store.set (st : Store) (p : Ptr) (z : Mpz) : Store := Function.update st p z

@[simp]
theorem Store.set_self (st : Store) (p : Ptr) (z : Mpz) : (st.set p z) p = z := by
  rw [Store.set, Function.update_self]

@[simp]
theorem Store.set_of_ne (st : Store) {p q : Ptr} (h : q ≠ p) (z : Mpz) : (st.set p z) q = st q := by
  rw [Store.set, Function.update_of_ne h]

theorem Store.set_comm (st : Store) {p q : Ptr} (h : p ≠ q) (z z' : Mpz) :
    (st.set p z).set q z' = (st.set q z').set p z := by
  simp only [Store.set, Function.update_comm h]

@[simp]
theorem Store.set_set (st : Store) (p : Ptr) (z z' : Mpz) : (st.set p z).set p z' = st.set p z' := by
  rw [Store.set, Store.set, Function.update_idem, Store.set]

/-- `_mpz_clone_stack`, if the object is a result, too. -/
def Store.clone (st : Store) (p copy : Ptr) (results : List Ptr) : Ptr × Store :=
  if p ∈ results then (copy, st.set copy (st p)) else (p, st)

/-! ### Assignment -/

/-- `u32tompz` and `u32pack`, and a sign. -/
def immediate (u : ℕ) (s : Bool) : Mpz := ⟨if u = 0 then [] else [u], if u = 0 then 0 else 1, s⟩

/-- `mpz_set`. -/
def mpzSet (d s : Ptr) (st : Store) : Except Stop Store := do
  let st := st.set d (← (st d).zeroRealloc (st s).l)
  let ws ← (st s).read 0 (st s).l
  let dest ← (st d).write 0 ws
  return st.set d { dest with l := (st s).l, s := (st s).s }

/-- `mpz_set`, unless it is the same object. -/
def mpzSetOther (d s : Ptr) (st : Store) : Except Stop Store :=
  if d ≠ s then mpzSet d s st else .ok st

/-- `mpz_setzero`. -/
def mpzSetzero (z : Ptr) (st : Store) : Except Stop Store := do
  return st.set z (← Mpz.zeroRealloc { st z with s := false } 0)

/-- `mpz_set_ui`. -/
def mpzSetUi (z : Ptr) (u : ℕ) (st : Store) : Except Stop Store :=
  mpzSet z .mpzSet (st.set .mpzSet (immediate u false))

/-- `mpz_set_si`. -/
def mpzSetSi (z : Ptr) (s : ℤ) (st : Store) : Except Stop Store := do
  let st ← mpzSet z .mpzSet (st.set .mpzSet (immediate s.natAbs false))
  return if s < 0 then st.set z { st z with s := !(st z).s } else st

/-- `mpz_set_ui64`. The loop takes off one word after the other; the words that were used before are
not cleared. -/
def mpzSetUi64 (z : Ptr) (u : ℕ) (st : Store) : Except Stop Store := do
  let dest := Mpz.realloc { st z with s := false } 8
  let dest ← dest.write 0 (Nat.digits base u)
  return st.set z { dest with l := (Nat.digits base u).length }

/-- `mpz_set_si64`. -/
def mpzSetSi64 (z : Ptr) (s : ℤ) (st : Store) : Except Stop Store := do
  let st ← mpzSetUi64 z s.natAbs st
  return st.set z { st z with s := s < 0 }

/-- `mpz_abs`. -/
def mpzAbs (d s : Ptr) (st : Store) : Except Stop Store := do
  let st ← mpzSetOther d s st
  return st.set d { st d with s := false }

/-- `mpz_neg`. -/
def mpzNeg (d s : Ptr) (st : Store) : Except Stop Store := do
  let st ← mpzSetOther d s st
  return st.set d { st d with s := !(st d).s }

/-! ### Numbers that are as they should be -/

/-- The magnitude. -/
def Mpz.mag (z : Mpz) : ℕ := Nat.ofDigits base (z.d.take z.l)

/-- The number. -/
def Mpz.value (z : Mpz) : ℤ := if z.s then -z.mag else z.mag

/-- The words are as they should be: the used ones are allocated, the last one of them is not
zero, and those that are not used are zero. -/
structure Mpz.Shape (z : Mpz) : Prop where
  le : z.l ≤ z.a
  lt : ∀ w ∈ z.d, w < base
  top : z.l ≠ 0 → z.d.getD (z.l - 1) 0 ≠ 0
  stale : ∀ w ∈ z.d.drop z.l, w = 0

/-- A bignum that is canonical: besides, zero is not negative. -/
structure Mpz.Canonical (z : Mpz) : Prop extends z.Shape where
  sign : z.l = 0 → z.s = false

/-- The number with a magnitude and a sign, and some words to spare. -/
def Mpz.of (n : ℕ) (s : Bool) (k : ℕ) : Mpz :=
  ⟨Nat.digits base n ++ List.replicate k 0, (Nat.digits base n).length, s⟩

@[simp]
theorem Mpz.of_l (n : ℕ) (s : Bool) (k : ℕ) : (Mpz.of n s k).l = (Nat.digits base n).length := rfl

@[simp]
theorem Mpz.of_s (n : ℕ) (s : Bool) (k : ℕ) : (Mpz.of n s k).s = s := rfl

@[simp]
theorem Mpz.of_d (n : ℕ) (s : Bool) (k : ℕ) :
    (Mpz.of n s k).d = Nat.digits base n ++ List.replicate k 0 := rfl

@[simp]
theorem Mpz.of_d_length (n : ℕ) (s : Bool) (k : ℕ) :
    (Mpz.of n s k).d.length = (Nat.digits base n).length + k := by
  rw [Mpz.of_d, List.length_append, List.length_replicate]

@[simp]
theorem Mpz.of_mag (n : ℕ) (s : Bool) (k : ℕ) : (Mpz.of n s k).mag = n := by
  rw [Mpz.mag, of_d, of_l, List.take_left, Nat.ofDigits_digits]

theorem digits_length_eq_zero {n : ℕ} : (Nat.digits base n).length = 0 ↔ n = 0 := by
  rw [List.length_eq_zero_iff, Nat.digits_eq_nil_iff_eq_zero]

/-- **The shape of a number** is that of its digits. -/
theorem Mpz.shape_iff {z : Mpz} : z.Shape ↔ ∃ k, z = Mpz.of z.mag z.s k := by
  constructor
  · intro h
    have hproper : Proper base z.d := h.lt
    have hlen : (z.d.take z.l).length = z.l := List.length_take_of_le h.le
    have hlast : ∀ hne : z.d.take z.l ≠ [], (z.d.take z.l).getLast hne ≠ 0 := by
      intro hne
      have hl : z.l ≠ 0 := fun hzero => hne (by rw [hzero, List.take_zero])
      have htop := h.top hl
      have hle : z.l ≤ z.d.length := h.le
      rw [List.getLast_eq_getElem]
      rw [List.getD_eq_getElem _ _ (by omega)] at htop
      simpa [hlen] using htop
    have hdigits := eq_digits (hproper.take z.l) one_lt_base hlast
    have hstale : z.d.drop z.l = List.replicate (z.d.length - z.l) 0 :=
      List.eq_replicate_iff.mpr ⟨List.length_drop, h.stale⟩
    refine ⟨z.d.length - z.l, ?_⟩
    obtain ⟨d, l, s⟩ := z
    refine Mpz.mk.injEq .. |>.mpr ⟨?_, ?_, rfl⟩
    · rw [Mpz.mag, ← hdigits, ← hstale, List.take_append_drop]
    · rw [Mpz.mag, ← hdigits, hlen]
  · rintro ⟨k, h⟩
    rw [h]
    refine ⟨?_, ?_, fun hl => ?_, ?_⟩
    · rw [Mpz.a, of_d_length, of_l]
      exact Nat.le_add_right _ _
    · exact proper_append.mpr ⟨proper_digits one_lt_base _, proper_replicate_zero base_pos k⟩
    · have hne : Nat.digits base z.mag ≠ [] := List.ne_nil_of_length_pos (Nat.pos_of_ne_zero hl)
      have hlt : (Nat.digits base z.mag).length - 1 < (Nat.digits base z.mag).length :=
        Nat.sub_lt (Nat.pos_of_ne_zero hl) Nat.one_pos
      have hlast := Nat.getLast_digit_ne_zero base
        (fun hzero => hne (Nat.digits_eq_nil_iff_eq_zero.mpr hzero))
      rw [List.getLast_eq_getElem] at hlast
      rw [of_d, of_l, List.getD_append _ _ _ _ hlt, List.getD_eq_getElem _ _ hlt]
      exact hlast
    · rw [of_d, of_l, List.drop_left]
      exact fun w hw => List.eq_of_mem_replicate hw

theorem Mpz.shape_of (n : ℕ) (s : Bool) (k : ℕ) : (Mpz.of n s k).Shape :=
  Mpz.shape_iff.mpr ⟨k, by rw [of_mag, of_s]⟩

theorem Mpz.Shape.exists_of {z : Mpz} (h : z.Shape) : ∃ n s k, z = Mpz.of n s k := by
  obtain ⟨k, hk⟩ := Mpz.shape_iff.mp h
  exact ⟨z.mag, z.s, k, hk⟩

theorem Mpz.canonical_of {n : ℕ} {s : Bool} (h : n = 0 → s = false) (k : ℕ) :
    (Mpz.of n s k).Canonical :=
  ⟨Mpz.shape_of n s k, fun hl => h (digits_length_eq_zero.mp hl)⟩

theorem Mpz.Canonical.exists_of {z : Mpz} (h : z.Canonical) :
    ∃ n s k, z = Mpz.of n s k ∧ (n = 0 → s = false) := by
  obtain ⟨n, s, k, rfl⟩ := h.toShape.exists_of
  exact ⟨n, s, k, rfl, fun hn => h.sign (digits_length_eq_zero.mpr hn)⟩

theorem Mpz.of_value (n : ℕ) (s : Bool) (k : ℕ) :
    (Mpz.of n s k).value = if s then -(n : ℤ) else n := by
  rw [Mpz.value, of_mag, of_s]

theorem Mpz.of_value_eq_zero {n : ℕ} {s : Bool} {k : ℕ} : (Mpz.of n s k).value = 0 ↔ n = 0 := by
  rw [of_value]
  cases s <;> simp

theorem Mpz.of_value_natAbs (n : ℕ) (s : Bool) (k : ℕ) : (Mpz.of n s k).value.natAbs = n := by
  rw [of_value]
  cases s <;> simp

/-- A number with more words to spare. -/
def Mpz.Pads (z z' : Mpz) : Prop := ∃ k, z' = { z with d := z.d ++ List.replicate k 0 }

theorem Mpz.Pads.refl (z : Mpz) : z.Pads z := ⟨0, by rw [List.replicate_zero, List.append_nil]⟩

theorem Mpz.Pads.trans {z z' z'' : Mpz} (h : z.Pads z') (h' : z'.Pads z'') : z.Pads z'' := by
  obtain ⟨k, rfl⟩ := h
  obtain ⟨k', rfl⟩ := h'
  exact ⟨k + k', by rw [List.append_assoc, List.replicate_append_replicate]⟩

theorem Mpz.pads_of (n : ℕ) (s : Bool) (k j : ℕ) : (Mpz.of n s k).Pads (Mpz.of n s (k + j)) :=
  ⟨j, by rw [of, of, List.append_assoc, List.replicate_append_replicate]⟩

/-- It is the same number. -/
theorem Mpz.Shape.pads {z z' : Mpz} (h : z.Shape) (hpads : z.Pads z') :
    z'.Shape ∧ z'.mag = z.mag ∧ z'.s = z.s := by
  obtain ⟨n, s, k, rfl⟩ := h.exists_of
  obtain ⟨j, rfl⟩ := hpads
  have hof : { Mpz.of n s k with d := (Mpz.of n s k).d ++ List.replicate j 0 } =
      Mpz.of n s (k + j) := by
    rw [of, of, List.append_assoc, List.replicate_append_replicate]
  rw [hof]
  exact ⟨shape_of _ _ _, by rw [of_mag, of_mag], rfl⟩

theorem Mpz.Canonical.pads {z z' : Mpz} (h : z.Canonical) (hpads : z.Pads z') :
    z'.Canonical ∧ z'.value = z.value := by
  obtain ⟨hshape, hmag, hs⟩ := h.toShape.pads hpads
  obtain ⟨j, rfl⟩ := hpads
  exact ⟨⟨hshape, h.sign⟩, by rw [value, value, hmag]⟩

/-! ### The functions on such numbers -/

theorem Mpz.of_zero (s : Bool) (k : ℕ) : Mpz.of 0 s k = ⟨List.replicate k 0, 0, s⟩ := by
  rw [of, Nat.digits_zero, List.nil_append, List.length_nil]

theorem Mpz.init_eq : Mpz.init = Mpz.of 0 false 0 := by
  rw [of_zero]
  rfl

theorem Mpz.init_shape : Mpz.init.Shape := Mpz.init_eq ▸ Mpz.shape_of 0 false 0

theorem immediate_eq {u : ℕ} (hu : u < base) (s : Bool) : immediate u s = Mpz.of u s 0 := by
  rw [immediate]
  split_ifs with h
  · rw [h, Mpz.of_zero]
    rfl
  · rw [Mpz.of, Nat.digits_of_lt base u h hu]
    rfl

theorem Mpz.realloc_of (n : ℕ) (s : Bool) (k i : ℕ) :
    (Mpz.of n s k).realloc i =
      Mpz.of n s (k + (i + 1 - ((Nat.digits base n).length + k))) := by
  rw [realloc, of_d_length]
  split_ifs with h
  · rw [Nat.sub_eq_zero_of_le h, Nat.add_zero]
  · rw [of, of, List.append_assoc, List.replicate_append_replicate]

theorem Mpz.zero_of (n : ℕ) (s : Bool) (k : ℕ) :
    (Mpz.of n s k).zero = .ok (Mpz.of 0 s ((Nat.digits base n).length + k)) := by
  rw [zero, of_l]
  split_ifs with h
  · rw [digits_length_eq_zero.mp h, Nat.digits_zero, List.length_nil, Nat.zero_add]
  · have hle : 0 + (List.replicate (Nat.digits base n).length 0).length ≤ (Mpz.of n s k).d.length := by
      rw [of_d_length, List.length_replicate]
      omega
    rw [write, if_pos hle, Mem.writeAt_eq hle, of_zero]
    simp [List.replicate_append_replicate]

/-- What `mpz_zero_realloc` leaves. -/
theorem Mpz.zeroRealloc_of (n : ℕ) (s : Bool) (k i : ℕ) :
    ∃ j, i < j ∧ (Mpz.of n s k).zeroRealloc i = .ok (Mpz.of 0 s j) := by
  rw [zeroRealloc, realloc_of, zero_of]
  exact ⟨_, by omega, rfl⟩

theorem Mpz.read_of {n : ℕ} (s : Bool) {k m : ℕ} (hle : (Nat.digits base n).length ≤ m)
    (hm : m ≤ (Nat.digits base n).length + k) :
    (Mpz.of n s k).read 0 m =
      .ok (Nat.digits base n ++ List.replicate (m - (Nat.digits base n).length) 0) := by
  rw [read, of_d_length, if_pos (by omega), List.drop_zero, of_d, List.take_append,
    List.take_of_length_le hle, List.take_replicate, Nat.min_eq_left (by omega)]

theorem Mpz.read_of_self (n : ℕ) (s : Bool) (k : ℕ) :
    (Mpz.of n s k).read 0 (Nat.digits base n).length = .ok (Nat.digits base n) := by
  rw [read_of s (Nat.le_refl _) (Nat.le_add_right _ _), Nat.sub_self, List.replicate_zero,
    List.append_nil]

/-- All the words that are used are overwritten. -/
theorem Mpz.write_of {n : ℕ} (s : Bool) {k : ℕ} {ws : List ℕ}
    (hle : (Nat.digits base n).length ≤ ws.length)
    (hws : ws.length ≤ (Nat.digits base n).length + k) :
    (Mpz.of n s k).write 0 ws =
      .ok ⟨ws ++ List.replicate ((Nat.digits base n).length + k - ws.length) 0,
        (Nat.digits base n).length, s⟩ := by
  have hfits : 0 + ws.length ≤ (Mpz.of n s k).d.length := by
    rw [of_d_length]
    omega
  rw [write, if_pos hfits, Mem.writeAt_eq hfits, of_d, List.take_zero, List.nil_append,
    Nat.zero_add, List.drop_append, List.drop_eq_nil_of_le hle, List.nil_append,
    List.drop_replicate, show k - (ws.length - (Nat.digits base n).length) =
      (Nat.digits base n).length + k - ws.length by omega]
  rfl

/-- **What `mpz_normalize` leaves**: the number that the words are. -/
theorem Mpz.normalize_eq {d : List ℕ} (h : Proper base d) (hne : d ≠ []) (l : ℕ) (s : Bool) :
    ∃ k, (Nat.digits base (Nat.ofDigits base d)).length + k = d.length ∧
      Mpz.normalize ⟨d, l, s⟩ = Mpz.of (Nat.ofDigits base d) (s && Nat.ofDigits base d ≠ 0) k := by
  have hsize := size_eq h one_lt_base
  refine ⟨d.length - size d, by have := size_le d; omega, ?_⟩
  rw [normalize, if_neg hne, of, ← eq_digits_append h one_lt_base, hsize]
  refine Mpz.mk.injEq .. |>.mpr ⟨rfl, rfl, ?_⟩
  simp only [digits_length_eq_zero]
  cases s <;> simp

/-- `_mpz_normalize` does not look at the sign. -/
theorem Mpz.normalizeLength_eq {d : List ℕ} (h : Proper base d) (l : ℕ) (s : Bool) :
    ∃ k, (Nat.digits base (Nat.ofDigits base d)).length + k = d.length ∧
      Mpz.normalizeLength ⟨d, l, s⟩ = Mpz.of (Nat.ofDigits base d) s k := by
  have hsize := size_eq h one_lt_base
  refine ⟨d.length - size d, by have := size_le d; omega, ?_⟩
  rw [normalizeLength, of, ← eq_digits_append h one_lt_base, hsize]

theorem Mpz.normalizeLength_of (n : ℕ) (s : Bool) (k : ℕ) :
    (Mpz.of n s k).normalizeLength = Mpz.of n s k := by
  have hproper : Proper base (Nat.digits base n ++ List.replicate k 0) :=
    proper_append.mpr ⟨proper_digits one_lt_base n, proper_replicate_zero base_pos k⟩
  rw [normalizeLength, of_d, size_eq hproper one_lt_base, Nat.ofDigits_append_replicate_zero,
    Nat.ofDigits_digits]
  rfl

/-- What `mpz_set` leaves: it reads the words that are used, and what is above them does not
matter. -/
theorem mpzSet_of_read {d s : Ptr} (hne : d ≠ s) {st : Store} (hd : (st d).Shape) {n : ℕ} {b : Bool}
    (hl : (st s).l = (Nat.digits base n).length) (hs : (st s).s = b)
    (hread : (st s).read 0 (Nat.digits base n).length = .ok (Nat.digits base n)) :
    ∃ j, 0 < j ∧ mpzSet d s st = .ok (st.set d (Mpz.of n b j)) := by
  obtain ⟨m, c, i, hm⟩ := hd.exists_of
  obtain ⟨j, hj, hzero⟩ := Mpz.zeroRealloc_of m c i (Nat.digits base n).length
  have hwrite : (Mpz.of 0 c j).write 0 (Nat.digits base n) =
      .ok ⟨Nat.digits base n ++ List.replicate (j - (Nat.digits base n).length) 0, 0, c⟩ := by
    have hlen : (Nat.digits base 0).length = 0 := by rw [Nat.digits_zero, List.length_nil]
    rw [Mpz.write_of c (by omega) (by omega), hlen, Nat.zero_add]
  refine ⟨j - (Nat.digits base n).length, by omega, ?_⟩
  rw [mpzSet, hm, hl, hzero]
  simp only [bind, Except.bind, Store.set_self, Store.set_of_ne _ hne.symm, hl, hread, hwrite,
    Store.set_set, hs]
  rfl

theorem mpzSet_eq {d s : Ptr} (hne : d ≠ s) {st : Store} (hd : (st d).Shape) {n : ℕ} {b : Bool}
    {k : ℕ} (hs : st s = Mpz.of n b k) :
    ∃ j, 0 < j ∧ mpzSet d s st = .ok (st.set d (Mpz.of n b j)) :=
  mpzSet_of_read hne hd (by rw [hs, Mpz.of_l]) (by rw [hs, Mpz.of_s])
    (by rw [hs, Mpz.read_of_self])

/-- An object that is set to itself is cleared, and what is copied is nothing. -/
theorem mpzSet_self {d : Ptr} {st : Store} {n : ℕ} {b : Bool} {k : ℕ} (hd : st d = Mpz.of n b k) :
    ∃ j, mpzSet d d st = .ok (st.set d (Mpz.of 0 b j)) := by
  obtain ⟨j, -, hclear⟩ := Mpz.zeroRealloc_of n b k (Nat.digits base n).length
  refine ⟨j, ?_⟩
  rw [mpzSet, hd, Mpz.of_l, hclear]
  simp only [bind, Except.bind, Store.set_self]
  rw [Mpz.of_l, Mpz.of_zero]
  simp [Mpz.read, Mpz.write, pure, Except.pure, Mem.writeAt]

/-- The object that is copied may be the same. -/
theorem mpzSetOther_eq {d s : Ptr} {st : Store} (hd : (st d).Shape) {n : ℕ} {b : Bool} {k : ℕ}
    (hs : st s = Mpz.of n b k) :
    ∃ j, mpzSetOther d s st = .ok (st.set d (Mpz.of n b j)) ∧ (d = s → j = k) ∧
      ∃ i, (st.set d (Mpz.of n b j)) s = Mpz.of n b i := by
  by_cases hne : d = s
  · subst hne
    refine ⟨k, ?_, fun _ => rfl, k, Store.set_self _ _ _⟩
    rw [mpzSetOther, if_neg (not_not.mpr rfl), ← hs, Store.set, Function.update_eq_self]
  · obtain ⟨j, -, hset⟩ := mpzSet_eq hne hd hs
    refine ⟨j, by rw [mpzSetOther, if_pos hne, hset], fun heq => absurd heq hne, k, ?_⟩
    rw [Store.set_of_ne _ (Ne.symm hne), hs]

theorem mpzSetUi_eq {z : Ptr} (hz : z ≠ .mpzSet) {st : Store} (hshape : (st z).Shape) {u : ℕ}
    (hu : u < base) :
    ∃ j, 0 < j ∧ mpzSetUi z u st =
      .ok ((st.set .mpzSet (Mpz.of u false 0)).set z (Mpz.of u false j)) := by
  rw [mpzSetUi, immediate_eq hu]
  refine mpzSet_eq hz ?_ (Store.set_self _ _ _)
  rwa [Store.set_of_ne _ hz]

theorem mpzSetzero_eq {z : Ptr} {st : Store} (hshape : (st z).Shape) :
    ∃ j, 0 < j ∧ mpzSetzero z st = .ok (st.set z (Mpz.of 0 false j)) := by
  obtain ⟨n, s, k, hof⟩ := hshape.exists_of
  obtain ⟨j, hj, hzero⟩ := Mpz.zeroRealloc_of n false k 0
  refine ⟨j, hj, ?_⟩
  rw [mpzSetzero, hof]
  have hsign : { Mpz.of n s k with s := false } = Mpz.of n false k := rfl
  rw [hsign, hzero]
  rfl

end StyxWire.Sbn
