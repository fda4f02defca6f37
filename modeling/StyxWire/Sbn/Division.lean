import StyxWire.Lib.LimbBits
import StyxWire.Sbn.Addition

/-!
# Division

`mpz_divi_qr_raw` divides bit by bit, from the highest bit of the dividend: the remainder is
doubled and takes the bit, and if it is not less than the divisor then, the divisor is
subtracted and a bit of the quotient is set. `mpz_tdiv_qr`, `mpz_tdiv_r` and `mpz_tdiv_q` are
there for the signs, the shortcuts, and the objects that are the same.

The number of the bits is a 32-bit `int` in the source, and it is one here
(`StyxWire.Sbn.bitCount`): a dividend of more than `2 ^ 31` bits fits in memory.
-/

namespace StyxWire.Sbn

open Limbs

/-! ### Bits -/

/-- A word. -/
def Mpz.word (z : Mpz) (i : ℕ) : Except Stop ℕ :=
  match z.d[i]? with
  | some w => .ok w
  | none => .error .fault

/-- `mpz_bits`, which has 32 bits. -/
def mpzBits (z : Mpz) : Except Stop ℕ :=
  if z.l = 0 then .error .fault
  else do
    let x ← z.word (z.l - 1)
    return ((z.l - 1) * atombits + Nat.size x) % 2 ^ 32

/-- The bits that are counted down from `mpz_bits(z) - 1` to 0, an `int`. -/
def bitCount (bits : ℕ) : ℕ := (Int.bmod ((bits : ℤ) - 1) (2 ^ 32) + 1).toNat

/-- `_mpz_testbit`. -/
def Mpz.testbit (z : Mpz) (i : ℕ) : Except Stop Bool := do
  let w ← z.word (i / atombits)
  return w.testBit (i % atombits)

/-- `__mpz_setbit`. -/
def Mpz.setbit (z : Mpz) (i : ℕ) : Except Stop Mpz := do
  let w ← z.word (i / atombits)
  z.write (i / atombits) [w ||| 2 ^ (i % atombits)]

/-- `_mpz_self_lshift1_setbit0`. -/
def Mpz.selfLshift1Setbit0 (z : Mpz) (b : Bool) : Except Stop Mpz := do
  let ws ← z.read 0 z.l
  let top ← z.word z.l
  let z ← z.write 0 (lshift1 atombits ws top b.toNat)
  let top ← z.word z.l
  return if top ≠ 0 then { z with l := z.l + 1 } else z

/-! ### The loop -/

/-- The quotient is changed, if there is one. -/
def Store.setQuotient (st : Store) (q : Option Ptr) (f : Mpz → Except Stop Mpz) :
    Except Stop Store :=
  match q with
  | some q => do
    let z ← f (st q)
    return st.set q z
  | none => .ok st

/-- One bit of the loop. There is no quotient in `mpz_divi_r_raw`. -/
def divStep (q : Option Ptr) (r z : Ptr) (d : List ℕ) (l : ℕ) (bit : ℕ) (st : Store) :
    Except Stop Store := do
  let b ← (st z).testbit bit
  let res ← (st r).selfLshift1Setbit0 b
  let st := st.set r res
  let cmp ← mpzCmpabs (st r) ⟨d, l, false⟩
  if cmp.isGE then
    let st := st.set r (st r).normalizeLength
    let st ← mpzSubiRaw r r d l st
    st.setQuotient q (·.setbit bit)
  else return st

/-- The loop, with `n` bits left. -/
def divLoop (q : Option Ptr) (r z : Ptr) (d : List ℕ) (l : ℕ) : ℕ → Store → Except Stop Store
  | 0, st => .ok st
  | n + 1, st => do
    let st ← divStep q r z d l n st
    divLoop q r z d l n st

/-- `mpz_divi_qr_raw`, or `mpz_divi_r_raw` if there is no quotient. -/
def mpzDiviRaw (q : Option Ptr) (r z : Ptr) (d : List ℕ) (l : ℕ) (st : Store) :
    Except Stop Store := do
  let bits ← mpzBits (st z)
  let st ← st.setQuotient q (·.zeroRealloc ((st z).l - l + 1))
  let cleared ← (st r).zeroRealloc l
  let st ← divLoop q r z d l (bitCount bits) (st.set r cleared)
  let st ← st.setQuotient q fun z => .ok z.normalizeLength
  return st.set r (st r).normalizeLength

/-- `mpz_divi_qr_raw`. -/
def mpzDiviQrRaw (q r z : Ptr) (d : List ℕ) (l : ℕ) : Store → Except Stop Store :=
  mpzDiviRaw (some q) r z d l

/-- `mpz_divi_r_raw`. -/
def mpzDiviRRaw (r z : Ptr) (d : List ℕ) (l : ℕ) : Store → Except Stop Store :=
  mpzDiviRaw none r z d l

/-! ### The signs and the shortcuts -/

/-- `mpz_tdiv_qr`. -/
def mpzTdivQr (q r z d : Ptr) (st : Store) : Except Stop Store :=
  if (st d).l = 0 then .error .inval
  else if z = d then do
    let st ← mpzSetUi q 1 st
    mpzSetzero r st
  else do
    let cmp ← mpzCmpabs (st z) (st d)
    match cmp with
    | .lt => do
      let st ← mpzSet r z st
      mpzSetzero q st
    | .eq => do
      let st ← mpzSetUi q 1 st
      mpzSetzero r st
    | .gt => do
      let (z, st) := st.clone z .cloneZ [q, r]
      let (d, st) := st.clone d .cloneD [q, r]
      let st := st.setSign q ((st z).s ^^ (st d).s)
      let st := st.setSign r (st z).s
      mpzDiviQrRaw q r z (st d).d (st d).l st

/-- `mpz_tdiv_r`. -/
def mpzTdivR (r z d : Ptr) (st : Store) : Except Stop Store :=
  if (st d).l = 0 then .error .inval
  else if z = d then mpzSetzero r st
  else do
    let cmp ← mpzCmpabs (st z) (st d)
    match cmp with
    | .lt => mpzSetOther r z st
    | .eq => mpzSetzero r st
    | .gt => do
      let (z, st) := st.clone z .cloneZ [r]
      let (d, st) := st.clone d .cloneD [r]
      let st := st.setSign r (st z).s
      mpzDiviRRaw r z (st d).d (st d).l st

/-- `mpz_tdiv_q`. -/
def mpzTdivQ (q z d : Ptr) (st : Store) : Except Stop Store :=
  mpzTdivQr q .rem z d (st.set .rem Mpz.init)

/-! ### Bits of the numbers -/

theorem base_eq : base = 2 ^ atombits := rfl

theorem Mpz.word_of {n : ℕ} (s : Bool) {k i : ℕ} (hi : i < (Nat.digits base n).length + k) :
    (Mpz.of n s k).word i = .ok ((Nat.digits base n ++ List.replicate k 0).getD i 0) := by
  have hlt : i < (Nat.digits base n ++ List.replicate k 0).length := by
    rwa [List.length_append, List.length_replicate]
  rw [word, of_d, List.getElem?_eq_getElem hlt, List.getD_eq_getElem _ _ hlt]

/-- **`mpz_bits` counts the bits**, as far as 32 bits can. -/
theorem mpzBits_of {n : ℕ} (hn : n ≠ 0) (s : Bool) (k : ℕ) :
    mpzBits (Mpz.of n s k) = .ok (Nat.size n % 2 ^ 32) := by
  have hne : Nat.digits base n ≠ [] := fun hnil => hn (Nat.digits_eq_nil_iff_eq_zero.mp hnil)
  have hpos := List.length_pos_of_ne_nil hne
  have hsplit := List.dropLast_append_getLast hne
  have hsize : Nat.size n = atombits * ((Nat.digits base n).length - 1) +
      Nat.size ((Nat.digits base n).getLast hne) := by
    have hproper := proper_digits one_lt_base n
    rw [← hsplit] at hproper
    have hvalue := size_value (w := atombits) (proper_append.mp hproper).1
      (proper_cons.mp (proper_append.mp hproper).2).1 (Nat.getLast_digit_ne_zero base hn)
    rwa [← base_eq, hsplit, Nat.ofDigits_digits, List.length_dropLast] at hvalue
  have hword : (Mpz.of n s k).word ((Nat.digits base n).length - 1) =
      .ok ((Nat.digits base n).getLast hne) := by
    rw [Mpz.word_of s (by omega), List.getD_append _ _ _ _ (by omega),
      List.getD_eq_getElem _ _ (by omega), List.getLast_eq_getElem]
  rw [mpzBits, Mpz.of_l, if_neg hpos.ne', hword, hsize, Nat.mul_comm atombits]
  rfl

/-- A bit of a number is tested, if its word is allocated. -/
theorem Mpz.testbit_of {n : ℕ} (s : Bool) {k i : ℕ}
    (hi : i / atombits < (Nat.digits base n).length + k) :
    (Mpz.of n s k).testbit i = .ok (n.testBit i) := by
  have hproper : Proper base (Nat.digits base n ++ List.replicate k 0) :=
    proper_append.mpr ⟨proper_digits one_lt_base n, proper_replicate_zero base_pos k⟩
  have hbit := testBit_value (w := atombits) hproper (i / atombits)
    (Nat.mod_lt i (show 0 < atombits by decide))
  rw [← base_eq, Nat.ofDigits_append_replicate_zero, Nat.ofDigits_digits, Nat.div_add_mod] at hbit
  rw [testbit, word_of s hi, hbit]
  rfl

theorem writeAt_singleton {xs : List ℕ} {i : ℕ} (hi : i < xs.length) (y : ℕ) :
    Mem.writeAt xs i [y] = xs.set i y := by
  rw [Mem.writeAt_eq (by rw [List.length_singleton]; omega), List.set_eq_take_append_cons_drop,
    if_pos hi, List.append_assoc]
  rfl

theorem Mpz.write_singleton {z : Mpz} {i : ℕ} (hi : i < z.d.length) (w : ℕ) :
    z.write i [w] = .ok { z with d := z.d.set i w } := by
  rw [write, if_pos (by rw [List.length_singleton]; omega), writeAt_singleton hi]

/-- **A bit is set**, in a number whose length is not known yet. -/
theorem Mpz.setbit_eq {z : Mpz} (h : Proper base z.d) {i : ℕ} (hi : i / atombits < z.d.length)
    (hbit : (Nat.ofDigits base z.d).testBit i = false) :
    ∃ d, z.setbit i = .ok { z with d := d } ∧ Proper base d ∧ d.length = z.d.length ∧
      Nat.ofDigits base d = Nat.ofDigits base z.d + 2 ^ i := by
  have hmod : i % atombits < atombits := Nat.mod_lt i (by decide)
  have hword : z.word (i / atombits) = .ok (z.d.getD (i / atombits) 0) := by
    rw [word, List.getElem?_eq_getElem hi, List.getD_eq_getElem _ _ hi]
  rw [← Nat.div_add_mod i atombits] at hbit
  obtain ⟨hproper, hvalue⟩ := value_set_bit (w := atombits) h hi hmod hbit
  rw [Nat.div_add_mod] at hvalue
  refine ⟨_, ?_, hproper, List.length_set, hvalue⟩
  rw [setbit, hword]
  exact write_singleton hi _

/-- **A shift by one bit**, which needs a word to spare. -/
theorem Mpz.selfLshift1Setbit0_of (n : ℕ) (s : Bool) {k : ℕ} (hk : 0 < k) (b : Bool) :
    ∃ j, (Nat.digits base (2 * n + b.toNat)).length + j = (Nat.digits base n).length + k ∧
      (Mpz.of n s k).selfLshift1Setbit0 b = .ok (Mpz.of (2 * n + b.toNat) s j) := by
  set ws := lshift1 atombits (Nat.digits base n) 0 b.toNat with hws
  obtain ⟨hproper, hvalue⟩ := lshift1_spec (w := atombits) (by decide)
    (proper_digits one_lt_base n) (Bool.toNat_le b)
  rw [← hws, ← base_eq] at hproper hvalue
  rw [Nat.ofDigits_digits] at hvalue
  have hlen : ws.length = (Nat.digits base n).length + 1 := length_lshift1 _ _ _
  have hgrows : (Nat.digits base n).length ≤ (Nat.digits base (2 * n + b.toNat)).length :=
    Nat.le_length_digits_le base _ _ (by omega)
  have htop : (Mpz.of n s k).word (Nat.digits base n).length = .ok 0 := by
    rw [Mpz.word_of s (by omega), List.getD_append_right _ _ _ _ (Nat.le_refl _), Nat.sub_self]
    simp [hk]
  have hfits : (Nat.digits base n).length ≤ ws.length := by omega
  have hwrite := Mpz.write_of s (k := k) hfits (by omega)
  have hword : Mpz.word ⟨ws ++ List.replicate ((Nat.digits base n).length + k - ws.length) 0,
      (Nat.digits base n).length, s⟩ (Nat.digits base n).length =
      .ok (ws.getD (Nat.digits base n).length 0) := by
    have hlt : (Nat.digits base n).length < ws.length := by omega
    rw [word, List.getElem?_append_left hlt, List.getElem?_eq_getElem hlt,
      List.getD_eq_getElem _ _ hlt]
  have hshift : (Mpz.of n s k).selfLshift1Setbit0 b =
      .ok (if ws.getD (Nat.digits base n).length 0 ≠ 0 then
        ⟨ws ++ List.replicate ((Nat.digits base n).length + k - ws.length) 0,
          (Nat.digits base n).length + 1, s⟩
      else ⟨ws ++ List.replicate ((Nat.digits base n).length + k - ws.length) 0,
          (Nat.digits base n).length, s⟩) := by
    rw [selfLshift1Setbit0, of_l, read_of_self, htop]
    simp only [bind, Except.bind, ← hws, hwrite, hword, pure, Except.pure]
  rw [hshift]
  rcases eq_digits_or_append_zero hproper one_lt_base hvalue hlen hgrows with
    ⟨hlast, hdigits⟩ | ⟨hlast, hdigits⟩
  · -- the word that was to spare is used
    refine ⟨k - 1, by rw [← hdigits, hlen]; omega, ?_⟩
    rw [if_pos hlast, of, ← hdigits, hlen, show (Nat.digits base n).length + k -
      ((Nat.digits base n).length + 1) = k - 1 by omega]
  · have hsame := congrArg List.length hdigits
    rw [List.length_append, List.length_singleton, hlen, Nat.add_right_cancel_iff] at hsame
    have hzeros : ws ++ List.replicate ((Nat.digits base n).length + k - ws.length) 0 =
        Nat.digits base (2 * n + b.toNat) ++ List.replicate k 0 := by
      conv_lhs => rw [hlen, hdigits]
      rw [List.append_assoc, List.singleton_append, ← List.replicate_succ]
      congr 2
      omega
    refine ⟨k, by rw [hsame], ?_⟩
    rw [if_neg (not_not.mpr hlast), of, hzeros, hsame]

end StyxWire.Sbn
