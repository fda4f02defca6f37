import StyxWire.Sbn.Division

/-!
# Shifts

`mpz_lshift` and `mpz_rshift` copy the number, move its words, and shift the bits that are
left within them. As values they are what they should be, always (`StyxWire.Sbn.mpzLshift_eq`,
`StyxWire.Sbn.mpzRshift_eq`). As numbers that are canonical they are not, in three ways:

* `mpz_lshiftword` gives zero as many words as it moves;
* `mpz_rshift` keeps the sign of a negative number of which nothing is left;
* `mpz_rshiftword` clears as many *bytes* as it moved words, so that words of the number stay
  above those that are used.

The conditions under which none of them happens are exact (`StyxWire.Sbn.shifts_exact_iff`). The
third one depends on the order of the bytes in a word, which is that of a little-endian machine
here.
-/

namespace StyxWire.Sbn

open Limbs

/-! ### The functions -/

/-- The first `i` bytes of some words are cleared. -/
def clearBytes : List ℕ → ℕ → List ℕ
  | w :: ws, i => if 4 ≤ i then 0 :: clearBytes ws (i - 4) else w / 256 ^ i * 256 ^ i :: ws
  | [], _ => []

/-- `memset` of `i` bytes, from the word with number `l` on. -/
def Mpz.memset (z : Mpz) (l i : ℕ) : Except Stop Mpz :=
  if 4 * l + i ≤ 4 * z.d.length then .ok { z with d := z.d.take l ++ clearBytes (z.d.drop l) i }
  else .error .fault

/-- `mpz_lshiftword`. -/
def Mpz.lshiftword (r : Mpz) (i : ℕ) : Except Stop Mpz :=
  if i = 0 then .ok r
  else do
    let r := r.realloc (r.l + i - 1)
    let ws ← r.read 0 r.l
    let r ← r.write i ws
    let r ← r.write 0 (List.replicate i 0)
    return { r with l := r.l + i }

/-- `mpz_rshiftword`. -/
def Mpz.rshiftword (r : Mpz) (i : ℕ) : Except Stop Mpz :=
  if i = 0 then .ok r
  else if r.l ≤ i then r.zero
  else do
    let ws ← r.read i (r.l - i)
    let r ← r.write 0 ws
    let r := { r with l := r.l - i }
    r.memset r.l i

/-- The bits of `mpz_lshift`. -/
def Mpz.lshiftBits (r : Mpz) (bitshift : ℕ) : Except Stop Mpz := do
  let r := r.realloc (r.l + 1)
  if r.l = 0 then return r
  else
    let ws ← r.read 0 r.l
    let top ← r.word r.l
    let r ← r.write 0 (Limbs.lshift atombits bitshift ws top 0)
    let top ← r.word r.l
    return if top ≠ 0 then { r with l := r.l + 1 } else r

/-- The bits of `mpz_rshift`. -/
def Mpz.rshiftBits (r : Mpz) (bitshift : ℕ) : Except Stop Mpz := do
  if r.l = 0 then return r
  else
    let ws ← r.read 0 r.l
    let r ← r.write 0 (Limbs.rshift atombits bitshift ws)
    let top ← r.word (r.l - 1)
    return if top = 0 then { r with l := r.l - 1 } else r

/-- `mpz_lshift`. -/
def mpzLshift (r z : Ptr) (i : ℕ) (st : Store) : Except Stop Store := do
  let rawshift := i / atombits
  let bitshift := i % atombits
  let st ← mpzSetOther r z st
  let res ← (st r).lshiftword rawshift
  if bitshift = 0 then return st.set r res
  else
    let res ← res.lshiftBits bitshift
    return st.set r res

/-- `mpz_rshift`. -/
def mpzRshift (r z : Ptr) (i : ℕ) (st : Store) : Except Stop Store := do
  let rawshift := i / atombits
  let bitshift := i % atombits
  let st ← mpzSetOther r z st
  let res ← (st r).rshiftword rawshift
  if bitshift = 0 then return st.set r res
  else
    let res ← res.rshiftBits bitshift
    return st.set r res

/-! ### Bytes that are cleared -/

/-- A word of which no byte is reached is as it was. -/
theorem getD_clearBytes (ws : List ℕ) {i j : ℕ} (h : i ≤ 4 * j) :
    (clearBytes ws i).getD j 0 = ws.getD j 0 := by
  induction ws generalizing i j with
  | nil => rfl
  | cons w ws ih =>
    rw [clearBytes]
    split_ifs with hi
    · obtain ⟨j, rfl⟩ : ∃ j', j = j' + 1 := ⟨j - 1, by omega⟩
      rw [List.getD_cons_succ, List.getD_cons_succ, ih (by omega)]
    · cases j with
      | zero => simp [show i = 0 by omega]
      | succ j => rfl

theorem getD_of_forall_eq_zero {ws : List ℕ} (h : ∀ w ∈ ws, w = 0) (i : ℕ) : ws.getD i 0 = 0 := by
  rw [List.getD_eq_getElem?_getD]
  cases hget : ws[i]? with
  | none => rfl
  | some w => exact h w (List.mem_of_getElem? hget)

/-- **What `mpz_rshiftword` clears is enough** for a shift by one word whose highest word is a
byte, and for no other. -/
theorem clearBytes_eq_zero_iff {xs : List ℕ} {x : ℕ} (hx : x ≠ 0) (k : ℕ) :
    (∀ w ∈ clearBytes (xs ++ [x] ++ List.replicate k 0) (xs.length + 1), w = 0) ↔
      xs.length = 0 ∧ x < 256 := by
  constructor
  · intro h
    have hlen : xs.length = 0 := by
      by_contra hne
      -- the highest word is not reached
      have hkept := getD_clearBytes (xs ++ [x] ++ List.replicate k 0) (i := xs.length + 1)
        (j := xs.length) (by omega)
      have hx' : (xs ++ [x] ++ List.replicate k 0).getD xs.length 0 = x := by simp
      rw [hx', getD_of_forall_eq_zero h] at hkept
      exact hx hkept.symm
    rw [List.length_eq_zero_iff] at hlen
    subst hlen
    refine ⟨rfl, ?_⟩
    have hw := h (x / 256 ^ 1 * 256 ^ 1) (by simp [clearBytes])
    omega
  · rintro ⟨hlen, hlt⟩ w hw
    rw [List.length_eq_zero_iff] at hlen
    subst hlen
    simp only [List.nil_append, List.singleton_append, List.length_nil, Nat.zero_add, clearBytes,
      Nat.not_ofNat_le_one, if_false, List.mem_cons] at hw
    rcases hw with rfl | hw
    · rw [pow_one, Nat.div_eq_of_lt hlt, Nat.zero_mul]
    · exact List.eq_of_mem_replicate hw

/-! ### Words that are moved -/

/-- **`mpz_lshiftword`**, also of zero. -/
theorem Mpz.lshiftword_of (n : ℕ) (s : Bool) (k i : ℕ) :
    ∃ j, (Mpz.of n s k).lshiftword i =
      .ok ⟨List.replicate i 0 ++ Nat.digits base n ++ List.replicate j 0,
        (Nat.digits base n).length + i, s⟩ := by
  rw [lshiftword]
  split_ifs with hi
  · refine ⟨k, ?_⟩
    rw [hi, List.replicate_zero, List.nil_append]
    rfl
  · set l := (Nat.digits base n).length with hl
    obtain ⟨k', hk', hrealloc⟩ : ∃ k', i ≤ k' ∧
        (Mpz.of n s k).realloc (l + i - 1) = Mpz.of n s k' :=
      ⟨_, by omega, Mpz.realloc_of n s k (l + i - 1)⟩
    have hfits : i + (Nat.digits base n).length ≤ (Mpz.of n s k').d.length := by
      rw [of_d_length]
      omega
    have hmove : Mem.writeAt (Mpz.of n s k').d i (Nat.digits base n) =
        (Mpz.of n s k').d.take i ++ Nat.digits base n ++ List.replicate (k' - i) 0 := by
      rw [Mem.writeAt_eq hfits, of_d, List.drop_append, List.drop_eq_nil_of_le (by omega),
        List.nil_append, List.drop_replicate, ← hl, show i + l - l = i by omega]
    have htake : ((Mpz.of n s k').d.take i).length = i := by
      rw [List.length_take, of_d_length]
      omega
    have hzeros : (List.replicate i 0).length = ((Mpz.of n s k').d.take i).length := by
      rw [htake, List.length_replicate]
    have hclear := Mpz.write_middle [] hzeros (Nat.digits base n ++ List.replicate (k' - i) 0) l s
    rw [List.nil_append, List.nil_append, List.length_nil, ← List.append_assoc,
      ← List.append_assoc] at hclear
    refine ⟨k' - i, ?_⟩
    rw [of_l, ← hl, hrealloc]
    simp only [bind, Except.bind, of_l, read_of_self, write, if_pos hfits, hmove]
    simp only [write] at hclear
    rw [of_s, ← hl, hclear]
    rfl

/-- What is left of a number that is shifted to the right: the words above those that are used
may be anything. -/
def rest (n : ℕ) (s : Bool) (high : List ℕ) : Mpz :=
  ⟨Nat.digits base n ++ high, (Nat.digits base n).length, s⟩

theorem rest_canonical_iff {n : ℕ} {s : Bool} {high : List ℕ} :
    (rest n s high).Canonical ↔ (∀ w ∈ high, w = 0) ∧ (n = 0 → s = false) := by
  constructor
  · intro hcanonical
    refine ⟨fun w hw => hcanonical.stale w ?_, fun hn => hcanonical.sign ?_⟩
    · rwa [rest, List.drop_left]
    · exact digits_length_eq_zero.mpr hn
  · rintro ⟨hhigh, hsign⟩
    have hof : rest n s high = Mpz.of n s high.length := by
      rw [rest, Mpz.of, ← List.eq_replicate_of_mem hhigh]
    rw [hof]
    exact Mpz.canonical_of hsign _

theorem rest_value (n : ℕ) (s : Bool) (high : List ℕ) :
    (rest n s high).value = if s then -(n : ℤ) else n := by
  rw [Mpz.value, Mpz.mag, rest, List.take_left, Nat.ofDigits_digits]

theorem digits_div_base_pow (n i : ℕ) :
    Nat.digits base (n / base ^ i) = (Nat.digits base n).drop i := by
  rw [Nat.self_div_pow_eq_ofDigits_drop i n one_lt_base]
  refine (eq_digits ((proper_digits one_lt_base n).drop i) one_lt_base fun hne => ?_).symm
  rw [List.getLast_drop]
  exact Nat.getLast_digit_ne_zero base fun hzero => hne (by rw [hzero]; simp)

/-- **`mpz_rshiftword`**: there are words left above those that are used unless it is a shift by
no word, by all of them, or by one word that is a byte. -/
theorem Mpz.rshiftword_of (n : ℕ) (s : Bool) (k i : ℕ) :
    ∃ high, (Mpz.of n s k).rshiftword i = .ok (rest (n / base ^ i) s high) ∧
      ((∀ w ∈ high, w = 0) ↔ (i ≠ 0 → i < (Nat.digits base n).length →
        i = 1 ∧ (Nat.digits base n).getD ((Nat.digits base n).length - 1) 0 < 256)) := by
  rw [rshiftword]
  split_ifs with hi hl
  · refine ⟨List.replicate k 0, ?_, ?_⟩
    · rw [hi, pow_zero, Nat.div_one]
      rfl
    · exact ⟨fun _ hne => absurd hi hne, fun _ w hw => List.eq_of_mem_replicate hw⟩
  · rw [of_l] at hl
    have hzero : n / base ^ i = 0 :=
      Nat.div_eq_of_lt ((Nat.digits_length_le_iff one_lt_base _).mp hl)
    refine ⟨List.replicate ((Nat.digits base n).length + k) 0, ?_, ?_⟩
    · rw [zero_of, of_zero, hzero, rest, Nat.digits_zero, List.nil_append, List.length_nil]
    · exact ⟨fun _ _ hlt => absurd hl hlt.not_ge, fun _ w hw => List.eq_of_mem_replicate hw⟩
  · rw [of_l, not_le] at hl
    set l := (Nat.digits base n).length with hlength
    set d := Nat.digits base n ++ List.replicate k 0 with hd
    have hlow : ((Nat.digits base n).drop i).length = l - i := by rw [List.length_drop]
    have hread : (Mpz.of n s k).read i (l - i) = .ok ((Nat.digits base n).drop i) := by
      rw [read, of_d_length, if_pos (by omega), of_d, List.drop_append_of_le_length (by omega),
        List.take_append_of_le_length hlow.ge, List.take_of_length_le hlow.le]
    have hmoved : ((Nat.digits base n).drop i).length = (d.take (l - i)).length := by
      rw [hlow, List.length_take, hd]
      simp
      omega
    have hwrite := Mpz.write_middle [] hmoved (d.drop (l - i)) l s
    rw [List.nil_append, List.nil_append, List.take_append_drop, List.length_nil] at hwrite
    have hmemset : Mpz.memset ⟨(Nat.digits base n).drop i ++ d.drop (l - i), l - i, s⟩ (l - i) i =
        .ok (rest (n / base ^ i) s (clearBytes (d.drop (l - i)) i)) := by
      have hfits : 4 * (l - i) + i ≤ 4 * ((Nat.digits base n).drop i ++ d.drop (l - i)).length := by
        rw [List.length_append, hlow, List.length_drop, hd, List.length_append, ← hlength]
        omega
      rw [memset, if_pos hfits, rest, digits_div_base_pow, hlow, ← hlow, List.take_left,
        List.drop_left]
    refine ⟨clearBytes (d.drop (l - i)) i, ?_, ?_⟩
    · rw [of_l, ← hlength, hread]
      simp only [bind, Except.bind]
      rw [of, ← hd, ← hlength, hwrite]
      exact hmemset
    · -- the highest word of the number is the highest one that is moved
      have hne : Nat.digits base n ≠ [] := List.ne_nil_of_length_pos (by omega)
      obtain ⟨x, hx⟩ : ∃ x, (Nat.digits base n).getLast hne = x := ⟨_, rfl⟩
      have hx0 : x ≠ 0 := by
        rw [← hx]
        exact Nat.getLast_digit_ne_zero base fun hzero => hne (by rw [hzero, Nat.digits_zero])
      have hgetD : (Nat.digits base n).getD (l - 1) 0 = x := by
        rw [List.getD_eq_getElem _ _ (by omega), ← hx, List.getLast_eq_getElem]
      have hsplit : d.drop (l - i) =
          (Nat.digits base n).dropLast.drop (l - i) ++ [x] ++ List.replicate k 0 := by
        have hle : l - i ≤ (Nat.digits base n).dropLast.length := by
          rw [List.length_dropLast]
          omega
        rw [← hx, ← List.drop_append_of_le_length hle, List.dropLast_append_getLast, hd,
          List.drop_append_of_le_length (by omega)]
      have hlen : ((Nat.digits base n).dropLast.drop (l - i)).length = i - 1 := by
        rw [List.length_drop, List.length_dropLast]
        omega
      have hiff := @clearBytes_eq_zero_iff ((Nat.digits base n).dropLast.drop (l - i)) _ hx0 k
      rw [← hsplit, hlen, Nat.sub_add_cancel (Nat.one_le_iff_ne_zero.mpr hi)] at hiff
      rw [hiff, hgetD]
      exact ⟨fun h _ _ => ⟨by omega, h.2⟩, fun h => ⟨by have := (h hi hl).1; omega, (h hi hl).2⟩⟩

/-! ### Bits that are moved -/

/-- **The bits of `mpz_lshift`.** -/
theorem Mpz.lshiftBits_of (n : ℕ) (s : Bool) (k : ℕ) {i : ℕ} (hi : i < atombits) :
    ∃ j, (Mpz.of n s k).lshiftBits i = .ok (Mpz.of (n * 2 ^ i) s j) := by
  set l := (Nat.digits base n).length with hl
  obtain ⟨k', hk', hrealloc⟩ : ∃ k', 0 < k' ∧ (Mpz.of n s k).realloc (l + 1) = Mpz.of n s k' :=
    ⟨_, by omega, Mpz.realloc_of n s k (l + 1)⟩
  rw [lshiftBits, of_l, ← hl, hrealloc]
  simp only [of_l, ← hl]
  split_ifs with hzero
  · have hn : n = 0 := digits_length_eq_zero.mp hzero
    exact ⟨k', by rw [hn, Nat.zero_mul]; rfl⟩
  · obtain ⟨hproper, hvalue⟩ := lshift_spec (w := atombits) hi.le (proper_digits one_lt_base n)
      (Nat.two_pow_pos i)
    rw [← base_eq] at hproper hvalue
    rw [Nat.ofDigits_digits, Nat.add_zero] at hvalue
    have hlen := length_lshift (w := atombits) (i := i) (Nat.digits base n) 0 0
    generalize hws : Limbs.lshift atombits i (Nat.digits base n) 0 0 = ws at *
    rw [← hl] at hlen
    have hle : n ≤ n * 2 ^ i := Nat.le_mul_of_pos_right n (Nat.two_pow_pos i)
    have htop : (Mpz.of n s k').word l = .ok 0 := by
      rw [word_of s (by omega), List.getD_append_right _ _ _ _ hl.ge, ← hl, Nat.sub_self]
      simp [hk']
    have hread : (Mpz.of n s k').read 0 l = .ok (Nat.digits base n) := read_of_self n s k'
    have hwrite : (Mpz.of n s k').write 0 ws = .ok ⟨ws ++ List.replicate (k' - 1) 0, l, s⟩ := by
      rw [write_of s (by omega) (by omega), hlen, ← hl, show l + k' - (l + 1) = k' - 1 by omega]
    have hword : Mpz.word ⟨ws ++ List.replicate (k' - 1) 0, l, s⟩ l = .ok (ws.getD l 0) := by
      have hlt : l < ws.length := by omega
      rw [word, List.getElem?_append_left hlt, List.getElem?_eq_getElem hlt,
        List.getD_eq_getElem _ _ hlt]
    rw [hread, htop]
    simp only [bind, Except.bind, hws, hwrite, hword, pure, Except.pure]
    rcases eq_digits_or_append_zero hproper one_lt_base hvalue hlen
      (Nat.le_length_digits_le base _ _ hle) with ⟨hlast, hdigits⟩ | ⟨hlast, hdigits⟩
    · refine ⟨k' - 1, ?_⟩
      rw [if_pos hlast, of, ← hdigits, hlen]
    · have hsame := congrArg List.length hdigits
      rw [List.length_append, List.length_singleton, hlen, Nat.add_right_cancel_iff] at hsame
      refine ⟨k', ?_⟩
      rw [if_neg (not_not.mpr hlast), of, hdigits, List.append_assoc, List.singleton_append,
        ← List.replicate_succ, Nat.sub_add_cancel hk', hsame]

theorem lshift_replicate_zero (i l : ℕ) :
    Limbs.lshift atombits i (List.replicate l 0) 0 0 = List.replicate (l + 1) 0 := by
  induction l with
  | zero => rfl
  | succ l ih =>
    rw [List.replicate_succ, Limbs.lshift, Nat.zero_shiftLeft, Nat.zero_shiftRight, ih]
    rfl

/-- The words that zero got stay. -/
theorem Mpz.lshiftBits_zeros {l : ℕ} (hl : 0 < l) (m : ℕ) (s : Bool) (i : ℕ) :
    ∃ m', Mpz.lshiftBits ⟨List.replicate m 0, l, s⟩ i = .ok ⟨List.replicate m' 0, l, s⟩ := by
  obtain ⟨m', hm', hrealloc⟩ : ∃ m', l < m' ∧
      Mpz.realloc ⟨List.replicate m 0, l, s⟩ (l + 1) = ⟨List.replicate m' 0, l, s⟩ := by
    rw [realloc]
    split_ifs with hlt
    · exact ⟨m, by simpa using Nat.lt_of_succ_lt hlt, rfl⟩
    · refine ⟨m + (l + 1 + 1 - m), by omega, ?_⟩
      rw [List.length_replicate, List.replicate_append_replicate]
  refine ⟨m', ?_⟩
  have hread : Mpz.read ⟨List.replicate m' 0, l, s⟩ 0 l = .ok (List.replicate l 0) := by
    rw [read, if_pos (by rw [List.length_replicate]; omega), List.drop_zero, List.take_replicate,
      Nat.min_eq_left hm'.le]
  have hword : Mpz.word ⟨List.replicate m' 0, l, s⟩ l = .ok 0 := by
    rw [word, List.getElem?_replicate, if_pos hm']
  have hwrite : Mpz.write ⟨List.replicate m' 0, l, s⟩ 0 (List.replicate (l + 1) 0) =
      .ok ⟨List.replicate m' 0, l, s⟩ := by
    have hfits : 0 + (List.replicate (l + 1) 0).length ≤ (List.replicate m' 0).length := by
      rw [List.length_replicate, List.length_replicate]
      omega
    rw [write, if_pos hfits, Mem.writeAt_eq hfits, List.take_zero, List.nil_append,
      List.drop_replicate, List.replicate_append_replicate, List.length_replicate,
      show l + 1 + (m' - (0 + (l + 1))) = m' by omega]
  rw [lshiftBits, hrealloc]
  simp only [if_neg hl.ne', bind, Except.bind, hread, hword, lshift_replicate_zero, hwrite, pure,
    Except.pure]
  rfl

/-- **The bits of `mpz_rshift`.** -/
theorem rest_rshiftBits (n : ℕ) (s : Bool) (high : List ℕ) {i : ℕ} (hi : i < atombits) :
    ∃ zeros, (∀ w ∈ zeros, w = 0) ∧
      (rest n s high).rshiftBits i = .ok (rest (n / 2 ^ i) s (zeros ++ high)) := by
  rw [Mpz.rshiftBits]
  split_ifs with hzero
  · have hn : n = 0 := digits_length_eq_zero.mp hzero
    refine ⟨[], fun w hw => absurd hw List.not_mem_nil, ?_⟩
    rw [hn, Nat.zero_div]
    rfl
  · obtain ⟨l, hl⟩ : ∃ l, (Nat.digits base n).length = l + 1 := Nat.exists_eq_succ_of_ne_zero hzero
    obtain ⟨hproper, hvalue⟩ := rshift_spec (w := atombits) hi.le (proper_digits one_lt_base n)
    rw [← base_eq] at hproper hvalue
    rw [Nat.ofDigits_digits] at hvalue
    have hlen := length_rshift (w := atombits) (i := i) (Nat.digits base n)
    generalize hws : Limbs.rshift atombits i (Nat.digits base n) = ws at *
    have hread := Mpz.read_middle [] (Nat.digits base n) high (Nat.digits base n).length s
    have hwrite := Mpz.write_middle [] hlen high (Nat.digits base n).length s
    rw [List.nil_append, List.length_nil] at hread hwrite
    rw [List.nil_append] at hwrite
    rw [hl] at hlen hread hwrite
    have hword : Mpz.word ⟨ws ++ high, l + 1, s⟩ l = .ok (ws.getD l 0) := by
      have hlt : l < ws.length := by omega
      rw [Mpz.word, List.getElem?_append_left hlt, List.getElem?_eq_getElem hlt,
        List.getD_eq_getElem _ _ hlt]
    -- one word at most is shifted out
    have hle : l ≤ (Nat.digits base (n / 2 ^ i)).length := by
      rcases Nat.eq_zero_or_pos l with rfl | hpos
      · exact Nat.zero_le _
      · have hn : base ^ l ≤ n := (Nat.lt_digits_length_iff one_lt_base n).mp (by omega)
        have hdiv : base ^ (l - 1) ≤ n / 2 ^ i := by
          rw [Nat.le_div_iff_mul_le (Nat.two_pow_pos i)]
          calc base ^ (l - 1) * 2 ^ i ≤ base ^ (l - 1) * 2 ^ atombits :=
                Nat.mul_le_mul_left _ (Nat.pow_le_pow_right (by decide) hi.le)
            _ = base ^ l := by rw [← base_eq, ← pow_succ, Nat.sub_add_cancel hpos]
            _ ≤ n := hn
        have hlt := (Nat.lt_digits_length_iff one_lt_base (n / 2 ^ i)).mpr hdiv
        omega
    rw [rest, hl, hread]
    simp only [bind, Except.bind, hws, hwrite, Nat.add_sub_cancel, hword, pure, Except.pure]
    rcases eq_digits_or_append_zero hproper one_lt_base hvalue hlen hle with
      ⟨hlast, hdigits⟩ | ⟨hlast, hdigits⟩
    · refine ⟨[], fun w hw => absurd hw List.not_mem_nil, ?_⟩
      rw [if_neg hlast, rest, ← hdigits, hlen, List.nil_append]
    · have hsame := congrArg List.length hdigits
      rw [List.length_append, List.length_singleton, hlen, Nat.add_right_cancel_iff] at hsame
      refine ⟨[0], fun w hw => List.mem_singleton.mp hw, ?_⟩
      rw [if_pos hlast, rest, hdigits, List.append_assoc, hsame]

/-! ### The shifts -/

variable {r z : Ptr} {st : Store} {n : ℕ} {s : Bool} {k : ℕ}

theorem two_pow_eq (i : ℕ) : 2 ^ i = base ^ (i / atombits) * 2 ^ (i % atombits) := by
  rw [base_eq, ← pow_mul, ← pow_add, Nat.div_add_mod]

/-- **`mpz_lshift`** of a number that is not zero, or by less than a word. -/
theorem mpzLshift_eq (hr : (st r).Shape) (hz : st z = Mpz.of n s k) {i : ℕ}
    (hn : n = 0 → i < atombits) :
    ∃ j, mpzLshift r z i st = .ok (st.set r (Mpz.of (n * 2 ^ i) s j)) := by
  obtain ⟨j, hcopy, -, -⟩ := mpzSetOther_eq hr hz
  obtain ⟨j', hword⟩ := Mpz.lshiftword_of n s j (i / atombits)
  have hof : (⟨List.replicate (i / atombits) 0 ++ Nat.digits base n ++ List.replicate j' 0,
      (Nat.digits base n).length + i / atombits, s⟩ : Mpz) =
      Mpz.of (n * base ^ (i / atombits)) s j' := by
    rcases Nat.eq_zero_or_pos n with hzero | hpos
    · rw [Nat.div_eq_of_lt (hn hzero), pow_zero, Nat.mul_one]
      rfl
    · rw [Mpz.of, Nat.mul_comm n, Nat.digits_base_pow_mul one_lt_base hpos, List.length_append,
        List.length_replicate, Nat.add_comm]
  rw [hof] at hword
  rw [mpzLshift, hcopy]
  simp only [bind, Except.bind, Store.set_self, hword, Store.set_set]
  split_ifs with hbits
  · rw [two_pow_eq i, hbits, pow_zero, Nat.mul_one]
    exact ⟨j', rfl⟩
  · obtain ⟨j'', hshift⟩ := Mpz.lshiftBits_of (n * base ^ (i / atombits)) s j'
      (Nat.mod_lt i (show 0 < atombits by decide))
    rw [hshift, Nat.mul_assoc, ← two_pow_eq i]
    exact ⟨j'', rfl⟩

/-- `mpz_lshift` of zero by a word or more. -/
theorem mpzLshift_zero (hr : (st r).Shape) (hz : st z = Mpz.of 0 s k) {i : ℕ}
    (hi : atombits ≤ i) :
    ∃ m, mpzLshift r z i st = .ok (st.set r ⟨List.replicate m 0, i / atombits, s⟩) := by
  obtain ⟨j, hcopy, -, -⟩ := mpzSetOther_eq hr hz
  obtain ⟨j', hword⟩ := Mpz.lshiftword_of 0 s j (i / atombits)
  rw [Nat.digits_zero, List.append_nil, List.length_nil, Nat.zero_add,
    List.replicate_append_replicate] at hword
  rw [mpzLshift, hcopy]
  simp only [bind, Except.bind, Store.set_self, hword, Store.set_set]
  split_ifs with hbits
  · exact ⟨_, rfl⟩
  · obtain ⟨m, hshift⟩ := Mpz.lshiftBits_zeros (Nat.div_pos hi (by decide)) (i / atombits + j') s
      (i % atombits)
    rw [hshift]
    exact ⟨m, rfl⟩

/-- **`mpz_rshift`**: the number is what it should be, and there may be words left above it. -/
theorem mpzRshift_eq (hr : (st r).Shape) (hz : st z = Mpz.of n s k) (i : ℕ) :
    ∃ high, mpzRshift r z i st = .ok (st.set r (rest (n / 2 ^ i) s high)) ∧
      ((∀ w ∈ high, w = 0) ↔ (i / atombits ≠ 0 → i / atombits < (Nat.digits base n).length →
        i / atombits = 1 ∧ (Nat.digits base n).getD ((Nat.digits base n).length - 1) 0 < 256)) := by
  obtain ⟨j, hcopy, -, -⟩ := mpzSetOther_eq hr hz
  obtain ⟨high, hword, hhigh⟩ := Mpz.rshiftword_of n s j (i / atombits)
  rw [mpzRshift, hcopy]
  simp only [bind, Except.bind, Store.set_self, hword, Store.set_set]
  split_ifs with hbits
  · refine ⟨high, ?_, hhigh⟩
    rw [two_pow_eq i, hbits, pow_zero, Nat.mul_one]
    rfl
  · obtain ⟨zeros, hzeros, hshift⟩ := rest_rshiftBits (n / base ^ (i / atombits)) s high
      (Nat.mod_lt i (show 0 < atombits by decide))
    rw [hshift, Nat.div_div_eq_div_mul, ← two_pow_eq i]
    refine ⟨zeros ++ high, rfl, Iff.trans ?_ hhigh⟩
    simp only [List.mem_append]
    exact ⟨fun h w hw => h w (Or.inr hw), fun h w hw => hw.elim (hzeros w) (h w)⟩

/-! ### When they are exact -/

/-- The shifts are multiplication and truncated division by a power of two, and leave numbers that
are canonical. -/
structure ShiftsExact (r z : Ptr) (i : ℕ) (st : Store) : Prop where
  lshift : ∃ st', mpzLshift r z i st = .ok st' ∧ (st' r).Canonical ∧
    (st' r).value = (st z).value * 2 ^ i
  rshift : ∃ st', mpzRshift r z i st = .ok st' ∧ (st' r).Canonical ∧
    (st' r).value = (st z).value.sign * ((st z).value.natAbs / 2 ^ i : ℕ)

/-- What it takes: zero is shifted by less than a word; something is left of a negative number;
and if whole words are shifted out of a number, but not all of them, then it is one word, and the
highest word is a byte. -/
structure ShiftHolds (z : Mpz) (i : ℕ) : Prop where
  zero : z.value = 0 → i < atombits
  sign : z.value < 0 → 2 ^ i ≤ z.value.natAbs
  words : i / atombits ≠ 0 → i / atombits < z.l →
    i / atombits = 1 ∧ z.d.getD (z.l - 1) 0 < 256

/-- **When `mpz_lshift` leaves a canonical number.** Zero would have words, and the highest one of
them would be zero. -/
theorem mpzLshift_canonical_iff (hz : (st z).Canonical) (hr : (st r).Shape) (i : ℕ) :
    ∃ x, mpzLshift r z i st = .ok (st.set r x) ∧
      (x.Canonical ↔ ((st z).value = 0 → i < atombits)) ∧
      (x.Canonical → x.value = (st z).value * 2 ^ i) := by
  obtain ⟨n, s, k, hof, hsign⟩ := hz.exists_of
  rw [hof, Mpz.of_value_eq_zero]
  by_cases hn : n = 0 → i < atombits
  · obtain ⟨j, hlshift⟩ := mpzLshift_eq hr hof hn
    refine ⟨_, hlshift, iff_of_true (Mpz.canonical_of (fun hzero => hsign ?_) j) hn, fun _ => ?_⟩
    · exact (Nat.mul_eq_zero.mp hzero).resolve_right (Nat.two_pow_pos i).ne'
    · rw [Mpz.of_value, Mpz.of_value]
      cases s <;> simp
  · obtain ⟨rfl, hi⟩ := Classical.not_imp.mp hn
    obtain ⟨m, hlshift⟩ := mpzLshift_zero hr hof (Nat.le_of_not_lt hi)
    have hnot : ¬(⟨List.replicate m 0, i / atombits, s⟩ : Mpz).Canonical := fun hcanonical => by
      refine hcanonical.top (Nat.div_pos (Nat.le_of_not_lt hi) (by decide)).ne' ?_
      exact getD_of_forall_eq_zero (fun w hw => List.eq_of_mem_replicate hw) _
    exact ⟨_, hlshift, iff_of_false hnot hn, fun hcanonical => absurd hcanonical hnot⟩

/-- **When `mpz_rshift` leaves a canonical number.** Its value is right in any case. -/
theorem mpzRshift_canonical_iff (hz : (st z).Canonical) (hr : (st r).Shape) (i : ℕ) :
    ∃ x, mpzRshift r z i st = .ok (st.set r x) ∧
      (x.Canonical ↔ ((st z).value < 0 → 2 ^ i ≤ (st z).value.natAbs) ∧
        (i / atombits ≠ 0 → i / atombits < (st z).l →
          i / atombits = 1 ∧ (st z).d.getD ((st z).l - 1) 0 < 256)) ∧
      x.value = (st z).value.sign * ((st z).value.natAbs / 2 ^ i : ℕ) := by
  obtain ⟨n, s, k, hof, hsign⟩ := hz.exists_of
  obtain ⟨high, hrshift, hhigh⟩ := mpzRshift_eq hr hof i
  have htop : i / atombits < (Nat.digits base n).length →
      (st z).d.getD ((st z).l - 1) 0 =
        (Nat.digits base n).getD ((Nat.digits base n).length - 1) 0 := by
    intro hlt
    rw [hof, Mpz.of_l, Mpz.of_d,
      List.getD_append _ _ _ _ (Nat.sub_lt (Nat.zero_lt_of_lt hlt) Nat.one_pos)]
  -- nothing is left of a negative number
  have hneg : (n / 2 ^ i = 0 → s = false) ↔
      ((st z).value < 0 → 2 ^ i ≤ (st z).value.natAbs) := by
    rw [hof, Mpz.of_value_natAbs, Nat.div_eq_zero_iff, or_iff_right (Nat.two_pow_pos i).ne']
    cases s with
    | false => simp [Mpz.of_value]
    | true =>
      have hn : n ≠ 0 := fun hzero => Bool.noConfusion (hsign hzero)
      simp [Mpz.of_value, Nat.pos_of_ne_zero hn]
  refine ⟨_, hrshift, ?_, ?_⟩
  · rw [rest_canonical_iff, hhigh, hneg, and_comm]
    refine and_congr_right fun _ => imp_congr_right fun _ => ?_
    rw [show (st z).l = (Nat.digits base n).length by rw [hof, Mpz.of_l]] at htop ⊢
    exact ⟨fun h hlt => htop hlt ▸ h hlt, fun h hlt => (htop hlt).symm ▸ h hlt⟩
  · rw [rest_value, hof, Mpz.of_value_natAbs, Mpz.of_value]
    rcases Nat.eq_zero_or_pos n with rfl | hpos
    · simp
    · cases s <;> simp [Int.sign_eq_one_of_pos (Int.natCast_pos.mpr hpos)]

/-- **The shifts are exact in these cases and no others.** -/
theorem shifts_exact_iff {i : ℕ} (hz : (st z).Canonical) (hr : (st r).Shape) :
    ShiftsExact r z i st ↔ ShiftHolds (st z) i := by
  obtain ⟨x, hlshift, hlcanonical, hlvalue⟩ := mpzLshift_canonical_iff hz hr i
  obtain ⟨y, hrshift, hrcanonical, hrvalue⟩ := mpzRshift_canonical_iff hz hr i
  constructor
  · intro h
    obtain ⟨st₁, h₁, hcanonical₁, -⟩ := h.lshift
    obtain ⟨st₂, h₂, hcanonical₂, -⟩ := h.rshift
    rw [hlshift] at h₁
    rw [hrshift] at h₂
    cases h₁
    cases h₂
    rw [Store.set_self] at hcanonical₁ hcanonical₂
    obtain ⟨hsign, hwords⟩ := hrcanonical.mp hcanonical₂
    exact ⟨hlcanonical.mp hcanonical₁, hsign, hwords⟩
  · intro h
    have hx := hlcanonical.mpr h.zero
    have hy := hrcanonical.mpr ⟨h.sign, h.words⟩
    refine ⟨⟨_, hlshift, ?_, ?_⟩, ⟨_, hrshift, ?_, ?_⟩⟩
    · rwa [Store.set_self]
    · rw [Store.set_self, hlvalue hx]
    · rwa [Store.set_self]
    · rw [Store.set_self, hrvalue]

/-- One number of two words, in every object. -/
def twoWords : Store := fun _ => ⟨[0, 256], 2, false⟩

theorem twoWords_canonical (p : Ptr) : (twoWords p).Canonical where
  le := Nat.le_refl 2
  lt := show ∀ w ∈ [0, 256], w < base by decide
  top _ := show ([0, 256] : List ℕ).getD 1 0 ≠ 0 by decide
  stale w hw := absurd hw List.not_mem_nil
  sign h := absurd (show 2 = 0 from h) (by decide)

/-- Zero by 32 bits is a number of one word; minus one by one bit is a negative zero; and a word
stays above a number of two words that is shifted by 32 bits. -/
theorem shifts_inexact :
    ¬ShiftsExact (.obj 0) (.obj 0) 32 (fun _ => immediate 0 false) ∧
      ¬ShiftsExact (.obj 0) (.obj 0) 1 (fun _ => immediate 1 true) ∧
      (∀ p, (twoWords p).Canonical) ∧ ¬ShiftsExact (.obj 0) (.obj 1) 32 twoWords := by
  refine ⟨fun h => ?_, fun h => ?_, twoWords_canonical, fun h => ?_⟩
  · have hrun : (mpzLshift (.obj 0) (.obj 0) 32 (fun _ => immediate 0 false)).map
        (fun st => st (.obj 0)) = .ok ⟨[0], 1, false⟩ := by rfl
    obtain ⟨st', hst', hcanonical, -⟩ := h.lshift
    rw [hst'] at hrun
    rw [show st' (.obj 0) = _ from Except.ok.inj hrun] at hcanonical
    exact hcanonical.top (by decide) rfl
  · have hrun : (mpzRshift (.obj 0) (.obj 0) 1 (fun _ => immediate 1 true)).map
        (fun st => st (.obj 0)) = .ok ⟨[0], 0, true⟩ := by rfl
    obtain ⟨st', hst', hcanonical, -⟩ := h.rshift
    rw [hst'] at hrun
    rw [show st' (.obj 0) = _ from Except.ok.inj hrun] at hcanonical
    exact absurd (hcanonical.sign rfl) (by decide)
  · have hrun : (mpzRshift (.obj 0) (.obj 1) 32 twoWords).map (fun st => st (.obj 0)) =
        .ok ⟨[256, 256, 0], 1, false⟩ := by rfl
    obtain ⟨st', hst', hcanonical, -⟩ := h.rshift
    rw [hst'] at hrun
    rw [show st' (.obj 0) = _ from Except.ok.inj hrun] at hcanonical
    exact absurd (hcanonical.stale 256 (by decide)) (by decide)

/-- A shift by three bits in place is exact. -/
theorem shifts_exact_three :
    ShiftsExact (.obj 0) (.obj 0) 3 (fun _ => Mpz.of (2 ^ 40) true 0) := by
  have hcanonical : (Mpz.of (2 ^ 40) true 0).Canonical :=
    Mpz.canonical_of (fun hzero => absurd hzero (by decide)) 0
  refine (shifts_exact_iff hcanonical hcanonical.toShape).mpr ⟨fun _ => by decide, fun _ => ?_,
    fun hne => absurd rfl hne⟩
  rw [Mpz.of_value_natAbs]
  decide

end StyxWire.Sbn
