import StyxWire.Lib.LimbProducts
import StyxWire.Sbn.Addition

/-!
# Multiplication

`mpz_muli_raw` is schoolbook multiplication: for each word of the second factor, a row is
added to the words of the result (`Limbs.mulAdd`), and its last carry is the word above. The
result is a number of its own, `rt`, if it is the first factor, and the words of the second
factor are copied if it is that one; the sign is set before.

The words above the rows that were added are zero all along (`StyxWire.Sbn.mulRows_spec`), so
the carry of a row is written over a zero.
-/

namespace StyxWire.Sbn

open Limbs

/-! ### The functions -/

/-- One turn of the outer loop: the words `zs` of the first factor are multiplied by the word
`w`, the one with number `j`, of the second. -/
def mulRow (zs : List ℕ) (w j : ℕ) (r : Mpz) : Except Stop Mpz := do
  let rs ← r.read j zs.length
  let row := Limbs.mulAdd base w zs rs 0
  let r ← r.write j row.1
  if row.2 ≠ 0 then r.write (j + zs.length) [row.2] else return r

/-- The values of `mul` in it, before they are cut to 64 bits. -/
def mulRowSums (zs : List ℕ) (w j : ℕ) (r : Mpz) : List ℕ :=
  match r.read j zs.length with
  | .ok rs => Limbs.mulAddSums base w zs rs 0
  | .error _ => []

/-- The outer loop, from the word with number `j` on. -/
def mulRows (zs : List ℕ) : List ℕ → ℕ → Mpz → Except Stop Mpz
  | [], _, r => .ok r
  | w :: ds, j, r => do
    let r ← mulRow zs w j r
    mulRows zs ds (j + 1) r

/-- The values of `mul` in it. -/
def mulRowsSums (zs : List ℕ) : List ℕ → ℕ → Mpz → List ℕ
  | [], _, _ => []
  | w :: ds, j, r => mulRowSums zs w j r ++
    match mulRow zs w j r with
    | .ok r => mulRowsSums zs ds (j + 1) r
    | .error _ => []

/-- The number that the rows are added to, cleared: `rt`, with the sign of the result, if the
result is the first factor. -/
def mulTarget (r z : Ptr) (l : ℕ) (st : Store) : Except Stop Mpz :=
  Mpz.zeroRealloc (if r = z then { Mpz.init with s := (st r).s } else st r) ((st z).l + l)

/-- `mpz_muli_raw`. The words `d` are those at the call. (The number `t` of the source is
allocated and not used.) -/
def mpzMuliRaw (r z : Ptr) (d : List ℕ) (l : ℕ) (st : Store) : Except Stop Store := do
  let maxi := (st z).l + l
  let target ← mulTarget r z l st
  let ds ← Mpz.read ⟨d, l, false⟩ 0 l
  let zs ← (st z).read 0 (st z).l
  let res ← mulRows zs ds 0 target
  let res := Mpz.normalize { res with l := maxi }
  if r = z then mpzSet r .rt (st.set .rt res) else return st.set r res

/-- The values of `mul` in it. -/
def mpzMuliRawSums (r z : Ptr) (d : List ℕ) (l : ℕ) (st : Store) : Except Stop (List ℕ) := do
  let target ← mulTarget r z l st
  let ds ← Mpz.read ⟨d, l, false⟩ 0 l
  let zs ← (st z).read 0 (st z).l
  return mulRowsSums zs ds 0 target

/-- `mpz_mul`. -/
def mpzMul (r z f : Ptr) (st : Store) : Except Stop Store :=
  let st := st.setSign r ((st z).s ^^ (st f).s)
  mpzMuliRaw r z (st f).d (st f).l st

/-- The values of `mul` in it. -/
def mpzMulSums (r z f : Ptr) (st : Store) : Except Stop (List ℕ) :=
  let st := st.setSign r ((st z).s ^^ (st f).s)
  mpzMuliRawSums r z (st f).d (st f).l st

/-- `mpz_mul_ui`. -/
def mpzMulUi (r z : Ptr) (u : ℕ) (st : Store) : Except Stop Store :=
  let st := st.setSign r (st z).s
  mpzMuliRaw r z (immediate u false).d (immediate u false).l st

/-! ### The loop -/

/-- **One row**, over the words that were written before, with zeros above them. -/
theorem mulRow_spec {zs : List ℕ} (hzs : Proper base zs) {w : ℕ} (hw : w < base) (low : List ℕ)
    {mid : List ℕ} (hmid : Proper base mid) (hlen : zs.length = mid.length) (k l : ℕ) (s : Bool) :
    ∃ row car, row.length = mid.length ∧ Proper base row ∧ car < base ∧
      Nat.ofDigits base row + base ^ mid.length * car =
        Nat.ofDigits base mid + w * Nat.ofDigits base zs ∧
      mulRow zs w low.length ⟨low ++ mid ++ List.replicate (k + 1) 0, l, s⟩ =
        .ok ⟨low ++ (row ++ [car]) ++ List.replicate k 0, l, s⟩ ∧
      ∀ sum ∈ mulRowSums zs w low.length ⟨low ++ mid ++ List.replicate (k + 1) 0, l, s⟩,
        sum < base ^ 2 := by
  obtain ⟨hproper, hcar, hvalue, hsums⟩ := mulAdd_spec hw hlen hzs hmid base_pos
  have hrow := length_mulAdd (b := base) (w := w) hlen 0
  rw [mulRow, mulRowSums, hlen, Mpz.read_middle]
  simp only [bind, Except.bind]
  generalize mulAdd base w zs mid 0 = row at *
  refine ⟨row.1, row.2, hrow, hproper, hcar, hvalue, ?_, hsums⟩
  have hsplit : low ++ row.1 ++ List.replicate (k + 1) 0 =
      (low ++ row.1) ++ [0] ++ List.replicate k 0 := by
    rw [List.append_assoc (low ++ row.1), List.singleton_append, ← List.replicate_succ]
  have hcarry : Mpz.write ⟨low ++ row.1 ++ List.replicate (k + 1) 0, l, s⟩
      (low.length + mid.length) [row.2] =
      .ok ⟨low ++ (row.1 ++ [row.2]) ++ List.replicate k 0, l, s⟩ := by
    have hlength : low.length + mid.length = (low ++ row.1).length := by
      rw [List.length_append, hrow]
    have hone : [row.2].length = [0].length := rfl
    rw [hsplit, hlength, Mpz.write_middle (low ++ row.1) hone, List.append_assoc low]
  simp only [Mpz.write_middle low hrow]
  split_ifs with hzero
  · exact hcarry
  · -- there is no carry, and the word above the row is a zero already
    rw [not_ne_iff.mp hzero, hsplit, List.append_assoc low]
    rfl

/-- **The rows**: the product is added to what is there. -/
theorem mulRows_spec {zs : List ℕ} (hzs : Proper base zs) {ds : List ℕ} (hds : Proper base ds)
    (low : List ℕ) {mid : List ℕ} (hlow : Proper base low) (hmid : Proper base mid)
    (hlen : zs.length = mid.length) (k l : ℕ) (s : Bool) :
    ∃ ws, ws.length = low.length + mid.length + ds.length ∧ Proper base ws ∧
      Nat.ofDigits base ws = Nat.ofDigits base (low ++ mid) +
        base ^ low.length * (Nat.ofDigits base zs * Nat.ofDigits base ds) ∧
      mulRows zs ds low.length ⟨low ++ mid ++ List.replicate (k + ds.length) 0, l, s⟩ =
        .ok ⟨ws ++ List.replicate k 0, l, s⟩ ∧
      ∀ sum ∈ mulRowsSums zs ds low.length ⟨low ++ mid ++ List.replicate (k + ds.length) 0, l, s⟩,
        sum < base ^ 2 := by
  induction ds generalizing low mid with
  | nil =>
    refine ⟨low ++ mid, by simp, proper_append.mpr ⟨hlow, hmid⟩, by simp, rfl, fun _ hsum => ?_⟩
    exact absurd hsum List.not_mem_nil
  | cons w ds ih =>
    obtain ⟨hw, hds⟩ := proper_cons.mp hds
    obtain ⟨row, car, hrow, hproper, hcar, hvalue, hcomputes, hsums⟩ :=
      mulRow_spec hzs hw low hmid hlen (k + ds.length) l s
    -- the lowest word of the row is not touched again
    obtain ⟨x, row', hcons⟩ : ∃ x row', row ++ [car] = x :: row' :=
      List.exists_cons_of_ne_nil (by simp)
    have hrow' : row'.length = mid.length := by
      have hlength := congrArg List.length hcons
      simp only [List.length_append, List.length_cons, List.length_nil] at hlength
      omega
    have hall : Proper base (x :: row') := by
      rw [← hcons]
      exact proper_append.mpr ⟨hproper, proper_cons.mpr ⟨hcar, proper_nil⟩⟩
    obtain ⟨hx, hrest⟩ := proper_cons.mp hall
    obtain ⟨ws, hlength, hws, hvalue', hcomputes', hsums'⟩ := ih hds (low ++ [x])
      (proper_append.mpr ⟨hlow, proper_cons.mpr ⟨hx, proper_nil⟩⟩) hrest (hlen.trans hrow'.symm)
    have hsplit : low ++ (row ++ [car]) = low ++ [x] ++ row' := by
      rw [hcons, List.append_assoc, List.singleton_append]
    rw [List.length_append, List.length_singleton] at hlength hvalue' hcomputes' hsums'
    rw [hsplit] at hcomputes
    refine ⟨ws, ?_, hws, ?_, ?_, ?_⟩
    · rw [hlength, List.length_cons, hrow']
      omega
    · have hsum : Nat.ofDigits base (low ++ [x] ++ row') =
          Nat.ofDigits base low + base ^ low.length *
            (Nat.ofDigits base mid + w * Nat.ofDigits base zs) := by
        rw [← hsplit, Nat.ofDigits_append, Nat.ofDigits_append, Nat.ofDigits_singleton, hrow,
          hvalue]
      rw [hvalue', hsum, Nat.ofDigits_append, Nat.ofDigits_cons, pow_succ]
      ring
    · rw [List.length_cons, ← Nat.add_assoc, mulRows, hcomputes]
      exact hcomputes'
    · rw [List.length_cons, ← Nat.add_assoc, mulRowsSums, hcomputes]
      intro sum hsum
      rcases List.mem_append.mp hsum with hsum | hsum
      · exact hsums sum hsum
      · exact hsums' sum hsum

/-! ### The product -/

variable {r z f : Ptr} {st : Store}

theorem mulTarget_eq (hr : (st r).Shape) (l : ℕ) :
    ∃ j, 0 < j ∧ mulTarget r z l st = .ok (Mpz.of 0 (st r).s ((st z).l + (l + j))) := by
  have htarget : ∃ n k, (if r = z then { Mpz.init with s := (st r).s } else st r) =
      Mpz.of n (st r).s k := by
    split_ifs
    · refine ⟨0, 0, ?_⟩
      rw [Mpz.of_zero]
      rfl
    · obtain ⟨k, hk⟩ := Mpz.shape_iff.mp hr
      exact ⟨_, k, hk⟩
  obtain ⟨n, k, hof⟩ := htarget
  obtain ⟨j, hj, hzero⟩ := Mpz.zeroRealloc_of n (st r).s k ((st z).l + l)
  refine ⟨j - ((st z).l + l), by omega, ?_⟩
  rw [mulTarget, hof, hzero, show (st z).l + (l + (j - ((st z).l + l))) = j by omega]

/-- **`mpz_muli_raw` multiplies the magnitudes**, no sum has more than 64 bits, and nothing else
is changed. -/
theorem mpzMuliRaw_eq (hrt : r ≠ .rt) (hr : (st r).Shape) {n : ℕ} {s : Bool}
    {k : ℕ} (hz : st z = Mpz.of n s k) (m : ℕ) (s' : Bool) (k' : ℕ) :
    (∃ st' i, mpzMuliRaw r z (Mpz.of m s' k').d (Nat.digits base m).length st = .ok st' ∧
      st' r = Mpz.of (n * m) ((st r).s && n * m ≠ 0) i ∧
      ∀ p, p ≠ r → p ≠ .rt → st' p = st p) ∧
    ∃ sums, mpzMuliRawSums r z (Mpz.of m s' k').d (Nat.digits base m).length st = .ok sums ∧
      ∀ sum ∈ sums, sum < 2 ^ 64 := by
  obtain ⟨j, hj, htarget⟩ := mulTarget_eq (z := z) hr (Nat.digits base m).length
  have hmid : Proper base (List.replicate (Nat.digits base n).length 0) :=
    proper_replicate_zero base_pos _
  obtain ⟨ws, hlength, hws, hvalue, hrows, hsums⟩ := mulRows_spec (proper_digits one_lt_base n)
    (proper_digits one_lt_base m) [] proper_nil hmid List.length_replicate.symm j 0 (st r).s
  rw [List.nil_append, Nat.ofDigits_replicate_zero, Nat.ofDigits_digits, Nat.ofDigits_digits,
    List.length_nil, pow_zero, Nat.one_mul, Nat.zero_add] at hvalue
  have hzeros : Mpz.of 0 (st r).s ((Nat.digits base n).length + ((Nat.digits base m).length + j)) =
      ⟨[] ++ List.replicate (Nat.digits base n).length 0 ++
        List.replicate (j + (Nat.digits base m).length) 0, 0, (st r).s⟩ := by
    rw [Mpz.of_zero, List.nil_append, List.replicate_append_replicate, Nat.add_comm j]
  rw [← hzeros, List.length_nil] at hrows hsums
  rw [hz, Mpz.of_l] at htarget
  -- the words are normalized as those of the product
  have hall : Proper base (ws ++ List.replicate j 0) :=
    proper_append.mpr ⟨hws, proper_replicate_zero base_pos j⟩
  have hne : ws ++ List.replicate j 0 ≠ [] := by
    refine List.append_ne_nil_of_right_ne_nil _ fun hnil => hj.ne' ?_
    rwa [List.replicate_eq_nil_iff] at hnil
  obtain ⟨i, -, hnormalize⟩ := Mpz.normalize_eq hall hne
    ((Nat.digits base n).length + (Nat.digits base m).length) (st r).s
  rw [Nat.ofDigits_append_replicate_zero, hvalue] at hnormalize
  constructor
  · rw [mpzMuliRaw, htarget, hz, read_operand]
    simp only [bind, Except.bind, Mpz.of_l, Mpz.read_of_self, hrows, hnormalize]
    split_ifs with hrz
    · have hshape : ((st.set .rt (Mpz.of (n * m) ((st r).s && n * m ≠ 0) i)) r).Shape := by
        rwa [Store.set_of_ne _ hrt]
      obtain ⟨i', -, hset⟩ := mpzSet_eq hrt hshape (Store.set_self _ _ _)
      refine ⟨_, i', hset, Store.set_self _ _ _, fun p hp hprt => ?_⟩
      rw [Store.set_of_ne _ hp, Store.set_of_ne _ hprt]
    · exact ⟨_, i, rfl, Store.set_self _ _ _, fun p hp _ => Store.set_of_ne _ hp _⟩
  · rw [mpzMuliRawSums, htarget, hz, read_operand]
    simp only [bind, Except.bind, Mpz.of_l, Mpz.read_of_self]
    exact ⟨_, rfl, hsums⟩

/-- The sign of a product. -/
theorem product_value (n m : ℕ) (s s' : Bool) (i : ℕ) :
    (Mpz.of (n * m) ((s ^^ s') && n * m ≠ 0) i).value =
      (if s then -(n : ℤ) else n) * if s' then -(m : ℤ) else m := by
  rw [Mpz.of_value]
  rcases eq_or_ne (n * m) 0 with hzero | hne
  · rcases Nat.mul_eq_zero.mp hzero with rfl | rfl <;> simp
  · cases s <;> cases s' <;> simp [Nat.mul_ne_zero_iff.mp hne]

theorem mpzMul_eq (hrt : r ≠ .rt) (hr : (st r).Shape) {n m : ℕ} {s s' : Bool}
    {k k' : ℕ} (hz : st z = Mpz.of n s k) (hf : st f = Mpz.of m s' k') :
    (∃ st' i, mpzMul r z f st = .ok st' ∧
      st' r = Mpz.of (n * m) ((s ^^ s') && n * m ≠ 0) i ∧
      ∀ p, p ≠ r → p ≠ .rt → st' p = st p) ∧
    ∃ sums, mpzMulSums r z f st = .ok sums ∧ ∀ sum ∈ sums, sum < 2 ^ 64 := by
  have hz' : ∃ c, st.setSign r (s ^^ s') z = Mpz.of n c k := by
    by_cases hzr : z = r
    · subst hzr
      rw [Store.setSign, Store.set_self, hz]
      exact ⟨_, rfl⟩
    · rw [Store.setSign, Store.set_of_ne _ hzr]
      exact ⟨s, hz⟩
  have hf' : ∃ c, st.setSign r (s ^^ s') f = Mpz.of m c k' := by
    by_cases hfr : f = r
    · subst hfr
      rw [Store.setSign, Store.set_self, hf]
      exact ⟨_, rfl⟩
    · rw [Store.setSign, Store.set_of_ne _ hfr]
      exact ⟨s', hf⟩
  obtain ⟨c, hz'⟩ := hz'
  obtain ⟨c', hf'⟩ := hf'
  have hsign : (st.setSign r (s ^^ s') r).s = (s ^^ s') := by rw [Store.setSign, Store.set_self]
  have hshape : (st.setSign r (s ^^ s') r).Shape := by
    rw [Store.setSign, Store.set_self]
    exact ⟨hr.le, hr.lt, hr.top, hr.stale⟩
  obtain ⟨⟨st', i, hraw, hres, hother⟩, hsums⟩ := mpzMuliRaw_eq hrt hshape hz' m c' k'
  rw [hsign] at hres
  constructor
  · refine ⟨st', i, ?_, hres, fun p hp hprt => ?_⟩
    · rw [mpzMul, hz, hf]
      simp only [Mpz.of_s, hf', Mpz.of_l]
      exact hraw
    · rw [hother p hp hprt, Store.setSign, Store.set_of_ne _ hp]
  · rw [mpzMulSums, hz, hf]
    simp only [Mpz.of_s, hf', Mpz.of_l]
    exact hsums

/-- A number, whose zero may have a sign, is where a pointer points to. -/
structure Store.Holds (st : Store) (p : Ptr) (v : ℤ) : Prop where
  shape : (st p).Shape
  value : (st p).value = v

theorem Store.holds_of (st : Store) (p : Ptr) (n k : ℕ) :
    (st.set p (Mpz.of n false k)).Holds p n where
  shape := by
    rw [Store.set_self]
    exact Mpz.shape_of n false k
  value := by rw [Store.set_self, Mpz.of_value, if_neg Bool.false_ne_true]

theorem Store.Holds.pads {p : Ptr} {v : ℤ} {st' : Store} (h : st.Holds p v)
    (hpads : (st p).Pads (st' p)) : st'.Holds p v := by
  obtain ⟨hshape, hmag, hs⟩ := h.shape.pads hpads
  refine ⟨hshape, ?_⟩
  rw [Mpz.value, hmag, hs]
  exact h.value

theorem Store.Holds.setSign {p : Ptr} {v : ℕ} (h : st.Holds p v) (s : Bool) :
    (st.setSign p s).Holds p (if s then -(v : ℤ) else v) := by
  obtain ⟨a, c, i, ha⟩ := h.shape.exists_of
  have hnat : a = v := by
    rw [← Int.natAbs_natCast v, ← h.value, ha, Mpz.of_value_natAbs]
  refine ⟨?_, ?_⟩
  · rw [Store.setSign, Store.set_self]
    exact h.shape.setSign s
  · rw [Store.setSign, Store.set_self, ha, ← hnat]
    exact Mpz.of_value a s i

/-- **`mpz_mul` multiplies.** -/
theorem mpzMul_holds (hrt : r ≠ .rt) (hr : (st r).Shape) {v w : ℤ} (hz : st.Holds z v)
    (hf : st.Holds f w) :
    ∃ st', mpzMul r z f st = .ok st' ∧ (st' r).Canonical ∧ st'.Holds r (v * w) ∧
      ∀ p, p ≠ r → p ≠ .rt → st' p = st p := by
  obtain ⟨n, s, k, hn⟩ := hz.shape.exists_of
  obtain ⟨m, s', k', hm⟩ := hf.shape.exists_of
  obtain ⟨⟨st', i, hmul, hres, hother⟩, -⟩ := mpzMul_eq hrt hr hn hm
  have hcanonical : (st' r).Canonical := by
    rw [hres]
    exact Mpz.canonical_of (fun hzero => by simp [hzero]) i
  refine ⟨st', hmul, hcanonical, ⟨hcanonical.toShape, ?_⟩, hother⟩
  rw [hres, product_value, ← hz.value, ← hf.value, hn, hm, Mpz.of_value, Mpz.of_value]

/-- **`mpz_mul_ui` multiplies** in place. -/
theorem mpzMulUi_holds (hrt : r ≠ .rt) {v u : ℕ} (hu : u < base) (hr : st.Holds r v) :
    ∃ st', mpzMulUi r r u st = .ok st' ∧ st'.Holds r (v * u : ℕ) ∧
      ∀ p, p ≠ r → p ≠ .rt → st' p = st p := by
  obtain ⟨n, s, k, hn⟩ := hr.shape.exists_of
  have hself : st.setSign r (st r).s = st := by
    rw [Store.setSign, Store.set, Function.update_eq_self]
  obtain ⟨⟨st', i, hraw, hres, hother⟩, -⟩ := mpzMuliRaw_eq hrt hr.shape hn u false 0
  refine ⟨st', ?_, ⟨hres ▸ Mpz.shape_of _ _ _, ?_⟩, hother⟩
  · rw [mpzMulUi, hself, immediate_eq hu]
    exact hraw
  · have hvalue := product_value n u s false i
    rw [Bool.xor_false, if_neg Bool.false_ne_true, ← Mpz.of_value n s k, ← hn, hr.value] at hvalue
    rw [hres, hn, Mpz.of_s, hvalue, Nat.cast_mul]

/-- **Multiplication is exact**, whichever of the objects are the same: nothing outside the
allocated words is accessed, no sum has more than 64 bits, the result is canonical, and no other
object is changed. -/
theorem mul_exact {r z f : ℕ} (hz : (st (.obj z)).Canonical) (hf : (st (.obj f)).Canonical)
    (hr : (st (.obj r)).Shape) :
    (∃ st', mpzMul (.obj r) (.obj z) (.obj f) st = .ok st' ∧ (st' (.obj r)).Canonical ∧
      (st' (.obj r)).value = (st (.obj z)).value * (st (.obj f)).value ∧
      ∀ p, p ≠ r → st' (.obj p) = st (.obj p)) ∧
    ∃ sums, mpzMulSums (.obj r) (.obj z) (.obj f) st = .ok sums ∧ ∀ sum ∈ sums, sum < 2 ^ 64 := by
  obtain ⟨n, s, k, hz, -⟩ := hz.exists_of
  obtain ⟨m, s', k', hf, -⟩ := hf.exists_of
  obtain ⟨⟨st', i, hmul, hres, hother⟩, hsums⟩ := mpzMul_eq (r := .obj r) nofun hr hz hf
  refine ⟨⟨st', hmul, ?_, ?_, fun p hp => hother _ (fun h => hp (Ptr.obj.inj h)) nofun⟩, hsums⟩
  · rw [hres]
    exact Mpz.canonical_of (fun hzero => by simp [hzero]) i
  · rw [hres, hz, hf, product_value, Mpz.of_value, Mpz.of_value]

/-- A number of two words is squared in place. -/
theorem mul_exact_square :
    ∃ st', mpzMul (.obj 0) (.obj 0) (.obj 0) (fun _ => Mpz.of (2 ^ 40) true 0) = .ok st' ∧
      (st' (.obj 0)).value = 2 ^ 80 := by
  have hcanonical : (Mpz.of (2 ^ 40) true 0).Canonical :=
    Mpz.canonical_of (fun hzero => absurd hzero (by decide)) 0
  obtain ⟨⟨st', hmul, -, hvalue, -⟩, -⟩ :=
    @mul_exact (fun _ => Mpz.of (2 ^ 40) true 0) 0 0 0 hcanonical hcanonical hcanonical.toShape
  refine ⟨st', hmul, hvalue.trans ?_⟩
  rw [Mpz.of_value]
  rfl

end StyxWire.Sbn
