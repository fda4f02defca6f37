import StyxWire.Lib.CString
import StyxWire.Sbn.Comparison
import StyxWire.Sbn.NumberParsing

/-!
# Number printing

`mpz_tostr` divides by the greatest power of the base that is a word, writes the digits of the
remainders behind each other, the lowest one first, then the sign and a NUL, and turns the text
round. Every character goes to the buffer by `StyxWire.Sbn.putChar`, which is an error behind the
end of the buffer.

The callers allocate what `mpz_sizeinbase` says and two bytes. It multiplies the number of the words
with a constant, the logarithm of the base of the words with six decimals, to which one millionth is
added. That this is not less than the logarithm is seen from a fraction in between, for each base
(`StyxWire.Sbn.logBounds`): so the digits are never more than the estimate
(`StyxWire.Sbn.digits_length_le_sizeinbase`).

For a shorter buffer the function takes its length. The loops test it, but only one is taken from
it, and never again (`StyxWire.Sbn.tostr_bounded_iff`).
-/

namespace StyxWire.Sbn

open Limbs Text

/-! ### The tables -/

/-- `basetable`, in millionths. -/
def basetable : List ℕ :=
  [0, 0, 32000000, 20189752, 16000000, 13781650, 12379290, 11398630, 10666667, 10094876, 9632960,
    9250074, 8926174, 8647621, 8404785, 8190657, 8000000, 7828817, 7673999, 7533085, 7404103,
    7285448, 7175802, 7074071, 6979337, 6890825, 6807874, 6729917, 6656467, 6587099, 6521442,
    6459171, 6400000, 6343676, 6289972, 6238689, 6189645]

/-- `basepowtable`: the greatest power of each base that is a word, and its exponent. -/
def basepowtable : List (ℕ × ℕ) :=
  [(0, 0), (0, 0), (2147483648, 31), (3486784401, 20), (1073741824, 15), (1220703125, 13),
    (2176782336, 12), (1977326743, 11), (1073741824, 10), (3486784401, 10), (1000000000, 9),
    (2357947691, 9), (429981696, 8), (815730721, 8), (1475789056, 8), (2562890625, 8),
    (268435456, 7), (410338673, 7), (612220032, 7), (893871739, 7), (1280000000, 7),
    (1801088541, 7), (2494357888, 7), (3404825447, 7), (191102976, 6), (244140625, 6),
    (308915776, 6), (387420489, 6), (481890304, 6), (594823321, 6), (729000000, 6),
    (887503681, 6), (1073741824, 6), (1291467969, 6), (1544804416, 6), (1838265625, 6),
    (2176782336, 6)]

/-- `cset`. -/
def cset : List UInt8 := lit "0123456789abcdefghijklmnopqrstuvwxyz"

/-- `sbn_valtochar`. -/
def sbnValtochar (v : ℕ) : UInt8 := cset.getD v 0

/-! ### The functions -/

/-- `mpz_sizeinbase`; `SBN_INVAL` is 2. -/
def mpzSizeinbase (z : Mpz) (b : ℕ) : ℕ :=
  if b < 2 ∨ 36 < b then 2 else ((basetable.getD b 0 + 1) * z.l + 1000000) / 1000000

/-- `_mpz_selfdiv1_qr_raw`, of a number that is not zero. -/
def Mpz.selfdiv1 (z : Mpz) (d : ℕ) : Except Stop (Mpz × ℕ) :=
  if z.l = 0 then .error .fault
  else do
    let ws ← z.read 0 z.l
    let z ← z.write 0 (div1 base d ws).1
    let top ← z.word (z.l - 1)
    return (if top = 0 then { z with l := z.l - 1 } else z, (div1 base d ws).2)

/-- `*d++ = c`, where `d` is a place in the buffer. -/
def putChar : List UInt8 × ℕ → UInt8 → Except Stop (List UInt8 × ℕ) := Mem.put .fault

/-- The inner loop: the digits of a remainder. Those of the last one end with the highest digit. -/
def tostrDigits (b l : ℕ) (last : Bool) :
    ℕ → ℕ → List UInt8 × ℕ → Except Stop (List UInt8 × ℕ)
  | 0, _, out => .ok out
  | i + 1, x, out =>
    if l ≠ 0 then do
      let out ← putChar out (sbnValtochar (x % b))
      if x / b = 0 ∧ last then return out else tostrDigits b l last i (x / b) out
    else .ok out

/-- The outer loop. -/
def tostrLoop (b l : ℕ) : ℕ → Mpz → List UInt8 × ℕ → Except Stop (List UInt8 × ℕ)
  | 0, _, _ => .error .forever
  | fuel + 1, t, out =>
    if t.l ≠ 0 ∧ l ≠ 0 then do
      let (t, x) ← t.selfdiv1 (basepowtable.getD b (0, 0)).1
      let out ← tostrDigits b l (t.l = 0) (basepowtable.getD b (0, 0)).2 x out
      tostrLoop b l fuel t out
    else .ok out

/-- The last loop: what is from the place `p` on up to the place `d`, not included, is turned round.
-/
def reverseBytes : ℕ → ℕ → List UInt8 → List UInt8
  | 0, _, s => s
  | d + 1, p, s =>
    if p < d then reverseBytes d (p + 1) ((s.set p (s.getD d 0)).set d (s.getD p 0)) else s

/-- From the label `done` on. -/
def tostrDone (neg : Bool) (l : ℕ) (out : List UInt8 × ℕ) : Except Stop (List UInt8) := do
  let out ← if l ≠ 0 ∧ neg then putChar out (ch '-') else .ok out
  let out ← putChar out 0
  return reverseBytes (out.2 - 1) 0 out.1

/-- `mpz_tostr`: what the buffer holds afterwards. -/
def mpzTostr (z : Ptr) (b : ℕ) (s : List UInt8) (l : ℕ) (st : Store) : Except Stop (List UInt8) :=
  if b < 2 ∨ 36 < b then .error .inval
  else if l = 0 then .ok s
  else if (st z).l = 0 then do
    let out ← putChar (s, 0) (ch '0')
    tostrDone (st z).s l out
  else do
    let st' ← mpzSet .t z (st.set .t Mpz.init)
    let out ← tostrLoop b (l - 1) ((st z).mag + 1) (st' .t) (s, 0)
    tostrDone (st z).s (l - 1) out

/-- `mpz_get_str`, with a buffer that is given or allocated. -/
def mpzGetStr (str : List UInt8) (b : ℕ) (z : Ptr) (st : Store) :
    Except Stop (Option (List UInt8)) :=
  if b < 2 ∨ 36 < b then .ok none
  else do
    let s ← mpzTostr z b str (mpzSizeinbase (st z) b + 2) st
    return some s

/-! ### The tables -/

theorem basepowtable_spec {b : ℕ} (hb : 2 ≤ b) (hb' : b ≤ 36) :
    (basepowtable.getD b (0, 0)).1 = b ^ (basepowtable.getD b (0, 0)).2 ∧
      (basepowtable.getD b (0, 0)).2 ≠ 0 ∧ (basepowtable.getD b (0, 0)).1 < base := by
  interval_cases b <;> decide

/-- For each base a fraction that lies between the logarithm of the base of the words and the
constant with its millionth. -/
def logBounds : List (ℕ × ℕ) :=
  [(0, 0), (0, 0), (32, 1), (35857, 1776), (16, 1), (19377, 1406), (20921, 1690), (8321, 730),
    (32, 3), (5320, 527), (17243, 1790), (30849, 3335), (1330, 149), (28001, 3238), (8430, 1003),
    (8592, 1049), (8, 1), (6357, 812), (3837, 500), (10132, 1345), (8300, 1121), (11766, 1615),
    (14531, 2025), (95981, 13568), (19591, 2807), (7511, 1090), (4323, 635), (10640, 1581),
    (4786, 719), (13991, 2124), (6691, 1026), (5458, 845), (32, 5), (10835, 1708), (2321, 369),
    (3999, 641), (10640, 1719)]

theorem logBounds_spec : ∀ b < 37, 2 ≤ b →
    0 < (logBounds.getD b (0, 0)).2 ∧
      2 ^ (32 * (logBounds.getD b (0, 0)).2) ≤ b ^ (logBounds.getD b (0, 0)).1 ∧
      (logBounds.getD b (0, 0)).1 * 1000000 ≤
        (basetable.getD b 0 + 1) * (logBounds.getD b (0, 0)).2 := by
  decide +kernel

/-- **The estimate is enough for the digits.** -/
theorem digits_length_le_sizeinbase {z : Mpz} {n b : ℕ} (hz : z.l = (Nat.digits base n).length)
    (hb : 2 ≤ b) (hb' : b ≤ 36) : (Nat.digits b n).length ≤ mpzSizeinbase z b := by
  rw [mpzSizeinbase, if_neg (by omega), hz]
  obtain ⟨hq, hlog, hconst⟩ := logBounds_spec b (by omega) hb
  generalize logBounds.getD b (0, 0) = bound at *
  obtain ⟨p, q⟩ := bound
  dsimp only at hq hlog hconst
  set l := (Nat.digits base n).length with hl
  rcases Nat.eq_zero_or_pos n with rfl | hn
  · rw [Nat.digits_zero, List.length_nil]
    exact Nat.zero_le _
  · obtain ⟨k, hk⟩ : ∃ k, (Nat.digits b n).length = k + 1 :=
      Nat.exists_eq_succ_of_ne_zero
        (List.length_eq_zero_iff.not.mpr (Nat.digits_ne_nil_iff_ne_zero.mpr hn.ne'))
    -- `k` digits are not more than all the words
    have hpow : b ^ k < 2 ^ (32 * l) := by
      calc b ^ k ≤ n := (Nat.lt_digits_length_iff (by omega) n).mp (by omega)
        _ < base ^ l := Nat.lt_base_pow_length_digits one_lt_base
        _ = 2 ^ (32 * l) := by rw [base, ← pow_mul]
    have hcompare : b ^ (k * q) < b ^ (p * l) := by
      calc b ^ (k * q) = (b ^ k) ^ q := pow_mul _ _ _
        _ < (2 ^ (32 * l)) ^ q := Nat.pow_lt_pow_left hpow hq.ne'
        _ = (2 ^ (32 * q)) ^ l := by rw [← pow_mul, ← pow_mul]; ring_nf
        _ ≤ (b ^ p) ^ l := Nat.pow_le_pow_left hlog l
        _ = b ^ (p * l) := (pow_mul _ _ _).symm
    have hlt : k * q < p * l := (Nat.pow_lt_pow_iff_right (by omega)).mp hcompare
    have hmillion : k * 1000000 ≤ (basetable.getD b 0 + 1) * l := by
      refine Nat.le_of_mul_le_mul_right ?_ hq
      calc k * 1000000 * q = k * q * 1000000 := by ring
        _ ≤ p * l * 1000000 := Nat.mul_le_mul_right _ hlt.le
        _ = p * 1000000 * l := by ring
        _ ≤ (basetable.getD b 0 + 1) * q * l := Nat.mul_le_mul_right _ hconst
        _ = (basetable.getD b 0 + 1) * l * q := by ring
    rw [hk]
    omega

/-! ### Division -/

theorem Mpz.selfdiv1_of {n : ℕ} (hn : n ≠ 0) (s : Bool) (k : ℕ) {d : ℕ} (hd : 0 < d)
    (hlt : d < base) : ∃ j, (Mpz.of n s k).selfdiv1 d = .ok (Mpz.of (n / d) s j, n % d) := by
  obtain ⟨l, hl⟩ : ∃ l, (Nat.digits base n).length = l + 1 :=
    Nat.exists_eq_succ_of_ne_zero (digits_length_eq_zero.not.mpr hn)
  obtain ⟨hlen, hproper, hquot, hrem⟩ := div1_spec hd (proper_digits one_lt_base n)
  rw [Nat.ofDigits_digits] at hquot hrem
  generalize hws : div1 base d (Nat.digits base n) = qr at *
  obtain ⟨ws, x⟩ := qr
  dsimp only at hlen hproper hquot hrem
  have hwrite := @Mpz.write_of n s k ws hlen.ge (by omega)
  rw [hlen, Nat.add_sub_cancel_left, hl] at hwrite
  rw [hl] at hlen
  -- one word at most is lost
  have hle : l ≤ (Nat.digits base (n / d)).length := by
    rcases Nat.eq_zero_or_pos l with rfl | hpos
    · exact Nat.zero_le _
    · have hbase : base ^ l ≤ n := (Nat.lt_digits_length_iff one_lt_base n).mp (by omega)
      have hdiv : base ^ (l - 1) ≤ n / d := by
        rw [Nat.le_div_iff_mul_le hd]
        calc base ^ (l - 1) * d ≤ base ^ (l - 1) * base := Nat.mul_le_mul_left _ hlt.le
          _ = base ^ l := by rw [← pow_succ, Nat.sub_add_cancel hpos]
          _ ≤ n := hbase
      have := (Nat.lt_digits_length_iff one_lt_base (n / d)).mpr hdiv
      omega
  have hword : Mpz.word ⟨ws ++ List.replicate k 0, l + 1, s⟩ l = .ok (ws.getD l 0) := by
    have hlt : l < ws.length := by omega
    rw [Mpz.word, List.getElem?_append_left hlt, List.getElem?_eq_getElem hlt,
      List.getD_eq_getElem _ _ hlt]
  have hread := read_of_self n s k
  rw [hl] at hread
  rw [selfdiv1, of_l, hl, if_neg (Nat.succ_ne_zero l), hread, ok_bind, hws, hwrite, ok_bind,
    Nat.add_sub_cancel, hword, ok_bind, hrem]
  rcases eq_digits_or_append_zero hproper one_lt_base hquot hlen hle with
    ⟨hlast, hdigits⟩ | ⟨hlast, hdigits⟩
  · refine ⟨k, ?_⟩
    rw [if_neg hlast, of, ← hdigits, hlen]
    rfl
  · refine ⟨k + 1, ?_⟩
    have hsame := congrArg List.length hdigits
    rw [List.length_append, List.length_singleton, hlen, Nat.add_right_cancel_iff] at hsame
    rw [if_pos hlast, of, hdigits, ← hsame, List.append_assoc, List.replicate_succ]
    rfl

/-! ### The characters -/

/-- The lowest `i` digits of a number, the lowest one first. -/
def lowDigits (b : ℕ) : ℕ → ℕ → List ℕ
  | 0, _ => []
  | i + 1, x => x % b :: lowDigits b i (x / b)

/-- A number is divided by a power of the base. -/
theorem lowDigits_append {b : ℕ} (hb : 2 ≤ b) (i : ℕ) {n : ℕ} (hn : n / b ^ i ≠ 0) :
    lowDigits b i (n % b ^ i) ++ Nat.digits b (n / b ^ i) = Nat.digits b n := by
  induction i generalizing n with
  | zero => rw [lowDigits, pow_zero, Nat.div_one, List.nil_append]
  | succ i ih =>
    have hpow : b ^ (i + 1) = b * b ^ i := by rw [pow_succ, Nat.mul_comm]
    rw [hpow, ← Nat.div_div_eq_div_mul] at hn
    have hpos : 0 < n := by
      rcases Nat.eq_zero_or_pos n with rfl | hpos
      · simp at hn
      · exact hpos
    rw [lowDigits, hpow, Nat.mod_mul_right_mod, Nat.mod_mul_right_div_self,
      ← Nat.div_div_eq_div_mul, List.cons_append, ih hn, ← Nat.digits_def' hb hpos]

/-- The digits of a remainder that is not the last one. -/
theorem tostrDigits_eq (b : ℕ) {l : ℕ} (hl : l ≠ 0) (i x : ℕ) (out : List UInt8 × ℕ) :
    tostrDigits b l false i x out = ((lowDigits b i x).map sbnValtochar).foldlM putChar out := by
  induction i generalizing x out with
  | zero => rfl
  | succ i ih =>
    rw [tostrDigits, if_pos hl, lowDigits, List.map_cons, List.foldlM_cons]
    congr 1
    funext out'
    rw [if_neg (by simp), ih]

/-- Those of the last one. -/
theorem tostrDigits_last {b : ℕ} (hb : 2 ≤ b) {l : ℕ} (hl : l ≠ 0) {i x : ℕ} (hx : x ≠ 0)
    (hlt : x < b ^ i) (out : List UInt8 × ℕ) :
    tostrDigits b l true i x out = ((Nat.digits b x).map sbnValtochar).foldlM putChar out := by
  induction i generalizing x out with
  | zero =>
    rw [pow_zero] at hlt
    omega
  | succ i ih =>
    rw [tostrDigits, if_pos hl, Nat.digits_def' hb (Nat.pos_of_ne_zero hx), List.map_cons,
      List.foldlM_cons]
    congr 1
    funext out'
    by_cases hzero : x / b = 0
    · rw [if_pos ⟨hzero, rfl⟩, hzero, Nat.digits_zero]
      rfl
    · rw [if_neg (by simp [hzero])]
      refine ih hzero ?_ out'
      rw [Nat.div_lt_iff_lt_mul (by omega), ← pow_succ]
      exact hlt

/-- **The loops write the digits**, the lowest one first. -/
theorem tostrLoop_eq {b : ℕ} (hb : 2 ≤ b) (hb' : b ≤ 36) {l : ℕ} (hl : l ≠ 0) {fuel n : ℕ}
    (hfuel : n < fuel) (s : Bool) (k : ℕ) (out : List UInt8 × ℕ) :
    tostrLoop b l fuel (.of n s k) out =
      ((Nat.digits b n).map sbnValtochar).foldlM putChar out := by
  induction fuel generalizing n k out with
  | zero => exact absurd hfuel (Nat.not_lt_zero n)
  | succ fuel ih =>
    obtain ⟨hpow, hexp, hlt⟩ := basepowtable_spec hb hb'
    rw [tostrLoop]
    generalize basepowtable.getD b (0, 0) = entry at *
    obtain ⟨hp, i⟩ := entry
    dsimp only at hpow hexp hlt ⊢
    have hone : 1 < hp := hpow ▸ Nat.one_lt_pow hexp (by omega)
    by_cases hn : n = 0
    · rw [if_neg (by simp [hn]), hn, Nat.digits_zero]
      rfl
    · obtain ⟨j, hdiv⟩ := Mpz.selfdiv1_of hn s k (Nat.zero_lt_of_lt hone) hlt
      rw [if_pos ⟨digits_length_eq_zero.not.mpr hn, hl⟩, hdiv, ok_bind]
      dsimp only
      have hless : n / hp < fuel :=
        (Nat.div_lt_self (Nat.pos_of_ne_zero hn) hone).trans_le (Nat.lt_succ_iff.mp hfuel)
      have hless' : n % hp < b ^ i := hpow ▸ Nat.mod_lt n (Nat.zero_lt_of_lt hone)
      obtain ⟨ds, hdigits, hall⟩ : ∃ ds, ds ++ Nat.digits b (n / hp) = Nat.digits b n ∧
          tostrDigits b l ((Mpz.of (n / hp) s j).l = 0) i (n % hp) out =
            (ds.map sbnValtochar).foldlM putChar out := by
        by_cases hlast : n / hp = 0
        · have hmod : n % hp = n := by
            rw [Nat.mod_eq_of_lt ((Nat.div_eq_zero_iff_lt (Nat.zero_lt_of_lt hone)).mp hlast)]
          have hl' : decide ((Mpz.of (n / hp) s j).l = 0) = true := by simp [hlast]
          rw [hmod] at hless'
          refine ⟨Nat.digits b n, by rw [hlast, Nat.digits_zero, List.append_nil], ?_⟩
          rw [hl', hmod, tostrDigits_last hb hl hn hless']
        · have hl' : decide ((Mpz.of (n / hp) s j).l = 0) = false :=
            decide_eq_false (digits_length_eq_zero.not.mpr hlast)
          refine ⟨lowDigits b i (n % hp), ?_, by rw [hl', tostrDigits_eq b hl]⟩
          rw [hpow] at hlast ⊢
          exact lowDigits_append hb i hlast
      have hrest : tostrLoop b l fuel (.of (n / hp) s j) =
          ((Nat.digits b (n / hp)).map sbnValtochar).foldlM putChar :=
        funext fun out => ih hless j out
      rw [hall, hrest, ← hdigits, List.map_append, List.foldlM_append]

theorem reverseBytes_of_le {d p : ℕ} (h : d ≤ p + 1) (s : List UInt8) : reverseBytes d p s = s := by
  cases d with
  | zero => rfl
  | succ d => rw [reverseBytes, if_neg (by omega)]

/-- **The text is turned round.** -/
theorem reverseBytes_eq (mid pre post : List UInt8) :
    reverseBytes (pre ++ mid).length pre.length (pre ++ mid ++ post) =
      pre ++ mid.reverse ++ post := by
  induction mid using List.bidirectionalRec generalizing pre post with
  | nil => rw [reverseBytes_of_le (by simp), List.reverse_nil]
  | singleton a => rw [reverseBytes_of_le (by simp), List.reverse_singleton]
  | cons_append a mid b ih =>
    have hlen : (pre ++ a :: (mid ++ [b])).length = (pre ++ mid).length + 1 + 1 := by
      simp only [List.length_append, List.length_cons, List.length_nil]
      omega
    have hfirst : (pre ++ a :: (mid ++ [b]) ++ post).getD pre.length 0 = a := by simp
    have hlast : (pre ++ a :: (mid ++ [b]) ++ post).getD ((pre ++ mid).length + 1) 0 = b := by
      have hsplit : pre ++ a :: (mid ++ [b]) ++ post = (pre ++ a :: mid) ++ b :: post := by simp
      rw [hsplit, List.getD_append_right _ _ _ _ (by simp; omega)]
      simp
    have hlen' : (pre ++ [b] ++ mid).length = (pre ++ mid).length + 1 := by
      simp only [List.length_append, List.length_cons, List.length_nil]
      omega
    have hswap : ((pre ++ a :: (mid ++ [b]) ++ post).set pre.length b).set
        ((pre ++ mid).length + 1) a = pre ++ [b] ++ mid ++ a :: post := by
      have hsplit : pre ++ a :: (mid ++ [b]) ++ post = pre ++ a :: (mid ++ b :: post) := by simp
      have hsplit' : pre ++ b :: (mid ++ b :: post) = (pre ++ [b] ++ mid) ++ b :: post := by simp
      rw [hsplit, List.set_append_right _ _ (Nat.le_refl _), Nat.sub_self, List.set_cons_zero,
        hsplit', ← hlen', List.set_append_right _ _ (Nat.le_refl _), Nat.sub_self,
        List.set_cons_zero]
    have hturn := ih (pre ++ [b]) (a :: post)
    rw [hlen', show (pre ++ [b]).length = pre.length + 1 by simp] at hturn
    rw [hlen, reverseBytes, if_pos (by rw [List.length_append]; omega), hfirst, hlast, hswap, hturn]
    simp

/-! ### The text -/

/-- The digits of a number, the lowest one first. -/
def digitsText (b n : ℕ) : List UInt8 :=
  if n = 0 then [ch '0'] else (Nat.digits b n).map sbnValtochar

/-- The text of a number. -/
def numberText (b n : ℕ) (neg : Bool) : List UInt8 :=
  (if neg then [ch '-'] else []) ++ (digitsText b n).reverse

/-- **What is behind the digits**: the sign and the NUL, if they fit. -/
theorem foldlM_tostrDone (cs : List UInt8) (neg : Bool) (l : ℕ) (s : List UInt8) :
    (cs.foldlM putChar (s, 0) >>= tostrDone neg l) =
      if (cs ++ if l ≠ 0 ∧ neg then [ch '-'] else []).length + 1 ≤ s.length then
        .ok ((cs ++ if l ≠ 0 ∧ neg then [ch '-'] else []).reverse ++
          0 :: s.drop ((cs ++ if l ≠ 0 ∧ neg then [ch '-'] else []).length + 1))
      else .error .fault := by
  have hdone : tostrDone neg l = fun out =>
      (((if l ≠ 0 ∧ neg then [ch '-'] else []) ++ [0]).foldlM putChar out >>= fun out =>
        .ok (reverseBytes (out.2 - 1) 0 out.1)) := by
    funext out
    rw [tostrDone]
    split_ifs with h
    · simp only [List.foldlM_append, List.foldlM_cons, List.foldlM_nil, bind_assoc, pure_bind]
      rfl
    · simp only [List.nil_append, List.foldlM_cons, List.foldlM_nil, bind_assoc, pure_bind]
      rfl
  generalize (if l ≠ 0 ∧ neg then [ch '-'] else []) = sign at *
  have hput := Mem.foldlM_put Stop.fault (cs ++ sign ++ [0]) [] s
  have hlen : (cs ++ sign ++ [0]).length = (cs ++ sign).length + 1 := by
    rw [List.length_append, List.length_singleton]
  rw [List.nil_append, List.nil_append, List.length_nil, hlen] at hput
  rw [hdone, ← bind_assoc, ← List.foldlM_append, ← List.append_assoc, putChar, hput]
  split_ifs with hfits
  · have hturn := reverseBytes_eq (cs ++ sign) [] (0 :: s.drop ((cs ++ sign).length + 1))
    rw [List.nil_append, List.nil_append, List.length_nil] at hturn
    rw [ok_bind, List.append_assoc (cs ++ sign), List.singleton_append]
    dsimp only
    rw [Nat.add_sub_cancel, hturn]
  · rfl

section Tostr

variable {z n b l : ℕ} {neg : Bool} {high : List ℕ} {st : Store}

/-- The digits, and what is behind them. -/
theorem mpzTostr_of_ne (hz : st (.obj z) = rest n neg high) (hb : 2 ≤ b) (hb' : b ≤ 36)
    (hn : n ≠ 0) (s : List UInt8) :
    mpzTostr (.obj z) b s (l + 1) st =
      ((if l = 0 then [] else (Nat.digits b n).map sbnValtochar).foldlM putChar (s, 0) >>=
        tostrDone neg l) := by
  have hne : (rest n neg high).l ≠ 0 := digits_length_eq_zero.not.mpr hn
  obtain ⟨j, -, hset⟩ := @mpzSet_of_read .t (.obj z) (by simp) (st.set .t Mpz.init)
    (by rw [Store.set_self]; exact Mpz.init_shape) n neg
    (by rw [Store.set_of_ne _ (by simp), hz, rest_l])
    (by rw [Store.set_of_ne _ (by simp), hz, rest_s])
    (by rw [Store.set_of_ne _ (by simp), hz, rest_read])
  rw [mpzTostr, if_neg (by omega), if_neg (Nat.succ_ne_zero l), hz, if_neg hne, hset, ok_bind,
    Store.set_self, rest_mag, rest_s, Nat.add_sub_cancel]
  congr 1
  split_ifs with hl
  · rw [hl, tostrLoop, if_neg (by simp)]
    rfl
  · exact tostrLoop_eq hb hb' hl (Nat.lt_succ_self n) neg j (s, 0)

/-- **What `mpz_tostr` writes**, unless there is one byte for a number that is not zero. -/
theorem mpzTostr_eq (hz : st (.obj z) = rest n neg high) (hb : 2 ≤ b) (hb' : b ≤ 36)
    (hl : 1 ≤ l) (hl' : n ≠ 0 → 2 ≤ l) (s : List UInt8) :
    mpzTostr (.obj z) b s l st =
      if (numberText b n neg).length + 1 ≤ s.length then
        .ok (numberText b n neg ++ 0 :: s.drop ((numberText b n neg).length + 1))
      else .error .fault := by
  have htext : numberText b n neg =
      (digitsText b n ++ if neg then [ch '-'] else []).reverse := by
    rw [numberText, List.reverse_append]
    cases neg <;> rfl
  obtain ⟨l, rfl⟩ := Nat.exists_eq_add_of_le' hl
  rw [htext, List.length_reverse]
  by_cases hn : n = 0
  · have hrun : mpzTostr (.obj z) b s (l + 1) st =
        ([ch '0'].foldlM putChar (s, 0) >>= tostrDone neg (l + 1)) := by
      rw [mpzTostr, if_neg (by omega), if_neg (Nat.succ_ne_zero l), hz, hn, if_pos (by simp)]
      simp only [List.foldlM_cons, List.foldlM_nil, bind_assoc, pure_bind]
      rfl
    rw [hrun, foldlM_tostrDone, digitsText, if_pos hn]
    simp
  · have hl0 : l ≠ 0 := by
      have := hl' hn
      omega
    rw [mpzTostr_of_ne hz hb hb' hn, if_neg hl0, foldlM_tostrDone, digitsText, if_neg hn]
    simp [hl0]

/-- One byte holds the NUL. -/
theorem mpzTostr_one (hz : st (.obj z) = rest n neg high) (hb : 2 ≤ b) (hb' : b ≤ 36)
    (hn : n ≠ 0) (s : List UInt8) :
    mpzTostr (.obj z) b s 1 st = if 1 ≤ s.length then .ok (0 :: s.drop 1) else .error .fault := by
  rw [mpzTostr_of_ne hz hb hb' hn, if_pos rfl, foldlM_tostrDone]
  rfl

end Tostr

/-- The characters of a number are its digits, one for zero, and the sign. -/
theorem length_numberText (b n : ℕ) (neg : Bool) :
    (numberText b n neg).length =
      max 1 (Nat.digits b n).length + if neg then 1 else 0 := by
  have hdigits : (digitsText b n).length = max 1 (Nat.digits b n).length := by
    rw [digitsText]
    split_ifs with hn
    · rw [hn, Nat.digits_zero]
      rfl
    · have hpos : 0 < (Nat.digits b n).length :=
        List.length_pos_of_ne_nil (Nat.digits_ne_nil_iff_ne_zero.mpr hn)
      rw [List.length_map, max_eq_right hpos]
  rw [numberText, List.length_append, List.length_reverse, hdigits, Nat.add_comm]
  cases neg <;> rfl

variable {z b l : ℕ} {st : Store}

/-- The text and the NUL fit in what the estimate leaves room for. -/
theorem numberText_fits (hz : (st (.obj z)).Trimmed) (hb : 2 ≤ b) (hb' : b ≤ 36) :
    (numberText b (st (.obj z)).mag (st (.obj z)).s).length + 1 ≤
      mpzSizeinbase (st (.obj z)) b + 2 := by
  have hl : (st (.obj z)).l = (Nat.digits base (st (.obj z)).mag).length := by
    rw [hz.exists_rest, rest_l, rest_mag]
  have hdigits := digits_length_le_sizeinbase hl hb hb'
  have hone : 1 ≤ mpzSizeinbase (st (.obj z)) b := by
    rw [mpzSizeinbase, if_neg (by omega)]
    omega
  rw [length_numberText]
  split_ifs <;> omega

/-- What is in a buffer of that size. -/
theorem mpzTostr_sizeinbase (hz : (st (.obj z)).Trimmed) (hb : 2 ≤ b) (hb' : b ≤ 36)
    {s : List UInt8} (hs : mpzSizeinbase (st (.obj z)) b + 2 ≤ s.length) :
    mpzTostr (.obj z) b s (mpzSizeinbase (st (.obj z)) b + 2) st =
      .ok (numberText b (st (.obj z)).mag (st (.obj z)).s ++
        0 :: s.drop ((numberText b (st (.obj z)).mag (st (.obj z)).s).length + 1)) := by
  rw [mpzTostr_eq hz.exists_rest hb hb' (by omega) (fun _ => by omega),
    if_pos ((numberText_fits hz hb hb').trans hs)]

theorem mpzGetStr_sizeinbase (hz : (st (.obj z)).Trimmed) (hb : 2 ≤ b) (hb' : b ≤ 36)
    {s : List UInt8} (hs : mpzSizeinbase (st (.obj z)) b + 2 ≤ s.length) :
    mpzGetStr s b (.obj z) st =
      .ok (some (numberText b (st (.obj z)).mag (st (.obj z)).s ++
        0 :: s.drop ((numberText b (st (.obj z)).mag (st (.obj z)).s).length + 1))) := by
  rw [mpzGetStr, if_neg (by omega), mpzTostr_sizeinbase hz hb hb' hs]
  rfl

/-- **The estimate is enough**: the buffer that is allocated for a number holds its digits, the sign
and the NUL. -/
theorem sizeinbase_enough (hz : (st (.obj z)).Trimmed) (hb : 2 ≤ b) (hb' : b ≤ 36)
    {s : List UInt8} (hs : mpzSizeinbase (st (.obj z)) b + 2 ≤ s.length) :
    ∃ text, text = numberText b (st (.obj z)).mag (st (.obj z)).s ∧
      text.length + 1 ≤ mpzSizeinbase (st (.obj z)) b + 2 ∧
      mpzTostr (.obj z) b s (mpzSizeinbase (st (.obj z)) b + 2) st =
        .ok (text ++ 0 :: s.drop (text.length + 1)) ∧
      mpzGetStr s b (.obj z) st = .ok (some (text ++ 0 :: s.drop (text.length + 1))) :=
  ⟨_, rfl, numberText_fits hz hb hb', mpzTostr_sizeinbase hz hb hb' hs,
    mpzGetStr_sizeinbase hz hb hb' hs⟩

/-- Objects that hold minus ten. -/
def minusTen : Store := fun _ => immediate 10 true

theorem minusTen_trimmed (p : Ptr) : (minusTen p).Trimmed := by
  have hof : minusTen p = Mpz.of 10 true 0 := immediate_eq (by decide) true
  rw [hof]
  exact (Mpz.shape_of 10 true 0).trimmed

/-- Twelve bytes for minus ten. -/
theorem sizeinbase_enough_ten :
    ∃ text, text = numberText 10 (minusTen (.obj 0)).mag (minusTen (.obj 0)).s ∧
      text.length + 1 ≤ mpzSizeinbase (minusTen (.obj 0)) 10 + 2 ∧
      mpzTostr (.obj 0) 10 (List.replicate 12 0) (mpzSizeinbase (minusTen (.obj 0)) 10 + 2)
          minusTen = .ok (text ++ 0 :: (List.replicate 12 0).drop (text.length + 1)) ∧
      mpzGetStr (List.replicate 12 0) 10 (.obj 0) minusTen =
        .ok (some (text ++ 0 :: (List.replicate 12 0).drop (text.length + 1))) :=
  sizeinbase_enough (minusTen_trimmed _) (by decide) (by decide) (by decide)

/-- `mpz_tostr` honours the length of the buffer: nothing is written behind it, and there is a NUL
in it. -/
def TostrBounded (z : Ptr) (b l : ℕ) (st : Store) : Prop :=
  ∀ s : List UInt8, s.length = l →
    ∃ s', mpzTostr z b s l st = .ok s' ∧ s'.length = l ∧ 0 ∈ s'

/-- **The length is honoured where the number fits, or one byte holds the NUL of a number that is
not zero**, and nowhere else. -/
theorem tostr_bounded_iff (hz : (st (.obj z)).Trimmed) (hb : 2 ≤ b) (hb' : b ≤ 36) (hl : 1 ≤ l) :
    TostrBounded (.obj z) b l st ↔
      ((st (.obj z)).mag ≠ 0 ∧ l = 1) ∨
        max 1 (Nat.digits b (st (.obj z)).mag).length + (if (st (.obj z)).s then 1 else 0) + 1 ≤
          l := by
  have hrest := hz.exists_rest
  set n := (st (.obj z)).mag
  set neg := (st (.obj z)).s
  by_cases hone : n ≠ 0 ∧ l = 1
  · refine ⟨fun _ => Or.inl hone, fun _ s hs => ?_⟩
    refine ⟨0 :: s.drop 1, ?_, ?_, List.mem_cons_self⟩
    · rw [hone.2] at hs ⊢
      rw [mpzTostr_one hrest hb hb' hone.1, if_pos hs.ge]
    · rw [List.length_cons, List.length_drop]
      omega
  · have hrun := fun s => mpzTostr_eq (l := l) hrest hb hb' hl (fun hn => by
      have : l ≠ 1 := fun hl => hone ⟨hn, hl⟩
      omega) s
    rw [length_numberText] at hrun
    constructor
    · intro h
      obtain ⟨s', hs', -⟩ := h (List.replicate l 0) List.length_replicate
      rw [hrun, List.length_replicate] at hs'
      by_cases hfits : max 1 (Nat.digits b n).length + (if neg then 1 else 0) + 1 ≤ l
      · exact Or.inr hfits
      · rw [if_neg hfits] at hs'
        nomatch hs'
    · rintro (h | hfits) s hs
      · exact absurd h hone
      · refine ⟨_, by rw [hrun, if_pos (hs ▸ hfits)], ?_, ?_⟩
        · rw [List.length_append, List.length_cons, List.length_drop, length_numberText]
          omega
        · simp

/-- The two digits of ten and the sign, behind a buffer of two bytes. -/
theorem tostr_unbounded :
    (minusTen (.obj 0)).value = -10 ∧ ¬TostrBounded (.obj 0) 10 2 minusTen := by
  have hfault : mpzTostr (.obj 0) 10 [0, 0] 2 minusTen = .error .fault := by
    have hof : minusTen (.obj 0) = rest 10 true [] := by rfl
    rw [mpzTostr_eq hof (by decide) (by decide) (by decide) (by decide), length_numberText]
    simp
  refine ⟨by decide, fun h => ?_⟩
  obtain ⟨s', hs', -⟩ := h [0, 0] rfl
  rw [hfault] at hs'
  nomatch hs'

/-- Four bytes are enough. -/
theorem tostr_bounded_four : TostrBounded (.obj 0) 10 4 minusTen := by
  refine (tostr_bounded_iff (minusTen_trimmed _) (by decide) (by decide) (by decide)).mpr
    (Or.inr ?_)
  have hmag : (minusTen (.obj 0)).mag = 10 := by decide
  rw [hmag]
  simp [minusTen, immediate]

end StyxWire.Sbn
