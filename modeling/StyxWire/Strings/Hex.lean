import Mathlib.Data.List.GetD
import StyxWire.Lib.CString
import StyxWire.Lib.Text

/-!
# Hexadecimal strings

`bintohex` writes two digits for each byte, and `hextobin` reads them back. What the digits are is a
matter of texts (`StyxWire.Strings.hexText`, `StyxWire.Strings.hexBytes`), where the two are inverse
to each other but for the case of the letters. The functions work on blocks of memory.

The decoder finds the end of the text by `strlen`, and keeps the length in an `int`. The encoder
does not write the NUL that is documented, so that the end is found only if there is a NUL already
(`StyxWire.Strings.hex_exact_iff`); and a text of `2 ^ 31` characters or more is not read in full.
-/

namespace StyxWire.Strings

open Text

/-! ### The functions -/

/-- An access outside a block. -/
inductive Outside
  | outside
  deriving DecidableEq, Repr

/-- A number as an `int`. -/
def toInt (x : ℤ) : ℤ := Int.bmod x (2 ^ 32)

/-- `hval`. -/
def hval : List ℕ :=
  List.replicate 48 255 ++ [0, 1, 2, 3, 4, 5, 6, 7, 8, 9] ++ List.replicate 7 255 ++
    [10, 11, 12, 13, 14, 15] ++ List.replicate 26 255 ++ [10, 11, 12, 13, 14, 15] ++
    List.replicate 153 255

/-- `hcharset`. -/
def hcharset : List UInt8 := lit "0123456789abcdef"

/-- The loop of `hextobin`: the value, and the bytes at `dest`. -/
def hextobinLoop : ℕ → List UInt8 → List UInt8 × ℕ → Except Outside (ℤ × List UInt8)
  | 0, _, out => .ok (0, out.1)
  | n + 1, c :: c' :: s, out =>
    let high := hval.getD c.toNat 255
    let low := hval.getD c'.toNat 255
    if high = 255 ∨ low = 255 then .ok (1, out.1)
    else do
      let out ← Mem.put .outside out (UInt8.ofNat ((high <<< 4) ||| low))
      hextobinLoop n s out
  | _ + 1, _, _ => .error .outside

/-- `hextobin`, when the length is known. -/
def hextobinLen (dest hexstr : List UInt8) (len : ℤ) : Except Outside (ℤ × List UInt8) :=
  if len.tmod 2 ≠ 0 then .ok (1, dest)
  else hextobinLoop (len.tdiv 2).toNat hexstr (dest, 0)

/-- `hextobin`. -/
def hextobin (dest hexstr : List UInt8) (len : ℤ) : Except Outside (ℤ × List UInt8) :=
  if len = -1 then
    match Mem.strlen .outside hexstr with
    | .ok n => hextobinLen dest hexstr (toInt n)
    | .error e => .error e
  else hextobinLen dest hexstr len

/-- The loop of `bintohex`. -/
def bintohexLoop : ℕ → List UInt8 → List UInt8 × ℕ → Except Outside (List UInt8 × ℕ)
  | 0, _, out => .ok out
  | n + 1, b :: bin, out => do
    let low := b.toNat &&& 0xF
    let high := (b.toNat &&& 0xF0) >>> 4
    let out ← Mem.put .outside out (hcharset.getD high 0)
    let out ← Mem.put .outside out (hcharset.getD low 0)
    bintohexLoop n bin out
  | _ + 1, [], _ => .error .outside

/-- `bintohex`: what is at `dest` afterwards. -/
def bintohex (dest bin : List UInt8) (len : ℤ) : Except Outside (List UInt8) :=
  (bintohexLoop len.toNat bin (dest, 0)).map (·.1)

/-! ### The texts -/

/-- The digits of a byte. -/
def hexPair (b : UInt8) : List UInt8 :=
  [hcharset.getD (b.toNat / 16) 0, hcharset.getD (b.toNat % 16) 0]

/-- The digits of some bytes. -/
def hexText (bs : List UInt8) : List UInt8 := bs.flatMap hexPair

/-- The bytes whose digits they are. -/
def hexBytes : List UInt8 → List UInt8
  | c :: c' :: s => UInt8.ofNat (16 * digitVal c + digitVal c') :: hexBytes s
  | _ => []

theorem length_hexText (bs : List UInt8) : (hexText bs).length = 2 * bs.length := by
  induction bs with
  | nil => rfl
  | cons b bs ih =>
    rw [hexText, List.flatMap_cons, List.length_append, ← hexText, ih, List.length_cons]
    simp only [hexPair, List.length_cons, List.length_nil]
    omega

theorem length_hexBytes {s : List UInt8} {n : ℕ} (hs : s.length = 2 * n) :
    (hexBytes s).length = n := by
  induction n generalizing s with
  | zero =>
    rw [List.length_eq_zero_iff.mp hs]
    rfl
  | succ n ih =>
    obtain ⟨c, c', s, rfl⟩ : ∃ c c' s', s = c :: c' :: s' := by
      match s, hs with
      | c :: c' :: s, _ => exact ⟨c, c', s, rfl⟩
    rw [hexBytes, List.length_cons, ih (by simp only [List.length_cons] at hs; omega)]

/-! ### Digits -/

theorem hval_eq (c : UInt8) :
    hval.getD c.toNat 255 = if digitVal c < 16 then digitVal c else 255 := by
  have hall : ∀ n < 256, hval.getD n 255 =
      if digitVal (UInt8.ofNat n) < 16 then digitVal (UInt8.ofNat n) else 255 := by
    decide +kernel
  have hc := hall c.toNat c.toNat_lt
  rwa [UInt8.ofNat_toNat] at hc

theorem hcharset_digitVal {c : UInt8} (hc : digitVal c < 16) :
    hcharset.getD (digitVal c) 0 = toLower c := by
  have hall : ∀ n < 256, digitVal (UInt8.ofNat n) < 16 →
      hcharset.getD (digitVal (UInt8.ofNat n)) 0 = toLower (UInt8.ofNat n) := by
    decide +kernel
  have hc' := hall c.toNat c.toNat_lt
  rw [UInt8.ofNat_toNat] at hc'
  exact hc' hc

theorem digitVal_hcharset {d : ℕ} (hd : d < 16) : digitVal (hcharset.getD d 0) = d := by
  interval_cases d <;> rfl

theorem nibbles (b : UInt8) :
    (b.toNat &&& 0xF0) >>> 4 = b.toNat / 16 ∧ b.toNat &&& 0xF = b.toNat % 16 := by
  have hall : ∀ n < 256, (n &&& 0xF0) >>> 4 = n / 16 ∧ n &&& 0xF = n % 16 := by decide +kernel
  exact hall b.toNat b.toNat_lt

theorem nibbles_join {high low : ℕ} (hlow : low < 16) : (high <<< 4) ||| low = 16 * high + low := by
  rw [← Nat.shiftLeft_add_eq_or_of_lt (by exact hlow), Nat.shiftLeft_eq, Nat.mul_comm]

/-- The digits of some bytes are digits, in lower case. -/
theorem mem_hexText {bs : List UInt8} {c : UInt8} (hc : c ∈ hexText bs) : c ∈ hcharset := by
  obtain ⟨b, -, hb⟩ := List.mem_flatMap.mp hc
  have hlt := b.toNat_lt
  have hget : ∀ d < 16, hcharset.getD d 0 ∈ hcharset := by decide
  rw [hexPair, List.mem_cons, List.mem_singleton] at hb
  rcases hb with rfl | rfl
  · exact hget _ (by omega)
  · exact hget _ (by omega)

/-- **The bytes are restored from their digits.** -/
theorem hexBytes_hexText (bs : List UInt8) : hexBytes (hexText bs) = bs := by
  induction bs with
  | nil => rfl
  | cons b bs ih =>
    have hlt := b.toNat_lt
    rw [hexText, List.flatMap_cons, ← hexText, hexPair]
    simp only [List.cons_append, List.nil_append, hexBytes]
    rw [ih, digitVal_hcharset (by omega), digitVal_hcharset (by omega), Nat.div_add_mod,
      UInt8.ofNat_toNat]

/-- **The digits are restored from their bytes**, in lower case. -/
theorem hexText_hexBytes {s : List UInt8} {n : ℕ} (hs : s.length = 2 * n)
    (hall : ∀ c ∈ s, digitVal c < 16) : hexText (hexBytes s) = s.map toLower := by
  induction n generalizing s with
  | zero =>
    rw [List.length_eq_zero_iff.mp hs]
    rfl
  | succ n ih =>
    obtain ⟨c, c', s, rfl⟩ : ∃ c c' s', s = c :: c' :: s' := by
      match s, hs with
      | c :: c' :: s, _ => exact ⟨c, c', s, rfl⟩
    have hc := hall c List.mem_cons_self
    have hc' := hall c' (List.mem_cons_of_mem _ List.mem_cons_self)
    have hrest := ih (s := s) (by simp only [List.length_cons] at hs; omega)
      fun x hx => hall x (List.mem_cons_of_mem _ (List.mem_cons_of_mem _ hx))
    have hbyte : (UInt8.ofNat (16 * digitVal c + digitVal c')).toNat =
        16 * digitVal c + digitVal c' := by
      rw [UInt8.toNat_ofNat']
      omega
    rw [hexBytes, hexText, List.flatMap_cons, ← hexText, hrest, hexPair, hbyte,
      Nat.mul_add_div (by decide), Nat.div_eq_of_lt hc', Nat.mul_add_mod, Nat.mod_eq_of_lt hc',
      Nat.add_zero, hcharset_digitVal hc, hcharset_digitVal hc']
    rfl

/-! ### The loops -/

/-- **The loop of `bintohex`** writes the digits of the bytes. -/
theorem bintohexLoop_eq {n : ℕ} {bin : List UInt8} (hn : n ≤ bin.length) (out : List UInt8 × ℕ) :
    bintohexLoop n bin out = (hexText (bin.take n)).foldlM (Mem.put .outside) out := by
  induction n generalizing bin out with
  | zero => rfl
  | succ n ih =>
    cases bin with
    | nil => exact absurd hn (Nat.not_succ_le_zero n)
    | cons b bin =>
      obtain ⟨hhigh, hlow⟩ := nibbles b
      have hrest := ih (Nat.le_of_succ_le_succ hn)
      rw [List.take_succ_cons, hexText, List.flatMap_cons, ← hexText, hexPair]
      simp only [bintohexLoop, hhigh, hlow, List.cons_append, List.nil_append, List.foldlM_cons]
      simp only [hrest]

theorem bintohex_eq {dest bin : List UInt8} {n : ℕ} (hn : n ≤ bin.length)
    (hdest : 2 * n ≤ dest.length) :
    bintohex dest bin n = .ok (hexText (bin.take n) ++ dest.drop (2 * n)) := by
  have hlen : (hexText (bin.take n)).length = 2 * n := by
    rw [length_hexText, List.length_take_of_le hn]
  have hput := Mem.foldlM_put Outside.outside (hexText (bin.take n)) [] dest
  rw [hlen, if_pos hdest, List.nil_append, List.nil_append] at hput
  rw [bintohex, Int.toNat_natCast, bintohexLoop_eq hn, ← List.length_nil (α := UInt8), hput]
  rfl

/-- **The loop of `hextobin`**, where all that it reads are digits. -/
theorem hextobinLoop_eq {n : ℕ} {s : List UInt8} (hs : s.length = 2 * n)
    (hall : ∀ c ∈ s, digitVal c < 16) (rest : List UInt8) (out : List UInt8 × ℕ) :
    hextobinLoop n (s ++ rest) out =
      ((hexBytes s).foldlM (Mem.put .outside) out).map fun out => (0, out.1) := by
  induction n generalizing s out with
  | zero =>
    rw [List.length_eq_zero_iff.mp hs]
    rfl
  | succ n ih =>
    obtain ⟨c, c', s, rfl⟩ : ∃ c c' s', s = c :: c' :: s' := by
      match s, hs with
      | c :: c' :: s, _ => exact ⟨c, c', s, rfl⟩
    have hc := hall c List.mem_cons_self
    have hc' := hall c' (List.mem_cons_of_mem _ List.mem_cons_self)
    have hrest := ih (s := s) (by simp only [List.length_cons] at hs; omega)
      fun x hx => hall x (List.mem_cons_of_mem _ (List.mem_cons_of_mem _ hx))
    simp only [List.cons_append, hextobinLoop, hval_eq, if_pos hc, if_pos hc', hexBytes,
      List.foldlM_cons]
    rw [if_neg (by omega), nibbles_join hc']
    cases Mem.put Outside.outside out (UInt8.ofNat (16 * digitVal c + digitVal c')) with
    | error e => rfl
    | ok out' => exact hrest out'

/-- And where something is no digit. -/
theorem hextobinLoop_find {n : ℕ} {s : List UInt8} (hs : s.length = 2 * n)
    (hfind : ∃ c ∈ s, ¬digitVal c < 16) (rest done behind : List UInt8)
    (hfits : n ≤ behind.length) :
    ∃ out, hextobinLoop n (s ++ rest) (done ++ behind, done.length) = .ok (1, out) := by
  induction n generalizing s done behind with
  | zero =>
    rw [List.length_eq_zero_iff.mp hs] at hfind
    obtain ⟨c, hc, -⟩ := hfind
    exact absurd hc List.not_mem_nil
  | succ n ih =>
    obtain ⟨c, c', s, rfl⟩ : ∃ c c' s', s = c :: c' :: s' := by
      match s, hs with
      | c :: c' :: s, _ => exact ⟨c, c', s, rfl⟩
    obtain ⟨x, behind, rfl⟩ := List.exists_cons_of_length_pos (Nat.zero_lt_of_lt hfits)
    simp only [List.cons_append, hextobinLoop, hval_eq]
    by_cases hpair : digitVal c < 16 ∧ digitVal c' < 16
    · rw [if_pos hpair.1, if_pos hpair.2, if_neg (by omega)]
      set y := UInt8.ofNat ((digitVal c <<< 4) ||| digitVal c')
      have hrest : ∃ d ∈ s, ¬digitVal d < 16 := by
        obtain ⟨d, hd, hno⟩ := hfind
        rw [List.mem_cons, List.mem_cons] at hd
        rcases hd with rfl | rfl | hd
        · exact absurd hpair.1 hno
        · exact absurd hpair.2 hno
        · exact ⟨d, hd, hno⟩
      obtain ⟨out, hout⟩ := ih (s := s) (by simp only [List.length_cons] at hs; omega) hrest
        (done ++ [y]) behind (Nat.le_of_succ_le_succ hfits)
      refine ⟨out, ?_⟩
      rw [Mem.put_append]
      exact hout
    · refine ⟨done ++ x :: behind, ?_⟩
      rw [if_pos]
      by_cases hc : digitVal c < 16
      · exact Or.inr (if_neg fun hc' => hpair ⟨hc, hc'⟩)
      · exact Or.inl (if_neg hc)

/-! ### The length as an `int` -/

theorem toInt_spec (n : ℕ) :
    -2 ^ 31 ≤ toInt n ∧ toInt n < 2 ^ 31 ∧ ∃ t : ℤ, toInt n = n + 2 ^ 32 * t := by
  have hbound := Int.bmod_add_bdiv n (2 ^ 32)
  refine ⟨?_, ?_, -Int.bdiv n (2 ^ 32), ?_⟩
  · have := Int.le_bmod (x := n) (m := 2 ^ 32) (by decide)
    rw [toInt]
    omega
  · have := Int.bmod_lt (x := n) (m := 2 ^ 32) (by decide)
    rw [toInt]
    omega
  · rw [toInt]
    omega

/-- The number of the characters that are read of a text of even length. -/
theorem readLength (n : ℕ) :
    ((toInt n).tmod 2 = 0 ↔ Even n) ∧
      (Even n → ∃ k, ((toInt n).tdiv 2).toNat = k ∧ (toInt n).toNat = 2 * k ∧ 2 * k ≤ n ∧
        (n < 2 ^ 31 ↔ 2 * k = n)) := by
  obtain ⟨hlow, hhigh, t, ht⟩ := toInt_spec n
  generalize toInt n = x at *
  constructor
  · rw [← Int.dvd_iff_tmod_eq_zero, Nat.even_iff]
    omega
  · rintro ⟨m, hm⟩
    obtain ⟨y, hy⟩ : ∃ y, x = 2 * y := ⟨m + 2 ^ 31 * t, by omega⟩
    have hdiv : x.tdiv 2 = y := by rw [hy, Int.mul_tdiv_cancel_left y (by decide)]
    refine ⟨y.toNat, by rw [hdiv], by omega, by omega, by omega⟩

/-- **What `hextobin` does with a string.** -/
theorem hextobin_string {s : List UInt8} (hs : 0 ∉ s) (rest out : List UInt8) :
    hextobin out (s ++ 0 :: rest) (-1) =
      if Even s.length then
        hextobinLoop ((toInt s.length).tdiv 2).toNat (s ++ 0 :: rest) (out, 0)
      else .ok (1, out) := by
  rw [hextobin, if_pos rfl, Mem.strlen_append _ hs]
  dsimp only
  rw [hextobinLen, ite_not]
  exact if_congr (readLength s.length).1 rfl rfl

/-! ### The pair -/

/-- The encoder and the decoder are as they should be for some bytes: at `dest` there are their
digits, in lower case, and a NUL, and from there the bytes are restored. -/
def EncodeExact (dest b : List UInt8) : Prop :=
  ∃ digits, digits.length = 2 * b.length ∧ (∀ c ∈ digits, c ∈ hcharset) ∧
    bintohex dest b b.length = .ok (digits ++ 0 :: dest.drop (2 * b.length + 1)) ∧
    ∀ out : List UInt8, b.length ≤ out.length →
      ∃ out', hextobin out (digits ++ 0 :: dest.drop (2 * b.length + 1)) (-1) = .ok (0, out') ∧
        out'.take b.length = b

/-- They are as they should be for a string: it is decoded if it consists of pairs of digits, and
only then, and encoded again it is the string in lower case. -/
def DecodeExact (s : List UInt8) : Prop :=
  ∀ rest out : List UInt8, s.length / 2 ≤ out.length →
    ∃ r out', hextobin out (s ++ 0 :: rest) (-1) = .ok (r, out') ∧
      (r = 0 ↔ Even s.length ∧ ∀ c ∈ s, digitVal c < 16) ∧
      (r = 0 → ∀ dest : List UInt8, s.length ≤ dest.length →
        ∃ dest', bintohex dest out' (s.length / 2 : ℕ) = .ok dest' ∧
          dest'.take s.length = s.map toLower)

theorem zero_notMem_hexText (bs : List UInt8) : 0 ∉ hexText bs := fun h =>
  absurd (mem_hexText h) (by decide)

/-- **What is left of a buffer** when the characters that are read are digits. -/
theorem hextobin_read {s : List UInt8} (hs : 0 ∉ s) (heven : Even s.length) {k : ℕ}
    (hk : ((toInt s.length).tdiv 2).toNat = k) (hle : 2 * k ≤ s.length)
    (hall : ∀ c ∈ s.take (2 * k), digitVal c < 16) (rest : List UInt8) {out : List UInt8}
    (hfits : k ≤ out.length) :
    hextobin out (s ++ 0 :: rest) (-1) = .ok (0, hexBytes (s.take (2 * k)) ++ out.drop k) := by
  have hlen : (s.take (2 * k)).length = 2 * k := List.length_take_of_le hle
  have hput := Mem.foldlM_put Outside.outside (hexBytes (s.take (2 * k))) [] out
  rw [length_hexBytes hlen, if_pos hfits, List.nil_append, List.nil_append, List.length_nil] at hput
  have hsplit : s ++ 0 :: rest = s.take (2 * k) ++ (s.drop (2 * k) ++ 0 :: rest) := by
    rw [← List.append_assoc, List.take_append_drop]
  rw [hextobin_string hs, if_pos heven, hk, hsplit, hextobinLoop_eq hlen hall, hput]
  rfl

theorem hexText_take (bs : List UInt8) (k : ℕ) :
    (hexText bs).take (2 * k) = hexText (bs.take k) := by
  rcases Nat.le_total k bs.length with hle | hge
  · have hsplit : hexText bs = hexText (bs.take k) ++ hexText (bs.drop k) := by
      rw [hexText, hexText, hexText, ← List.flatMap_append, List.take_append_drop]
    rw [hsplit, List.take_left']
    rw [length_hexText, List.length_take_of_le hle]
  · rw [List.take_of_length_le hge, List.take_of_length_le (by rw [length_hexText]; omega)]

/-- The byte behind those that are restored. -/
theorem getElem?_behind {xs : List UInt8} {k n : ℕ} (hxs : xs.length = k) (hkn : k < n)
    (v : UInt8) :
    (xs ++ (List.replicate n v).drop k)[k]? = some v := by
  have hpos : 0 < n - k := Nat.sub_pos_of_lt hkn
  rw [List.getElem?_append_right hxs.le, hxs, Nat.sub_self, List.drop_replicate,
    List.getElem?_replicate, if_pos hpos]

/-- A byte that is another one. -/
theorem exists_ne_byte (b : UInt8) : ∃ v, v ≠ b := by
  by_cases hzero : b = 0
  · exact ⟨1, by rw [hzero]; decide⟩
  · exact ⟨0, Ne.symm hzero⟩

theorem encodeExact_iff {dest b : List UInt8} (hb : b.length < 2 ^ 31)
    (hdest : 2 * b.length + 1 ≤ dest.length) :
    EncodeExact dest b ↔ dest.getD (2 * b.length) 0 = 0 ∧ b.length < 2 ^ 30 := by
  have hrun := @bintohex_eq dest b _ (Nat.le_refl b.length) (by omega)
  rw [List.take_length] at hrun
  have hlen := length_hexText b
  have hlt : 2 * b.length < dest.length := by omega
  have hdrop : dest.drop (2 * b.length) =
      dest.getD (2 * b.length) 0 :: dest.drop (2 * b.length + 1) := by
    rw [List.getD_eq_getElem _ _ hlt, List.drop_eq_getElem_cons hlt]
  have heven : Even (hexText b).length := ⟨b.length, by omega⟩
  obtain ⟨k, hk, -, hle, hwhole⟩ := (readLength (hexText b).length).2 heven
  -- the bytes that are restored
  have hread : ∀ rest out : List UInt8, k ≤ out.length →
      hextobin out (hexText b ++ 0 :: rest) (-1) = .ok (0, b.take k ++ out.drop k) := by
    intro rest out hfits
    have hall : ∀ c ∈ (hexText b).take (2 * k), digitVal c < 16 := by
      intro c hc
      have hdigits : hcharset.all (fun c => decide (digitVal c < 16)) = true := by decide
      have hdigit := List.all_eq_true.mp hdigits c (mem_hexText (List.mem_of_mem_take hc))
      exact of_decide_eq_true hdigit
    rw [hextobin_read (zero_notMem_hexText b) heven hk hle hall rest hfits, hexText_take,
      hexBytes_hexText]
  constructor
  · rintro ⟨digits, hdigits, -, hbin, hback⟩
    rw [hrun, hdrop, Except.ok.injEq] at hbin
    obtain ⟨rfl, hnul⟩ := List.append_inj hbin (hlen.trans hdigits.symm)
    refine ⟨(List.cons.inj hnul).1, ?_⟩
    by_contra hlarge
    have hshort : k < b.length := by omega
    -- a buffer that differs behind what is restored
    obtain ⟨v, hv⟩ := exists_ne_byte b[k]
    obtain ⟨out', hout', hrestored⟩ := hback (List.replicate b.length v) (by simp)
    rw [hread _ _ (by rw [List.length_replicate]; omega), Except.ok.injEq, Prod.mk.injEq] at hout'
    have hat := getElem?_behind (List.length_take_of_le hshort.le) hshort v
    rw [hout'.2, ← List.getElem?_take_of_lt hshort, hrestored,
      List.getElem?_eq_getElem hshort] at hat
    exact hv (Option.some.inj hat).symm
  · rintro ⟨hnul, hsmall⟩
    refine ⟨hexText b, hlen, fun c hc => mem_hexText hc, by rw [hrun, hdrop, hnul], ?_⟩
    intro out hout
    obtain rfl : k = b.length := by omega
    refine ⟨_, hread _ _ hout, ?_⟩
    rw [List.take_length, List.take_left]

/-- The first digit of a byte in the text. -/
theorem getElem?_hexText {bs : List UInt8} {k : ℕ} {b : UInt8} (hb : bs[k]? = some b) :
    (hexText bs)[2 * k]? = some (hcharset.getD (b.toNat / 16) 0) := by
  induction bs generalizing k with
  | nil => nomatch hb
  | cons x bs ih =>
    rw [hexText, List.flatMap_cons, ← hexText, hexPair]
    cases k with
    | zero =>
      rw [List.getElem?_cons_zero, Option.some.injEq] at hb
      rw [hb]
      rfl
    | succ k =>
      rw [List.getElem?_cons_succ] at hb
      exact ih hb

/-- What is encoded of a decoded buffer. -/
theorem bintohex_take {dest out : List UInt8} {n : ℕ} (hout : n ≤ out.length)
    (hdest : 2 * n ≤ dest.length) :
    ∃ dest', bintohex dest out n = .ok dest' ∧ dest'.take (2 * n) = hexText (out.take n) := by
  refine ⟨_, bintohex_eq hout hdest, List.take_left' ?_⟩
  rw [length_hexText, List.length_take_of_le hout]

theorem decodeExact_iff {s : List UInt8} (hs : 0 ∉ s) :
    DecodeExact s ↔ s.length < 2 ^ 31 ∨ ¬Even s.length ∨
      ∃ c ∈ s.take (toInt s.length).toNat, ¬digitVal c < 16 := by
  by_cases heven : Even s.length
  · obtain ⟨k, hk, hread, hle, hwhole⟩ := (readLength s.length).2 heven
    have hlen : (s.take (2 * k)).length = 2 * k := List.length_take_of_le hle
    have hhalf : 2 * (s.length / 2) = s.length := Nat.mul_div_cancel' heven.two_dvd
    rw [hread]
    by_cases hall : ∀ c ∈ s.take (2 * k), digitVal c < 16
    · -- all that is read is decoded
      have hdecode := fun rest out => @hextobin_read s hs heven k hk hle hall rest out
      constructor
      · intro h
        by_contra hno
        have hshort : k < s.length / 2 := by
          have : 2 * k ≠ s.length := fun heq => hno (Or.inl (hwhole.mpr heq))
          omega
        have hlt : 2 * k < s.length := by omega
        -- a buffer whose digits differ behind what is decoded
        obtain ⟨v, hv⟩ : ∃ v : UInt8, hcharset.getD (v.toNat / 16) 0 ≠ toLower s[2 * k] := by
          by_cases hzero : toLower s[2 * k] = ch '0'
          · exact ⟨16, by rw [hzero]; decide⟩
          · exact ⟨0, Ne.symm hzero⟩
        obtain ⟨r, out', hout', -, hencode⟩ := h [] (List.replicate (s.length / 2) v) (by simp)
        rw [hdecode _ _ (by rw [List.length_replicate]; omega), Except.ok.injEq,
          Prod.mk.injEq] at hout'
        have hout'len : s.length / 2 ≤ out'.length := by
          rw [← hout'.2, List.length_append, length_hexBytes hlen, List.length_drop,
            List.length_replicate]
          omega
        obtain ⟨dest', hbin, htext⟩ := hencode hout'.1.symm (List.replicate s.length 0) (by simp)
        obtain ⟨dest'', hbin', htext'⟩ := @bintohex_take (List.replicate s.length 0) _ _ hout'len
          (by rw [List.length_replicate]; omega)
        rw [hbin, Except.ok.injEq] at hbin'
        rw [← hbin', hhalf, htext] at htext'
        have hat := getElem?_behind (length_hexBytes hlen) hshort v
        rw [hout'.2, ← List.getElem?_take_of_lt hshort] at hat
        have hdigit := getElem?_hexText hat
        rw [← htext', List.getElem?_map, List.getElem?_eq_getElem hlt] at hdigit
        exact hv (Option.some.inj hdigit).symm
      · intro h
        have hwhole' : 2 * k = s.length := by
          rcases h with h | h | ⟨c, hc, hno⟩
          · exact hwhole.mp h
          · exact absurd heven h
          · exact absurd (hall c hc) hno
        rw [hwhole', List.take_length] at hall hdecode
        intro rest out hout
        refine ⟨0, _, hdecode rest out (by omega), ?_, fun _ dest hdest => ?_⟩
        · exact ⟨fun _ => ⟨heven, hall⟩, fun _ => rfl⟩
        · have hbytes : (hexBytes s).length = s.length / 2 := length_hexBytes hhalf.symm
          obtain ⟨dest', hbin, htext⟩ := @bintohex_take dest (hexBytes s ++ out.drop k)
            (s.length / 2)
            (by rw [List.length_append]; omega) (by omega)
          rw [hhalf, List.take_left' hbytes, hexText_hexBytes hhalf.symm hall] at htext
          exact ⟨dest', hbin, htext⟩
    · push Not at hall
      obtain ⟨c, hc, hno⟩ := hall
      refine ⟨fun _ => Or.inr (Or.inr ⟨c, hc, not_lt.mpr hno⟩), fun _ rest out hout => ?_⟩
      have hsplit : s ++ 0 :: rest = s.take (2 * k) ++ (s.drop (2 * k) ++ 0 :: rest) := by
        rw [← List.append_assoc, List.take_append_drop]
      obtain ⟨out', hloop⟩ := hextobinLoop_find hlen ⟨c, hc, not_lt.mpr hno⟩
        (s.drop (2 * k) ++ 0 :: rest) [] out (by omega)
      refine ⟨1, out', ?_, ?_, fun hone => absurd hone (by decide)⟩
      · rw [hextobin_string hs, if_pos heven, hk, hsplit]
        exact hloop
      · refine ⟨fun hone => absurd hone (by decide), fun h => ?_⟩
        exact absurd (h.2 c (List.mem_of_mem_take hc)) (not_lt.mpr hno)
  · refine ⟨fun _ => Or.inr (Or.inl heven), fun _ rest out _ => ?_⟩
    refine ⟨1, out, by rw [hextobin_string hs, if_neg heven], ?_, fun hone => ?_⟩
    · exact ⟨fun hone => absurd hone (by decide), fun h => absurd h.1 heven⟩
    · exact absurd hone (by decide)

/-- **The two functions are inverse to each other** where there is a NUL already behind the digits,
the lengths are those of an `int`, or what is read of a longer string is not all digits. -/
theorem hex_exact_iff {dest b s : List UInt8} (hb : b.length < 2 ^ 31)
    (hdest : 2 * b.length + 1 ≤ dest.length) (hs : 0 ∉ s) :
    (EncodeExact dest b ↔ dest.getD (2 * b.length) 0 = 0 ∧ b.length < 2 ^ 30) ∧
      (DecodeExact s ↔ s.length < 2 ^ 31 ∨ ¬Even s.length ∨
        ∃ c ∈ s.take (toInt s.length).toNat, ¬digitVal c < 16) :=
  ⟨encodeExact_iff hb hdest, decodeExact_iff hs⟩

/-- One byte, in a buffer that is full of ones. -/
theorem hex_inexact : ¬EncodeExact [1, 1, 1] [0xab] := by
  rintro ⟨digits, hlen, -, hbin, -⟩
  have hrun : bintohex [1, 1, 1] [0xab] 1 = .ok (lit "ab" ++ [1]) := by decide
  rw [List.length_singleton, Nat.cast_one, hrun, Except.ok.injEq] at hbin
  obtain ⟨-, hnul⟩ := List.append_inj hbin hlen.symm
  exact absurd (List.cons.inj hnul).1 (by decide)

/-- The byte in a buffer that was cleared, and a string with letters. -/
theorem hex_exact_ab : EncodeExact [0, 0, 0] [0xab] ∧ DecodeExact (lit "0aB1") := by
  obtain ⟨hencode, hdecode⟩ := @hex_exact_iff [0, 0, 0] [0xab] (lit "0aB1")
    (by decide) (by decide) (by decide)
  exact ⟨hencode.mpr ⟨rfl, by decide⟩, hdecode.mpr (Or.inl (by decide))⟩

end StyxWire.Strings
