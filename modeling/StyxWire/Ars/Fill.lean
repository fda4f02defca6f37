import Mathlib.Data.Nat.Bitwise
import StyxWire.Ars.Grammar

/-!
# Filling a header

What the setters of `apd.c` do to a new layer, when the values are those that the printers
of `rapd.c` write.

The setters of a header run from its first byte to its last. `StyxWire.Filled` is what
holds on the way: the first `n` bytes are those of the header described, some more
belong to fields that are set in several goes, and what follows is as in a new layer.
There is one lemma for each kind of setter (`StyxWire.fill_net16` and so on); the proof
for a header is the chain of them, in the order of its fields.
-/

namespace StyxWire

open Mem Text ArsLayer

/-! ### Words -/

theorem isDelim_of_digitVal {c : UInt8} (h : digitVal c < 36) : isDelim c = false := by
  have hall : ∀ n < 256, digitVal (UInt8.ofNat n) < 36 → isDelim (UInt8.ofNat n) = false := by
    decide +kernel
  have hc := hall c.toNat c.toNat_lt
  rw [UInt8.ofNat_toNat] at hc
  exact hc h

theorem isWord_fmtU {n : ℕ} (hn : n < 4294967296) : IsWord (fmtU n) where
  ne_nil := fmt_ne_nil 10 n
  delim := by
    rintro c hc
    have := digitVal_of_mem_fmt (show 1 < 10 by decide) (by decide) n c hc
    exact isDelim_of_digitVal (by omega)
  length_lt := by
    have hlen := @length_fmt_le 10 (by decide) n 9 (by omega)
    exact lt_of_le_of_lt hlen (by decide)

theorem mem_fmtHex {w n : ℕ} {c : UInt8} (hc : c ∈ fmtHex w n) : digitVal c < 36 := by
  rw [fmtHex] at hc
  rcases List.mem_append.mp hc with hc | hc
  · have hall : (lit "0x").all (fun c => digitVal c < 36) = true := by decide
    exact of_decide_eq_true (List.all_eq_true.mp hall c hc)
  · rcases mem_padZero hc with rfl | hc
    · decide
    · have := digitVal_of_mem_fmt (show 1 < 16 by decide) (Nat.le_refl _) n c hc
      omega

theorem isWord_fmtHex {w n : ℕ} (hw : w ≤ 8) (hn : n < 4294967296) : IsWord (fmtHex w n) where
  ne_nil := List.append_ne_nil_of_left_ne_nil (by decide) _
  delim := fun c hc => isDelim_of_digitVal (mem_fmtHex hc)
  length_lt := by
    have hlen : (fmtX n).length ≤ 8 := @length_fmt_le 16 (by decide) n 7 (by omega)
    have hmax : arsMaxTsize = 12000 := rfl
    rw [fmtHex, padZero, List.length_append, List.length_append, List.length_replicate]
    have : (lit "0x").length = 2 := rfl
    omega

theorem isWord_dottedQuad (x : List UInt8) : IsWord (dottedQuad x) where
  ne_nil := by
    rw [dottedQuad]
    exact List.append_ne_nil_of_right_ne_nil _ (fmt_ne_nil 10 _)
  delim := by
    have hnum : ∀ n, ∀ c ∈ fmtU n, isDelim c = false := fun n c hc => by
      have := digitVal_of_mem_fmt (show 1 < 10 by decide) (by decide) n c hc
      exact isDelim_of_digitVal (by omega)
    have hdot : ∀ c ∈ lit ".", isDelim c = false := by
      intro c hc
      obtain rfl := List.mem_singleton.mp hc
      rfl
    rintro c hc
    simp only [dottedQuad, List.mem_append] at hc
    rcases hc with (((((hc | hc) | hc) | hc) | hc) | hc) | hc
    all_goals first | exact hnum _ c hc | exact hdot c hc
  length_lt := by
    have hnum : ∀ b : UInt8, (fmtU b.toNat).length ≤ 3 := fun b =>
      @length_fmt_le 10 (by decide) b.toNat 2 (by have := b.toNat_lt; omega)
    have hdot : (lit ".").length = 1 := rfl
    have hmax : arsMaxTsize = 12000 := rfl
    have h0 := hnum (x.getD 0 0)
    have h1 := hnum (x.getD 1 0)
    have h2 := hnum (x.getD 2 0)
    have h3 := hnum (x.getD 3 0)
    simp only [dottedQuad, List.length_append]
    omega

theorem arsAtou_fmtU {n : ℕ} (hn : n < 4294967296) : arsAtou (fmtU n) = n :=
  strtoul_fmtU (by omega)

theorem arsAtou_fmtHex {n : ℕ} (hn : n < 4294967296) (w : ℕ) : arsAtou (fmtHex w n) = n :=
  strtoul_hex (by omega) w

/-! ### Bytes of a header -/

theorem ntohsAt_lt (i : ℕ) (h : List UInt8) : ntohsAt i h < 4294967296 := by
  have := be16_lt (h.getD i 0) (h.getD (i + 1) 0)
  rw [ntohsAt]
  omega

theorem ntohlAt_lt (i : ℕ) (h : List UInt8) : ntohlAt i h < 4294967296 := be32_lt _ _ _ _

theorem byteAt_lt (i : ℕ) (h : List UInt8) : byteAt i h < 256 := (h.getD i 0).toNat_lt

theorem slice_eq_one {h : List UInt8} {i : ℕ} (hi : i + 1 ≤ h.length) :
    (h.drop i).take 1 = [h.getD i 0] := by
  rw [List.drop_eq_getElem_cons hi, List.getD_eq_getElem _ _ hi]
  rfl

theorem slice_eq_two {h : List UInt8} {i : ℕ} (hi : i + 2 ≤ h.length) :
    (h.drop i).take 2 = [h.getD i 0, h.getD (i + 1) 0] := by
  have h0 := @slice_eq_one h i (by omega)
  have h1 := @slice_eq_one h (i + 1) (by omega)
  rw [show 2 = 1 + 1 from rfl, List.take_add, h0, List.drop_drop, h1]
  rfl

theorem slice_eq_four {h : List UInt8} {i : ℕ} (hi : i + 4 ≤ h.length) :
    (h.drop i).take 4 = [h.getD i 0, h.getD (i + 1) 0, h.getD (i + 2) 0, h.getD (i + 3) 0] := by
  have h0 := @slice_eq_two h i (by omega)
  have h1 := @slice_eq_two h (i + 2) (by omega)
  rw [show 4 = 2 + 2 from rfl, List.take_add, h0, List.drop_drop, h1]
  rfl

/-! ### Filling a header -/

/-- The block of `l` has the first `n` bytes of `h`, then `m`, and then what a new layer
`l0` has there; the flags are `flags`. -/
structure Filled (l0 : ArsLayer) (h : List UInt8) (n : ℕ) (m : List UInt8) (flags : ℕ)
    (l : ArsLayer) : Prop where
  lType : l.lType = l0.lType
  lSize : l.lSize = l0.lSize
  lFlags : l.lFlags = flags
  lData : l.lData = h.take n ++ m ++ l0.lData.drop (n + m.length)
  length : l0.lData.length = h.length
  le : n + m.length ≤ h.length

namespace Filled

variable {l0 l : ArsLayer} {h m : List UInt8} {n flags : ℕ}

/-- A new layer, of whose first bytes none or some are right. -/
theorem init (hlen : l0.lData.length = h.length) (hn : h.take n = l0.lData.take n)
    (hle : n ≤ h.length) : Filled l0 h n [] l0.lFlags l0 where
  lType := rfl
  lSize := rfl
  lFlags := rfl
  lData := by rw [hn, List.append_nil, List.length_nil, Nat.add_zero, List.take_append_drop]
  length := hlen
  le := hle

theorem length_lData (hl : Filled l0 h n m flags l) : l.lData.length = h.length := by
  have hle := hl.le
  have hlen := hl.length
  rw [hl.lData]
  simp only [List.length_append, List.length_take, List.length_drop]
  omega

/-- A field that is being set is overwritten. -/
theorem write (hl : Filled l0 h n m flags l) {src : List UInt8} (hsrc : m.length ≤ src.length)
    (hle : n + src.length ≤ h.length) : Filled l0 h n src flags (l.write n src) where
  lType := hl.lType
  lSize := hl.lSize
  lFlags := hl.lFlags
  lData := by
    have hn : (h.take n).length = n := by
      rw [List.length_take]
      omega
    have hnm : (h.take n ++ m).length = n + m.length := by rw [List.length_append, hn]
    have hdrop : (h.take n ++ m ++ l0.lData.drop (n + m.length)).drop (n + src.length) =
        l0.lData.drop (n + src.length) := by
      rw [List.drop_append, List.drop_eq_nil_of_le (by omega), List.nil_append, List.drop_drop, hnm]
      congr 1
      omega
    rw [write_lData, writeAt_eq (by rw [hl.length_lData]; exact hle), hl.lData, hdrop,
      List.append_assoc (h.take n), List.take_append_of_le_length (by omega), List.take_take,
      Nat.min_self]
  length := hl.length
  le := hle

/-- A field is done when it is that of the header. -/
theorem done (hl : Filled l0 h n m flags l) (hm : (h.drop n).take m.length = m) :
    Filled l0 h (n + m.length) [] flags l where
  lType := hl.lType
  lSize := hl.lSize
  lFlags := hl.lFlags
  lData := by
    rw [hl.lData, List.take_add, hm, List.append_nil]
    rfl
  length := hl.length
  le := hl.le

theorem addFlag (hl : Filled l0 h n m flags l) (flag : ℕ) :
    Filled l0 h n m (flags ||| flag) (l.addFlag flag) where
  lType := hl.lType
  lSize := hl.lSize
  lFlags := congrArg (· ||| flag) hl.lFlags
  lData := hl.lData
  length := hl.length
  le := hl.le

/-- A field of `k` bytes is about to be set. -/
theorem start (hl : Filled l0 h n [] flags l) {k : ℕ} (hk : n + k ≤ h.length) :
    Filled l0 h n ((l0.lData.drop n).take k) flags l where
  lType := hl.lType
  lSize := hl.lSize
  lFlags := hl.lFlags
  lData := by
    have hlen := hl.length
    have hm : ((l0.lData.drop n).take k).length = k := by
      rw [List.length_take, List.length_drop]
      omega
    rw [hl.lData, hm, List.append_nil, List.length_nil, Nat.add_zero, List.append_assoc,
      ← List.drop_drop, List.take_append_drop]
  length := hl.length
  le := by
    rw [List.length_take]
    omega

/-- What a field that is being set reads as. -/
theorem slice (hl : Filled l0 h n m flags l) : (l.lData.drop n).take m.length = m := by
  have hle := hl.le
  have hn : (h.take n).length = n := by
    rw [List.length_take]
    omega
  rw [hl.lData, List.append_assoc, List.drop_append, List.drop_of_length_le hn.le, hn,
    Nat.sub_self, List.drop_zero, List.nil_append, List.take_left]

theorem getD_slice (hl : Filled l0 h n m flags l) {i : ℕ} (hi : i < m.length) :
    l.lData.getD (n + i) 0 = m.getD i 0 := by
  have hget : (l.lData.drop n)[i]? = m[i]? := by
    rw [← List.getElem?_take_of_lt hi, hl.slice]
  rw [List.getElem?_drop] at hget
  rw [List.getD_eq_getElem?_getD, List.getD_eq_getElem?_getD, hget]

/-- A stretch that is left as in a new layer. -/
theorem skip (hl : Filled l0 h n [] flags l) {k : ℕ} (hk : n + k ≤ h.length)
    (heq : (h.drop n).take k = (l0.lData.drop n).take k) : Filled l0 h (n + k) [] flags l := by
  have hlen := hl.length
  have hm : ((l0.lData.drop n).take k).length = k := by
    rw [List.length_take, List.length_drop]
    omega
  have hdone := (hl.start hk).done (by rw [hm, heq])
  rwa [hm] at hdone

/-- **When all is done the layer is the one described.** -/
theorem eq_setFlags (hl : Filled l0 h n [] flags l) (hn : h.length = n) {l' : ArsLayer}
    (htype : l0.lType = l'.lType) (hsize : l0.lSize = l'.lSize) (hdata : l'.lData = h) :
    l = l'.setFlags flags := by
  refine ext_data (hl.lType.trans htype) (hl.lSize.trans hsize) hl.lFlags ?_
  have hlen := hl.length
  rw [hl.lData, List.take_of_length_le hn.le, List.append_nil, List.length_nil, Nat.add_zero,
    List.drop_of_length_le (by omega), List.append_nil]
  exact hdata.symm

end Filled

/-- The step `s` leads from one state of the filling to another. -/
def Fill (l0 : ArsLayer) (h : List UInt8) (s : ArsLayer → Except ArsErr ArsLayer) (n : ℕ)
    (m : List UInt8) (flags n' : ℕ) (m' : List UInt8) (flags' : ℕ) : Prop :=
  ∀ l, Filled l0 h n m flags l → ∃ l', s l = .ok l' ∧ Filled l0 h n' m' flags' l'

section Fill

variable {l0 : ArsLayer} {h m m' m'' : List UInt8} {n n' n'' flags flags' flags'' : ℕ}
  {libc : Libc} {v : List UInt8}

theorem Fill.nil (k : ArsDKeywordInfo) : Fill l0 h (setFields libc k []) n m flags n m flags :=
  fun l hl => ⟨l, rfl, hl⟩

/-- A field, whose setter is `s`. -/
theorem Fill.cons {k : ArsDKeywordInfo} {name : String} {fs : List DField} (s : Setter)
    (hs : ∀ l, k.kiSet libc l (lit name) v = s libc v l)
    (h1 : Fill l0 h (s libc v) n m flags n' m' flags')
    (h2 : Fill l0 h (setFields libc k fs) n' m' flags' n'' m'' flags'') :
    Fill l0 h (setFields libc k (⟨name, v⟩ :: fs)) n m flags n'' m'' flags'' := by
  rintro l hl
  obtain ⟨l1, hok1, hl1⟩ := h1 l hl
  obtain ⟨l2, hok2, hl2⟩ := h2 l1 hl1
  refine ⟨l2, ?_, hl2⟩
  rw [setFields_cons, hs, hok1, bind_ok, hok2]

/-- **What is built by filling a new layer.** The first bytes and the last may be right from the
start. -/
theorem builds_of_fill {d : LayerDesc} {k : ArsDKeywordInfo}
    (hk : arsGetKeywordByName (lit d.kw) = some k) (hadd : AddsLayer k.kiAdd l0)
    (hsize : l0.lSize = h.length) (hlen : l0.lData.length = h.length) (hle : n ≤ h.length)
    (hstart : h.take n = l0.lData.take n)
    (hfill : Fill l0 h (setFields libc k d.fields) n [] l0.lFlags n' [] flags')
    (hend : h.drop n' = l0.lData.drop n') (hhdr : l0.lType.hdrSize ≤ h.length) :
    Builds libc d (full l0.lType flags' h hhdr) := by
  obtain ⟨l, hok, hl⟩ := hfill l0 (.init hlen hstart hle)
  have hdata : l.lData = h := by
    rw [hl.lData, List.append_nil, List.length_nil, Nat.add_zero, ← hend, List.take_append_drop]
  rw [Builds, build_eq hk hadd, hok]
  exact congrArg Except.ok (ext_data hl.lType (hl.lSize.trans hsize) hl.lFlags hdata)

theorem fill_taking {s : Setter} (flag : ℕ) (hs : Fill l0 h (s libc v) n m flags n' m' flags') :
    Fill l0 h (taking flag s libc v) n m flags n' m' (flags' ||| flag) := by
  rintro l hl
  obtain ⟨l', hok, hl'⟩ := hs l hl
  refine ⟨l'.addFlag flag, ?_, hl'.addFlag flag⟩
  rw [taking, hok]
  rfl

/-- Bytes that are not all there is to a field. -/
theorem fill_put {src : List UInt8} (hsrc : m.length ≤ src.length)
    (hle : n + src.length ≤ h.length) : Fill l0 h (put n src) n m flags n src flags := by
  rintro l hl
  refine ⟨l.write n src, ?_, hl.write hsrc hle⟩
  rw [put, if_pos (by rw [hl.length_lData]; exact hle)]

/-- The first setter of a field that is set in several goes finds what a new layer has there. -/
theorem Fill.start {s : ArsLayer → Except ArsErr ArsLayer} {k : ℕ} (hk : n + k ≤ h.length)
    (hm : (l0.lData.drop n).take k = m) (hs : Fill l0 h s n m flags n' m' flags') :
    Fill l0 h s n [] flags n' m' flags' := by
  rintro l hl
  have hstart := hl.start hk
  rw [hm] at hstart
  exact hs l hstart

/-- A stretch that no setter sets. -/
theorem Fill.skip {s : ArsLayer → Except ArsErr ArsLayer} {k : ℕ} (hk : n + k ≤ h.length)
    (heq : (h.drop n).take k = (l0.lData.drop n).take k)
    (hs : Fill l0 h s (n + k) [] flags n' m' flags') : Fill l0 h s n [] flags n' m' flags' :=
  fun l hl => hs l (hl.skip hk heq)

/-- The last one leaves the field as it is in the header. -/
theorem Fill.done {s : ArsLayer → Except ArsErr ArsLayer}
    (hs : Fill l0 h s n m flags n' m' flags') (hm : (h.drop n').take m'.length = m') :
    Fill l0 h s n m flags (n' + m'.length) [] flags' := by
  rintro l hl
  obtain ⟨l', hok, hl'⟩ := hs l hl
  exact ⟨l', hok, hl'.done hm⟩

/-- The bytes of a field. -/
theorem fill_field {src : List UInt8} (hsrc : m.length ≤ src.length)
    (hle : n + src.length ≤ h.length) (heq : (h.drop n).take src.length = src) :
    Fill l0 h (put n src) n m flags (n + src.length) [] flags :=
  (fill_put hsrc hle).done heq

/-- A byte. -/
theorem fill_byte (hle : n + 1 ≤ h.length) (hv : arsAtou v = byteAt n h) :
    Fill l0 h (setByte n libc v) n [] flags (n + 1) [] flags := by
  refine fill_field (Nat.zero_le _) hle ?_
  rw [hv, byteAt, UInt8.ofNat_toNat]
  exact slice_eq_one hle

/-- A number in network order. -/
theorem fill_net16 (hle : n + 2 ≤ h.length) (hv : arsAtou v = ntohsAt n h) :
    Fill l0 h (setNet16 n libc v) n [] flags (n + 2) [] flags := by
  refine fill_field (Nat.zero_le _) hle ?_
  rw [hv, ntohsAt, putBe16_be16]
  exact slice_eq_two hle

theorem fill_net32 (hle : n + 4 ≤ h.length) (hv : arsAtou v = ntohlAt n h) :
    Fill l0 h (setNet32 n libc v) n [] flags (n + 4) [] flags := by
  refine fill_field (Nat.zero_le _) hle ?_
  rw [hv, ntohlAt, putBe32_be32]
  exact slice_eq_four hle

/-- A byte that is no symbol. -/
theorem fill_symbol {symbols : List (String × ℕ)} (hle : n + 1 ≤ h.length)
    (hv : arsAtou v = byteAt n h) (hsym : ∀ e ∈ symbols, strcaseEq v (lit e.1) = false) :
    Fill l0 h (setSymbol n symbols libc v) n [] flags (n + 1) [] flags := by
  have hnone : symbols.find? (fun e => strcaseEq v (lit e.1)) = none := by
    rw [List.find?_eq_none]
    rintro e he
    rw [hsym e he]
    decide
  refine fill_field (Nat.zero_le _) hle ?_
  rw [hnone, Option.map_none, Option.getD_none, hv, byteAt, UInt8.ofNat_toNat]
  exact slice_eq_one hle

/-- The low bit field of a byte that is being set. -/
theorem fill_low {b : UInt8} (hle : n + 1 ≤ h.length) :
    Fill l0 h (setLow n libc v) n [b] flags n [setLo b (arsAtou v)] flags := by
  rintro l hl
  have hb : l.lData.getD n 0 = b := hl.getD_slice (i := 0) Nat.zero_lt_one
  rw [setLow, rdByte_eq (by rw [hl.length_lData]; omega), bind_ok, hb]
  refine fill_put ?_ hle l hl
  exact Nat.le_refl 1

/-- The high bit field. -/
theorem fill_high {b : UInt8} (hle : n + 1 ≤ h.length) :
    Fill l0 h (setHigh n libc v) n [b] flags n [setHi b (arsAtou v)] flags := by
  rintro l hl
  have hb : l.lData.getD n 0 = b := hl.getD_slice (i := 0) Nat.zero_lt_one
  rw [setHigh, rdByte_eq (by rw [hl.length_lData]; omega), bind_ok, hb]
  refine fill_put ?_ hle l hl
  exact Nat.le_refl 1

theorem setHi_setLo_zero (b : UInt8) : setHi (setLo 0 (b.toNat % 16)) (b.toNat / 16) = b := by
  have := b.toNat_lt
  refine eq_of_halves ?_ ?_
  · rw [toNat_setHi, toNat_setLo]
    omega
  · rw [toNat_setHi, toNat_setLo]
    omega

/-- Two bytes that are being set, under a mask. -/
theorem fill_mask16 (op : UInt8 → UInt8 → UInt8) {x y a b : UInt8} (hle : n + 2 ≤ h.length) :
    Fill l0 h (mask16 op n [a, b]) n [x, y] flags n [op x a, op y b] flags := by
  rintro l hl
  have hslice : (l.lData.drop n).take 2 = [x, y] := hl.slice
  rw [mask16, rdBytes_eq (by rw [hl.length_lData]; exact hle), bind_ok, hslice]
  refine fill_put ?_ hle l hl
  exact Nat.le_refl 2

/-! ### The fragment field

The offset is set first, which clears the three flags; each flag then adds a bit of the
first byte. -/

/-- The bits below the bit `i`. -/
def lowBits (i : ℕ) (a : UInt8) : UInt8 := UInt8.ofNat (a.toNat % 2 ^ i)

theorem be16_and_two_pow (a b : UInt8) (i : ℕ) :
    be16 a b &&& 2 ^ (8 + i) = (a.toNat.testBit i).toNat * 2 ^ (8 + i) := by
  have hbit : (be16 a b).testBit (8 + i) = a.toNat.testBit i := by
    rw [be16, Nat.mul_comm, show 256 = 2 ^ 8 from rfl,
      Nat.testBit_two_pow_mul_add _ b.toNat_lt, if_neg (by omega), Nat.add_sub_cancel_left]
  rw [Nat.and_two_pow, hbit]

theorem arsAtou_fmtFrag {h : List UInt8} (i : ℕ) :
    arsAtou (fmtFrag (2 ^ (8 + i)) h) = ((h.getD 6 0).toNat.testBit i).toNat := by
  have hpos : 2 ^ (8 + i) ≠ 0 := by positivity
  rw [fmtFrag, ntohsAt, be16_and_two_pow]
  cases (h.getD 6 0).toNat.testBit i with
  | false =>
    rw [Bool.toNat_false, Nat.zero_mul, if_neg (not_not.mpr rfl)]
    exact arsAtou_fmtU (by decide)
  | true =>
    rw [Bool.toNat_true, Nat.one_mul, if_pos hpos]
    exact arsAtou_fmtU (by decide)

/-- The offset. -/
theorem fill_fragoff {x : UInt8} {y : UInt8} (hle : 8 ≤ h.length)
    (hm : (l0.lData.drop 6).take 2 = [0, 0]) (hx : h.getD 6 0 = x) (hy : h.getD 7 0 = y) :
    Fill l0 h (setFragoff libc (fmtU ((ntohsAt 6 h &&& 0x1FFF) * 8))) 6 [] flags
      6 [lowBits 5 x, y] flags := by
  have hlt := be16_lt x y
  have hxlt := x.toNat_lt
  have hylt := y.toNat_lt
  have hv : arsAtou (fmtU ((ntohsAt 6 h &&& 0x1FFF) * 8)) / 8 = be16 x y % 2 ^ 13 := by
    rw [ntohsAt, hx, hy, show 0x1FFF = 2 ^ 13 - 1 from rfl, Nat.and_two_pow_sub_one_eq_mod,
      arsAtou_fmtU (by omega), Nat.mul_div_cancel _ (by decide)]
  have hhi : UInt8.ofNat (be16 x y % 2 ^ 13 / 256) = lowBits 5 x := by
    rw [lowBits]
    congr 1
    simp only [be16]
    omega
  have hlo : UInt8.ofNat (be16 x y % 2 ^ 13) = y := by
    refine ofNat_eq_of_mod ?_
    simp only [be16]
    omega
  refine .start (k := 2) hle hm ?_
  rintro l hl
  obtain ⟨l1, hok1, hl1⟩ := fill_mask16 (a := 0) (b := 0xE0) (· &&& ·) hle l hl
  obtain ⟨l2, hok2, hl2⟩ := fill_mask16 (a := lowBits 5 x) (b := y) (· ||| ·) hle l1 hl1
  have hmask : putLe16 0xE000 = [0, 0xE0] := by decide
  refine ⟨l2, ?_, ?_⟩
  · rw [setFragoff, hmask, hok1, bind_ok, putBe16, hv, hhi, hlo]
    exact hok2
  · simpa using hl2

/-- A flag. -/
theorem fill_fragBit {i : ℕ} (hi : i = 5 ∨ i = 6 ∨ i = 7) {x y : UInt8} (hle : 8 ≤ h.length)
    (hx : h.getD 6 0 = x) :
    Fill l0 h (setFragBit (2 ^ (8 + i)) libc (fmtFrag (2 ^ (8 + i)) h)) 6 [lowBits i x, y] flags
      6 [lowBits (i + 1) x, y] flags := by
  have hclear : ∀ n < 256, (UInt8.ofNat n).toNat.testBit i = false →
      lowBits i (UInt8.ofNat n) &&& UInt8.ofNat ((65535 - 2 ^ (8 + i)) / 256) =
        lowBits (i + 1) (UInt8.ofNat n) := by
    rcases hi with rfl | rfl | rfl <;> decide +kernel
  have hset : ∀ n < 256, (UInt8.ofNat n).toNat.testBit i = true →
      lowBits i (UInt8.ofNat n) ||| UInt8.ofNat (2 ^ (8 + i) / 256) =
        lowBits (i + 1) (UInt8.ofNat n) := by
    rcases hi with rfl | rfl | rfl <;> decide +kernel
  have hclear := hclear x.toNat x.toNat_lt
  have hset := hset x.toNat x.toNat_lt
  rw [UInt8.ofNat_toNat] at hclear hset
  have hlo : UInt8.ofNat (65535 - 2 ^ (8 + i)) = 0xFF ∧ UInt8.ofNat (2 ^ (8 + i)) = 0 := by
    rcases hi with rfl | rfl | rfl <;> decide
  have hff : y &&& 0xFF = y := by
    have hall : ∀ n < 256, UInt8.ofNat n &&& 0xFF = UInt8.ofNat n := by decide +kernel
    have := hall y.toNat y.toNat_lt
    rwa [UInt8.ofNat_toNat] at this
  rintro l hl
  have hv := @arsAtou_fmtFrag h i
  rw [hx] at hv
  cases hbit : x.toNat.testBit i with
  | false =>
    rw [hbit, Bool.toNat_false] at hv
    obtain ⟨l', hok, hl'⟩ := fill_mask16 (a := UInt8.ofNat ((65535 - 2 ^ (8 + i)) / 256))
      (b := 0xFF) (· &&& ·) hle l hl
    rw [hclear hbit, hff] at hl'
    refine ⟨l', ?_, hl'⟩
    rw [setFragBit, if_pos hv, putBe16, hlo.1]
    exact hok
  | true =>
    rw [hbit, Bool.toNat_true] at hv
    obtain ⟨l', hok, hl'⟩ := fill_mask16 (a := UInt8.ofNat (2 ^ (8 + i) / 256))
      (b := 0) (· ||| ·) hle l hl
    rw [hset hbit, UInt8.or_zero] at hl'
    refine ⟨l', ?_, hl'⟩
    rw [setFragBit, if_neg (by rw [hv]; decide), putBe16, hlo.2]
    exact hok

theorem lowBits_eight (x : UInt8) : lowBits 8 x = x := by
  have := x.toNat_lt
  rw [lowBits, Nat.mod_eq_of_lt this, UInt8.ofNat_toNat]

/-! ### Addresses -/

/-- An address. -/
theorem fill_addr (hlibc : libc.Inverts) (hle : n + 4 ≤ h.length) :
    Fill l0 h (setAddr n libc (dottedQuad (h.drop n))) n [] flags (n + 4) [] flags := by
  have hlen : ((h.drop n).take 4).length = 4 := by
    rw [List.length_take, List.length_drop]
    omega
  have htext : dottedQuad (h.drop n) = dottedQuad ((h.drop n).take 4) := by
    rw [slice_eq_four hle]
    simp only [dottedQuad, List.getD_eq_getElem?_getD, List.getElem?_drop]
    rfl
  have hres : arsResolve libc (dottedQuad (h.drop n)) = .ok ((h.drop n).take 4) := by
    rw [htext, arsResolve, hlibc.aton _ hlen]
  rintro l hl
  rw [setAddr, hres, bind_ok]
  have hfill := @fill_field l0 h [] n flags ((h.drop n).take 4) (Nat.zero_le _)
    (by rw [hlen]; exact hle) (by rw [hlen])
  rw [hlen] at hfill
  exact hfill l hl

/-- An IPv6 address. -/
theorem fill_addr6 (hlibc : libc.Inverts) (hle : n + 16 ≤ h.length) :
    Fill l0 h (setAddr6 n libc (fmtIp6 libc ((h.drop n).take 16))) n [] flags (n + 16) [] flags := by
  have hlen : ((h.drop n).take 16).length = 16 := by
    rw [List.length_take, List.length_drop]
    omega
  obtain ⟨s, hntop, hpton, -⟩ := hlibc.pton _ hlen
  have hres : arsResolve6 libc (fmtIp6 libc ((h.drop n).take 16)) = .ok ((h.drop n).take 16) := by
    rw [fmtIp6, hntop, Option.getD_some, arsResolve6, hpton]
  rintro l hl
  rw [setAddr6, hres, bind_ok]
  have hfill := @fill_field l0 h [] n flags ((h.drop n).take 16) (Nat.zero_le _)
    (by rw [hlen]; exact hle) (by rw [hlen])
  rw [hlen] at hfill
  exact hfill l hl

end Fill

end StyxWire
