import Mathlib.Data.List.Basic
import Mathlib.Data.List.GetD
import Mathlib.Tactic.Ring

/-!
# Byte strings as memory

A block of memory is the list of its bytes. This file has the two operations the
rest needs on it – a write at an offset and the reading of a number – with the
laws that let a header be built field by field and read back:

* `Mem.writeAt` overwrites a stretch of a block and never changes the size of the
  block, so that the laws below carry no bound on the offset;
* `Mem.be16`, `Mem.be32`, `Mem.le16` read a number off its bytes, and
  `Mem.putBe16`, `Mem.putBe32`, `Mem.putLe16` are the bytes of a number.
-/

namespace Mem

variable {α : Type*}

/-! ### Writing at an offset -/

/-- Overwrite the stretch of `d` starting at `off` by `src`. What does not fit in
the block is not written, so the size of the block never changes. -/
def writeAt (d : List α) (off : ℕ) (src : List α) : List α :=
  d.take off ++ (src.take (d.length - off) ++ d.drop (off + src.length))

@[simp] theorem length_writeAt (d : List α) (off : ℕ) (src : List α) :
    (writeAt d off src).length = d.length := by
  simp only [writeAt, List.length_append, List.length_take, List.length_drop]
  omega

/-- A write that fits is the obvious concatenation. -/
theorem writeAt_eq {d : List α} {off : ℕ} {src : List α} (h : off + src.length ≤ d.length) :
    writeAt d off src = d.take off ++ src ++ d.drop (off + src.length) := by
  have hsrc : src.take (d.length - off) = src := List.take_of_length_le (by omega)
  rw [writeAt, hsrc, List.append_assoc]

/-- **Reading after a write**: inside the stretch written the source is read,
outside it the old block. -/
theorem getElem?_writeAt (d : List α) (off : ℕ) (src : List α) (i : ℕ) :
    (writeAt d off src)[i]? =
      if off ≤ i ∧ i < off + src.length ∧ i < d.length then src[i - off]? else d[i]? := by
  simp only [writeAt, List.getElem?_append, List.length_take, List.getElem?_take,
    List.getElem?_drop]
  rcases Nat.lt_or_ge i d.length with hi | hi
  · rcases Nat.lt_or_ge i off with hlt | hge
    · rw [if_pos (by omega), if_pos hlt, if_neg (by omega)]
    · rw [if_neg (by omega)]
      rcases Nat.lt_or_ge i (off + src.length) with hin | hout
      · rw [if_pos (by omega), if_pos (by omega), if_pos ⟨hge, hin, hi⟩,
          show i - min off d.length = i - off by omega]
      · rw [if_neg (by omega), if_neg (by omega)]
        congr 1
        omega
  · rw [if_neg (by omega), List.getElem?_eq_none hi]
    split_ifs <;> first | omega | exact List.getElem?_eq_none (by omega)

theorem getElem?_writeAt_of_notMem {d : List α} {off : ℕ} {src : List α} {i : ℕ}
    (h : i < off ∨ off + src.length ≤ i) : (writeAt d off src)[i]? = d[i]? := by
  rw [getElem?_writeAt, if_neg (by omega)]

/-- Cutting a block after a write is writing in the cut block. -/
theorem take_writeAt (d : List α) (off : ℕ) (src : List α) (n : ℕ) :
    (writeAt d off src).take n = writeAt (d.take n) off src := by
  refine List.ext_getElem? fun i => ?_
  simp only [List.getElem?_take, getElem?_writeAt, List.length_take]
  split_ifs <;> first | rfl | omega

/-- A write that fits in the first of two adjacent blocks stays in it. -/
theorem writeAt_append {d : List α} {off : ℕ} {src : List α} (h : off + src.length ≤ d.length)
    (e : List α) : writeAt (d ++ e) off src = writeAt d off src ++ e := by
  rw [writeAt_eq h, writeAt_eq (by simp; omega), List.take_append_of_le_length (by omega),
    List.drop_append_of_le_length h]
  simp

/-- The last of two writes of the same stretch wins. -/
theorem writeAt_writeAt {d : List α} {off : ℕ} {s t : List α} (h : s.length ≤ t.length) :
    writeAt (writeAt d off s) off t = writeAt d off t := by
  refine List.ext_getElem? fun i => ?_
  simp only [getElem?_writeAt, length_writeAt]
  split_ifs <;> first | rfl | omega

/-- Writes of disjoint stretches commute. -/
theorem writeAt_comm {d : List α} {off off' : ℕ} {s t : List α}
    (h : off + s.length ≤ off' ∨ off' + t.length ≤ off) :
    writeAt (writeAt d off s) off' t = writeAt (writeAt d off' t) off s := by
  refine List.ext_getElem? fun i => ?_
  simp only [getElem?_writeAt, length_writeAt]
  split_ifs <;> first | rfl | omega

/-- Writing what is already there changes nothing. -/
theorem writeAt_self (d : List α) (off n : ℕ) : writeAt d off ((d.drop off).take n) = d := by
  refine List.ext_getElem? fun i => ?_
  rw [getElem?_writeAt]
  split_ifs with h
  · obtain ⟨h1, h2, h3⟩ := h
    simp only [List.length_take, List.length_drop] at h2
    rw [List.getElem?_take, if_pos (by omega), List.getElem?_drop]
    congr 1
    omega
  · rfl

/-- Reading a stretch that a write leaves alone. -/
theorem drop_take_writeAt {d : List α} {off off' n : ℕ} {s : List α}
    (h : off + s.length ≤ off' ∨ off' + n ≤ off) :
    ((writeAt d off s).drop off').take n = (d.drop off').take n := by
  refine List.ext_getElem? fun i => ?_
  simp only [List.getElem?_take, List.getElem?_drop, getElem?_writeAt]
  split_ifs <;> first | rfl | omega

/-- Reading back the stretch written. -/
theorem drop_take_writeAt_self {d : List α} {off : ℕ} {s : List α}
    (h : off + s.length ≤ d.length) : ((writeAt d off s).drop off).take s.length = s := by
  rw [writeAt_eq h, List.append_assoc, List.drop_append, List.drop_eq_nil_of_le (by simp),
    List.length_take, Nat.min_eq_left (by omega)]
  simp

/-- A byte of the first of two blocks. -/
theorem getD_append_left {h : List UInt8} (rest : List UInt8) {i : ℕ} (hi : i < h.length) :
    (h ++ rest).getD i 0 = h.getD i 0 := by
  rw [List.getD_eq_getElem?_getD, List.getElem?_append_left hi, List.getD_eq_getElem?_getD]

/-! ### Several writes

A header is filled in by writes of stretches that do not overlap. Such a list of writes
behaves as one write: the last of two of the same shape wins, each stretch reads back as
what was written there, and writing what is there changes nothing. -/

/-- Do the writes of a list, each an offset and the bytes to write there. -/
def writeAll (d : List α) (ws : List (ℕ × List α)) : List α :=
  ws.foldl (fun d w => writeAt d w.1 w.2) d

/-- Two writes do not overlap. -/
def Apart (w w' : ℕ × List α) : Prop :=
  w.1 + w.2.length ≤ w'.1 ∨ w'.1 + w'.2.length ≤ w.1

/-- The stretch a write covers. -/
def span (w : ℕ × List α) : ℕ × ℕ := (w.1, w.2.length)

@[simp] theorem writeAll_nil (d : List α) : writeAll d [] = d := rfl

@[simp] theorem writeAll_cons (d : List α) (w : ℕ × List α) (ws : List (ℕ × List α)) :
    writeAll d (w :: ws) = writeAll (writeAt d w.1 w.2) ws := rfl

@[simp] theorem length_writeAll (d : List α) (ws : List (ℕ × List α)) :
    (writeAll d ws).length = d.length := by
  induction ws generalizing d with
  | nil => rfl
  | cons w ws ih => rw [writeAll_cons, ih, length_writeAt]

/-- A write commutes with those it does not overlap. -/
theorem writeAll_writeAt {d : List α} {w : ℕ × List α} {ws : List (ℕ × List α)}
    (h : ∀ w' ∈ ws, Apart w w') :
    writeAll (writeAt d w.1 w.2) ws = writeAt (writeAll d ws) w.1 w.2 := by
  induction ws generalizing d with
  | nil => rfl
  | cons w' ws ih =>
    rw [writeAll_cons, writeAll_cons, writeAt_comm (h w' (by simp)), ih fun v hv => h v (by simp [hv])]

/-- **The last of two lists of writes of the same shape wins.** -/
theorem writeAll_writeAll {d : List α} {ws ws' : List (ℕ × List α)}
    (hshape : ws.map span = ws'.map span) (hws : ws.Pairwise Apart) :
    writeAll (writeAll d ws) ws' = writeAll d ws' := by
  induction ws generalizing d ws' with
  | nil =>
    obtain rfl : ws' = [] := by simpa using hshape
    rfl
  | cons w ws ih =>
    obtain ⟨w', ws', rfl⟩ : ∃ w' vs, ws' = w' :: vs := by
      cases ws' with
      | nil => simp at hshape
      | cons w' vs => exact ⟨w', vs, rfl⟩
    simp only [List.map_cons, List.cons.injEq, span, Prod.mk.injEq] at hshape
    obtain ⟨⟨hoff, hlen⟩, hshape⟩ := hshape
    obtain ⟨hw, hws⟩ := List.pairwise_cons.mp hws
    have hw' : ∀ v ∈ ws, Apart w' v := by
      intro v hv
      have := hw v hv
      simp only [Apart] at this ⊢
      omega
    rw [writeAll_cons, writeAll_cons, ← writeAll_writeAt hw', ← hoff, writeAt_writeAt hlen.le,
      hoff, ih hshape hws, writeAll_cons]

/-- **Each stretch reads back as what was written there.** -/
theorem slice_writeAll {d : List α} {ws : List (ℕ × List α)} (hws : ws.Pairwise Apart)
    {w : ℕ × List α} (hw : w ∈ ws) (hfit : w.1 + w.2.length ≤ d.length) :
    ((writeAll d ws).drop w.1).take w.2.length = w.2 := by
  induction ws generalizing d with
  | nil => simp at hw
  | cons v ws ih =>
    obtain ⟨hv, hws⟩ := List.pairwise_cons.mp hws
    rcases List.mem_cons.mp hw with rfl | hw
    · rw [writeAll_cons, writeAll_writeAt hv]
      exact drop_take_writeAt_self (by simpa using hfit)
    · exact ih hws hw (by simpa using hfit)

/-- A stretch that none of the writes touches is left alone. -/
theorem drop_take_writeAll {d : List α} {ws : List (ℕ × List α)} {off n : ℕ}
    (h : ∀ w ∈ ws, w.1 + w.2.length ≤ off ∨ off + n ≤ w.1) :
    ((writeAll d ws).drop off).take n = (d.drop off).take n := by
  induction ws generalizing d with
  | nil => rfl
  | cons w ws ih =>
    rw [writeAll_cons, ih fun v hv => h v (by simp [hv]), drop_take_writeAt (h w (by simp))]

/-- **Writing what is there changes nothing.** -/
theorem writeAll_self {d : List α} {ws : List (ℕ × List α)}
    (h : ∀ w ∈ ws, w.2 = (d.drop w.1).take w.2.length) : writeAll d ws = d := by
  induction ws with
  | nil => rfl
  | cons w ws ih =>
    have hw : writeAt d w.1 w.2 = d := by
      rw [h w (by simp)]
      exact writeAt_self d w.1 _
    rw [writeAll_cons, hw]
    exact ih fun v hv => h v (by simp [hv])

/-! ### Half bytes -/

/-- Replace the high half of a byte. -/
def setHi (b : UInt8) (v : ℕ) : UInt8 := UInt8.ofNat (b.toNat % 16 + 16 * (v % 16))

/-- Replace the low half of a byte. -/
def setLo (b : UInt8) (v : ℕ) : UInt8 := UInt8.ofNat (b.toNat / 16 * 16 + v % 16)

@[simp] theorem toNat_setHi (b : UInt8) (v : ℕ) :
    (setHi b v).toNat = b.toNat % 16 + 16 * (v % 16) := by
  simp only [setHi, UInt8.toNat_ofNat']
  omega

@[simp] theorem toNat_setLo (b : UInt8) (v : ℕ) :
    (setLo b v).toNat = b.toNat / 16 * 16 + v % 16 := by
  have := b.toNat_lt
  simp only [setLo, UInt8.toNat_ofNat']
  omega

/-- Two bytes with the same halves are the same byte. -/
theorem eq_of_halves {b c : UInt8} (hhi : b.toNat / 16 = c.toNat / 16)
    (hlo : b.toNat % 16 = c.toNat % 16) : b = c := by
  refine UInt8.toNat_inj.mp ?_
  omega

/-! ### Numbers in memory -/

/-- The number spelt by two bytes, the most significant first. -/
def be16 (h l : UInt8) : ℕ := h.toNat * 256 + l.toNat

/-- The number spelt by two bytes, the least significant first. -/
def le16 (l h : UInt8) : ℕ := l.toNat + 256 * h.toNat

/-- The number spelt by four bytes, the most significant first. -/
def be32 (a b c d : UInt8) : ℕ := be16 a b * 65536 + be16 c d

/-- The two bytes of a number, the most significant first. -/
def putBe16 (n : ℕ) : List UInt8 := [UInt8.ofNat (n / 256), UInt8.ofNat n]

/-- The two bytes of a number, the least significant first. -/
def putLe16 (n : ℕ) : List UInt8 := [UInt8.ofNat n, UInt8.ofNat (n / 256)]

/-- The four bytes of a number, the most significant first. -/
def putBe32 (n : ℕ) : List UInt8 := putBe16 (n / 65536) ++ putBe16 n

@[simp] theorem length_putBe16 (n : ℕ) : (putBe16 n).length = 2 := rfl

@[simp] theorem length_putLe16 (n : ℕ) : (putLe16 n).length = 2 := rfl

@[simp] theorem length_putBe32 (n : ℕ) : (putBe32 n).length = 4 := rfl

theorem be16_lt (h l : UInt8) : be16 h l < 65536 := by
  have := h.toNat_lt
  have := l.toNat_lt
  simp only [be16]
  omega

theorem le16_lt (l h : UInt8) : le16 l h < 65536 := by
  have := h.toNat_lt
  have := l.toNat_lt
  simp only [le16]
  omega

theorem be32_lt (a b c d : UInt8) : be32 a b c d < 4294967296 := by
  have := be16_lt a b
  have := be16_lt c d
  simp only [be32]
  omega

/-- The byte of a number read modulo 256. -/
theorem ofNat_eq_of_mod {n : ℕ} {b : UInt8} (h : n % 256 = b.toNat) : UInt8.ofNat n = b := by
  refine UInt8.toNat_inj.mp ?_
  simpa using h

@[simp] theorem putBe16_be16 (h l : UInt8) : putBe16 (be16 h l) = [h, l] := by
  have hh := h.toNat_lt
  have hl := l.toNat_lt
  simp only [putBe16, be16, List.cons.injEq, and_true]
  exact ⟨ofNat_eq_of_mod (by omega), ofNat_eq_of_mod (by omega)⟩

@[simp] theorem putLe16_le16 (l h : UInt8) : putLe16 (le16 l h) = [l, h] := by
  have hh := h.toNat_lt
  have hl := l.toNat_lt
  simp only [putLe16, le16, List.cons.injEq, and_true]
  exact ⟨ofNat_eq_of_mod (by omega), ofNat_eq_of_mod (by omega)⟩

@[simp] theorem putBe32_be32 (a b c d : UInt8) : putBe32 (be32 a b c d) = [a, b, c, d] := by
  have h1 := be16_lt a b
  have h2 := be16_lt c d
  have hhi : be32 a b c d / 65536 = be16 a b := by simp only [be32]; omega
  have hlo : putBe16 (be32 a b c d) = putBe16 (be16 c d) := by
    simp only [putBe16, be32, List.cons.injEq, and_true]
    exact ⟨ofNat_eq_of_mod (by simp; omega), ofNat_eq_of_mod (by simp; omega)⟩
  rw [putBe32, hhi, hlo, putBe16_be16, putBe16_be16]
  rfl

/-- Reading back the two bytes of a number, the most significant first. -/
theorem be16_putBe16 (n : ℕ) :
    be16 (UInt8.ofNat (n / 256)) (UInt8.ofNat n) = n % 65536 := by
  simp only [be16, UInt8.toNat_ofNat']
  omega

/-- Reading back the four bytes of a number, the most significant first. -/
theorem be32_putBe32 (n : ℕ) :
    be32 (UInt8.ofNat (n / 65536 / 256)) (UInt8.ofNat (n / 65536)) (UInt8.ofNat (n / 256))
      (UInt8.ofNat n) = n % 4294967296 := by
  rw [be32, be16_putBe16, be16_putBe16]
  omega

/-- Reading back the two bytes of a number, the least significant first. -/
theorem le16_putLe16 (n : ℕ) :
    le16 (UInt8.ofNat n) (UInt8.ofNat (n / 256)) = n % 65536 := by
  simp only [le16, UInt8.toNat_ofNat']
  omega

end Mem
