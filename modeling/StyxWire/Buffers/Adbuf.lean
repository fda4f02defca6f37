import StyxWire.Lib.Blocks
import Mathlib.Data.UInt
import Mathlib.Data.Nat.ModEq

/-!
# Dynamic buffers

The functions of `adbuf.c`, on a memory in blocks, where a call that reads or writes outside of the
blocks has no result. A buffer holds a list of bytes (`StyxWire.Buffers.Holds`) if its block starts
with them and a NUL, and the fields are right. Each function keeps this, with the list that it
should have: of the two ways to append, one is a case of the other, and of the functions that
shrink a buffer all end in a block of the exact size.

The exception is `adbuf_add` with data that lie in the buffer itself, if this has to grow
(`StyxWire.Buffers.CanAdd`): the data are read when `realloc` has freed them.
-/

namespace StyxWire.Buffers

open Blocks

/-! ### The functions -/

/-- `struct adbuf`. A null pointer is `none`. -/
structure Adbuf where
  buf : Option ℕ
  size : ℕ
  left : ℕ

/-- `ADBUF_INCR`. -/
def adbufIncr : ℕ := 256

/-- What a `size_t` keeps of a number. -/
def wrap (n : ℕ) : ℕ := n % 2 ^ 64

/-- `adbuf_used`. -/
def Adbuf.used (b : Adbuf) : ℕ := wrap (b.size + 2 ^ 64 - b.left)

/-- Where data are: somewhere else, and these are the bytes from there on; or in a block. -/
inductive Source
  | outside (bytes : List UInt8)
  | block (p : Option ℕ) (off : ℕ)

/-- The bytes from there on, to the end of what may be read. -/
def Source.rest (m : Memory UInt8) : Source → Option (List UInt8)
  | outside bytes => some bytes
  | block p off => p.bind fun p => m.rest p off

/-- `strlen`. -/
def Source.strlen (m : Memory UInt8) (string : Source) : Option ℕ :=
  (string.rest m).bind fun bytes => bytes.findIdx? (· = 0)

/-- The data do not overlap these bytes of the block. -/
def Source.Apart (p off len : ℕ) : Source → Prop
  | outside _ => True
  | block q off' => q = some p → off' + len ≤ off ∨ off + len ≤ off'

instance (p off len : ℕ) : DecidablePred (Source.Apart p off len)
  | .outside _ => inferInstanceAs (Decidable True)
  | .block q off' => inferInstanceAs (Decidable (q = some p → off' + len ≤ off ∨ off + len ≤ off'))

/-- `memcpy`, to an offset of a block. -/
def memcpy (m : Memory UInt8) (p off : ℕ) (data : Source) (len : ℕ) : Option (Memory UInt8) := do
  let bytes ← data.rest m
  if len ≤ bytes.length ∧ data.Apart p off len then m.write p off (bytes.take len) else none

/-- The end of `adbuf_add`. -/
def adbufPut (m : Memory UInt8) (p : ℕ) (b : Adbuf) (data : Source) (len : ℕ) :
    Option (ℕ × Adbuf × Memory UInt8) := do
  let m ← memcpy m p b.used data len
  let m ← m.write p (wrap (b.used + len)) [0]
  return (0, { b with left := wrap (b.left + 2 ^ 64 - len) }, m)

variable (A : Allocator UInt8) (m : Memory UInt8) (b : Adbuf)

/-- `adbuf_init`. -/
def adbufInit : Option (ℕ × Adbuf × Memory UInt8) :=
  match m.malloc A 1 with
  | none => some (1, { b with buf := none }, m)
  | some (p, m) => (m.write p 0 [0]).map fun m => (0, ⟨some p, 1, 1⟩, m)

/-- `adbuf_free`. -/
def adbufFree : Option (Adbuf × Memory UInt8) :=
  match b.buf with
  | none => some (b, m)
  | some p => (m.free p).map fun m => ({ b with buf := none }, m)

/-- `adbuf_reset`. -/
def adbufReset : Option (ℕ × Adbuf × Memory UInt8) := do
  let (b, m) ← adbufFree m b
  adbufInit A m b

/-- `adbuf_add`. -/
def adbufAdd (data : Source) (len : ℕ) : Option (ℕ × Adbuf × Memory UInt8) :=
  match b.buf with
  | none => some (1, b, m)
  | some p =>
    if len = 0 then some (0, b, m)
    else if b.left < wrap (len + 1) then
      let newsz := wrap (b.size + len + adbufIncr)
      (m.realloc A p newsz).bind fun t =>
        match t with
        | none => some (1, b, m)
        | some (t, m) => adbufPut m t ⟨some t, newsz, wrap (b.left + (len + adbufIncr))⟩ data len
    else adbufPut m p b data len

/-- `adbuf_addchar`. -/
def adbufAddchar (c : ℤ) : Option (ℕ × Adbuf × Memory UInt8) :=
  match b.buf with
  | none => some (1, b, m)
  | some p =>
    if 2 ≤ b.left then do
      let m ← m.write p b.used [UInt8.ofInt c]
      let m ← m.write p (b.used + 1) [0]
      return (0, { b with left := b.left - 1 }, m)
    else adbufAdd A m b (.outside [UInt8.ofInt c]) 1

/-- `adbuf_strcat`. -/
def adbufStrcat (string : Source) : Option (ℕ × Adbuf × Memory UInt8) := do
  adbufAdd A m b string (← string.strlen m)

/-- `adbuf_cat`, of the buffer `a` to `b`. -/
def adbufCat (a : Adbuf) : Option (ℕ × Adbuf × Memory UInt8) :=
  adbufAdd A m b (.block a.buf 0) a.used

/-- `adbuf_cut`. -/
def adbufCut (count : ℕ) : Option (ℕ × Adbuf × Memory UInt8) :=
  match b.buf with
  | none => some (1, b, m)
  | some p =>
    if b.used ≤ count then some (0, b, m)
    else
      let count := wrap (count + 1)
      (m.realloc A p count).bind fun t =>
        match t with
        | none => some (1, b, m)
        | some (t, m) => (m.write t (count - 1) [0]).map fun m => (0, ⟨some t, count, 1⟩, m)

/-- `adbuf_ltrim`. -/
def adbufLtrim (count : ℕ) : Option (ℕ × Adbuf × Memory UInt8) :=
  match b.buf with
  | none => some (1, b, m)
  | some p =>
    if count = 0 then some (0, b, m)
    else if b.used ≤ count then adbufReset A m b
    else
      let newlen := b.used - count
      match m.malloc A (newlen + 1) with
      | none => some (1, b, m)
      | some (t, m) => do
        let m ← memcpy m t 0 (.block (some p) count) newlen
        let m ← m.write t newlen [0]
        let m ← m.free p
        return (0, ⟨some t, newlen + 1, 1⟩, m)

/-- `adbuf_rtrim`. -/
def adbufRtrim (count : ℕ) : Option (ℕ × Adbuf × Memory UInt8) :=
  adbufCut A m b (wrap (b.used + 2 ^ 64 - count))

/-! ### What a buffer holds -/

variable {A m b} {p q : ℕ} {l : List UInt8}

/-- The buffer holds these bytes, in this block. The rest of the block behind the NUL is free, and
so is the NUL. -/
structure Holds (m : Memory UInt8) (b : Adbuf) (p : ℕ) (l : List UInt8) : Prop where
  buf : b.buf = some p
  size : b.size = l.length + b.left
  left : 1 ≤ b.left
  lt : b.size < 2 ^ 64
  block : ∃ tail, m.block p = some (l ++ [0] ++ tail) ∧ tail.length + 1 = b.left

theorem wrap_of_lt {n : ℕ} (h : n < 2 ^ 64) : wrap n = n := Nat.mod_eq_of_lt h

theorem wrap_sub {n k : ℕ} (h : n < 2 ^ 64) (hk : k ≤ n) : wrap (n + 2 ^ 64 - k) = n - k := by
  rw [wrap]
  omega

theorem used_eq {n : ℕ} (hsize : b.size = n + b.left) (hlt : b.size < 2 ^ 64) : b.used = n := by
  rw [Adbuf.used, wrap_sub hlt (by omega)]
  omega

theorem Holds.used (h : Holds m b p l) : b.used = l.length := used_eq h.size h.lt

/-- The call returns 0, and the buffer holds these bytes. -/
def Becomes (m : Memory UInt8) (p : ℕ) (l : List UInt8)
    (r : Option (ℕ × Adbuf × Memory UInt8)) : Prop :=
  ∃ b' m' p', r = some (0, b', m') ∧ Holds m' b' p' l ∧ m.Frame p m' p'

/-- Nothing is done. -/
theorem Holds.becomes (h : Holds m b p l) (hm : m.Bounded) : Becomes m p l (some (0, b, m)) :=
  ⟨b, m, p, rfl, h, .refl hm p⟩

/-- What comes behind what has been done before. -/
theorem Becomes.trans {m' : Memory UInt8} {p' : ℕ} {r : Option (ℕ × Adbuf × Memory UInt8)}
    (h : Becomes m' p' l r) (hframe : m.Frame p m' p') : Becomes m p l r := by
  obtain ⟨b'', m'', p'', hr, hholds, hframe'⟩ := h
  exact ⟨b'', m'', p'', hr, hholds, hframe.trans hframe'⟩

theorem memcpy_eq {off len : ℕ} {data : Source} {rest : List UInt8}
    (hrest : data.rest m = some rest) (hlen : len ≤ rest.length) (hapart : data.Apart p off len) :
    memcpy m p off data len = m.write p off (rest.take len) := by
  rw [memcpy, hrest]
  exact if_pos ⟨hlen, hapart⟩

theorem init_becomes (hmem : ∀ k n, A.fails k n = false) (hm : m.Bounded) (b : Adbuf) (p : ℕ) :
    ∃ b' m' p', adbufInit A m b = some (0, b', m') ∧ b'.size = 1 ∧ b'.left = 1 ∧
      Holds m' b' p' [] ∧ m.Frame p m' p' := by
  obtain ⟨m', bytes, hmalloc, hblock, hlen, hframe⟩ := Memory.exists_malloc hm hmem 1
  obtain ⟨x, rfl⟩ := List.length_eq_one_iff.mp hlen
  have hsplit : m'.block m.count = some ([] ++ [x] ++ []) := hblock
  obtain ⟨m'', hwrite, hblock', hframe'⟩ :=
    Memory.exists_write (hframe p).bounded hsplit List.length_nil [0] rfl
  rw [adbufInit, hmalloc]
  dsimp only
  rw [hwrite]
  exact ⟨_, m'', m.count, rfl, rfl, rfl,
    ⟨rfl, rfl, le_rfl, (by decide : 1 < 2 ^ 64), [], hblock', rfl⟩, (hframe p).trans hframe'⟩

/-- The end of `adbuf_add`, where the buffer has room. -/
theorem put_becomes {data : Source} {rest : List UInt8} {len : ℕ} (h : Holds m b p l)
    (hm : m.Bounded) (hrest : data.rest m = some rest) (hlen : len ≤ rest.length)
    (hapart : data.Apart p l.length len) (hroom : len < b.left) :
    Becomes m p (l ++ rest.take len) (adbufPut m p b data len) := by
  obtain ⟨tail, hblock, htail⟩ := h.block
  have hlt := h.lt
  have hsize := h.size
  -- the free part, split into what is written and what is not
  obtain ⟨x, tail', hbehind⟩ : ∃ x tail', ([0] ++ tail).drop len = [x] ++ tail' := by
    refine List.exists_cons_of_ne_nil fun hnil => ?_
    have hzero := congrArg List.length hnil
    simp only [List.length_drop, List.length_append, List.length_singleton, List.length_nil]
      at hzero
    omega
  have hlength := congrArg List.length hbehind
  simp only [List.length_drop, List.length_append, List.length_singleton] at hlength
  have hsplit : m.block p = some (l ++ ([0] ++ tail).take len ++ ([x] ++ tail')) := by
    rw [hblock, ← hbehind, List.append_assoc, List.append_assoc, List.take_append_drop]
  have htake : (rest.take len).length = (([0] ++ tail).take len).length := by
    simp only [List.length_take, List.length_append, List.length_singleton]
    omega
  have hend : (l ++ rest.take len).length = l.length + len := by
    rw [List.length_append, List.length_take, min_eq_left hlen]
  obtain ⟨m', hcopy, hblock', hframe⟩ := Memory.exists_write hm hsplit rfl _ htake
  rw [← List.append_assoc] at hblock'
  obtain ⟨m'', hnul, hblock'', hframe'⟩ :=
    Memory.exists_write hframe.bounded hblock' hend [0] rfl
  have hused : wrap (l.length + len) = l.length + len := wrap_of_lt (by omega)
  have hleft : wrap (b.left + 2 ^ 64 - len) = b.left - len := wrap_sub (by omega) hroom.le
  rw [adbufPut, h.used, memcpy_eq hrest hlen hapart, hcopy, hused]
  dsimp only [Option.bind_eq_bind, Option.bind_some]
  rw [hnul]
  refine ⟨_, m'', p, rfl, ⟨h.buf, ?_, ?_, h.lt, tail', hblock'', ?_⟩, hframe.trans hframe'⟩ <;>
    dsimp only <;> rw [hleft] <;> omega

/-! ### To append -/

/-- Where the data are in the block, if they are in this one. -/
def Source.own (p : ℕ) : Source → Option ℕ
  | outside _ => none
  | block q off => if q = some p then some off else none

/-- The data may be appended: if the buffer has to grow, they are not its own, and the new size is
one; and they do not overlap what is written. -/
structure CanAdd (b : Adbuf) (own : Option ℕ) (len : ℕ) : Prop where
  grows : b.left ≤ len → own = none ∧ b.size + len + adbufIncr < 2 ^ 64
  apart : ∀ off ∈ own, off + len ≤ b.size - b.left

/-- The data that are in other blocks stay. -/
theorem rest_of_frame {m' : Memory UInt8} {p' : ℕ} {data : Source} {rest : List UInt8}
    (hown : data.own p = none) (hrest : data.rest m = some rest) (hm : m.Bounded)
    (hframe : m.Frame p m' p') : data.rest m' = some rest ∧
      ∀ off len, data.Apart m.count off len := by
  cases data with
  | outside bytes => exact ⟨hrest, fun _ _ => trivial⟩
  | block q off =>
    cases q with
    | none => cases hrest
    | some q =>
      have hne : q ≠ p := by
        rintro rfl
        rw [Source.own, if_pos rfl] at hown
        cases hown
      obtain ⟨bytes, hbytes, -⟩ := Option.bind_eq_some_iff.mp (show m.rest q off = some rest from hrest)
      have hlt := hm.lt hbytes
      refine ⟨?_, fun off len heq => absurd (Option.some.inj heq) hlt.ne⟩
      rw [Source.rest, Option.bind_some, Memory.rest, hframe.others q hlt hne]
      exact hrest

/-- **To append**, where it may be done. -/
theorem add_becomes (hmem : ∀ k n, A.fails k n = false) (hm : m.Bounded) (h : Holds m b p l)
    {data : Source} {rest : List UInt8} {len : ℕ} (hrest : data.rest m = some rest)
    (hlen : len ≤ rest.length) (hcan : len = 0 ∨ CanAdd b (data.own p) len) :
    Becomes m p (l ++ rest.take len) (adbufAdd A m b data len) := by
  obtain ⟨tail, hblock, htail⟩ := h.block
  have hlt := h.lt
  have hsize := h.size
  rw [adbufAdd, h.buf]
  dsimp only
  by_cases hzero : len = 0
  · rw [if_pos hzero, hzero, List.take_zero, List.append_nil]
    exact h.becomes hm
  rw [if_neg hzero]
  obtain ⟨hgrows, hapart⟩ := hcan.resolve_left hzero
  by_cases hroom : b.left ≤ len
  · obtain ⟨hown, hfits⟩ := hgrows hroom
    rw [adbufIncr] at hfits ⊢
    have hnew : wrap (b.size + len + 256) = b.size + len + 256 := wrap_of_lt hfits
    have hle : b.left + (len + 256) < 2 ^ 64 := lt_of_le_of_lt (by omega) hfits
    have hleft : wrap (b.left + (len + 256)) = b.left + (len + 256) := wrap_of_lt hle
    obtain ⟨m', added, hrealloc, hblock', hlength, hframe⟩ :=
      Memory.exists_realloc (A := A) hm hmem hblock (b.size + len + 256)
    have hall : (l ++ [0] ++ tail).take (b.size + len + 256) = l ++ [0] ++ tail := by
      refine List.take_of_length_le ?_
      simp only [List.length_append, List.length_singleton]
      omega
    rw [hall] at hblock' hlength
    simp only [List.length_append, List.length_singleton] at hlength
    obtain ⟨hrest', hapart'⟩ := rest_of_frame hown hrest hm hframe
    have hholds : Holds m' ⟨some m.count, b.size + len + 256, b.left + (len + 256)⟩ m.count l :=
      ⟨rfl, by dsimp only; omega, by dsimp only; omega, hfits, tail ++ added,
        by rw [hblock', List.append_assoc (l ++ [0])], by
          simp only [List.length_append]
          omega⟩
    have hgrow : b.left < wrap (len + 1) := by
      rw [wrap_of_lt (by omega)]
      omega
    rw [if_pos hgrow, hnew, hrealloc, Option.bind_some, hleft]
    have hroom' : len < b.left + (len + 256) := by omega
    exact (put_becomes hholds hframe.bounded hrest' hlen (hapart' _ _) hroom').trans hframe
  · have hgrow : ¬b.left < wrap (len + 1) := by
      rw [wrap_of_lt (by omega)]
      omega
    rw [if_neg hgrow]
    refine put_becomes h hm hrest hlen ?_ (not_le.mp hroom)
    cases data with
    | outside bytes => trivial
    | block q off =>
      rintro rfl
      have hown := hapart off (by rw [Source.own, if_pos rfl]; rfl)
      exact Or.inl (by omega)

/-- The short way to append a byte is the long one. -/
theorem addchar_eq (h : Holds m b p l) (c : ℤ) :
    adbufAddchar A m b c = adbufAdd A m b (.outside [UInt8.ofInt c]) 1 := by
  have hlt := h.lt
  have hsize := h.size
  rw [adbufAddchar, h.buf]
  dsimp only
  by_cases hroom : 2 ≤ b.left
  · have hgrow : ¬b.left < wrap (1 + 1) := not_lt.mpr hroom
    have hused : wrap (b.used + 1) = b.used + 1 := wrap_of_lt (by rw [h.used]; omega)
    have hleft : wrap (b.left + 2 ^ 64 - 1) = b.left - 1 := wrap_sub (by omega) h.left
    rw [if_pos hroom, adbufAdd, h.buf]
    dsimp only
    have hrest : (Source.outside [UInt8.ofInt c]).rest m = some [UInt8.ofInt c] := rfl
    have hcopy : memcpy m p b.used (.outside [UInt8.ofInt c]) 1 =
        m.write p b.used [UInt8.ofInt c] := memcpy_eq hrest le_rfl trivial
    rw [if_neg one_ne_zero, if_neg hgrow, adbufPut, hused, hleft, hcopy, h.buf]
  · rw [if_neg hroom]

/-! ### To shrink -/

/-- **To cut on the right.** -/
theorem cut_becomes (hmem : ∀ k n, A.fails k n = false) (hm : m.Bounded) (h : Holds m b p l)
    (count : ℕ) : Becomes m p (l.take count) (adbufCut A m b count) := by
  obtain ⟨tail, hblock, htail⟩ := h.block
  have hlt := h.lt
  have hsize := h.size
  rw [adbufCut, h.buf]
  dsimp only
  rw [h.used]
  by_cases hall : l.length ≤ count
  · rw [if_pos hall, List.take_of_length_le hall]
    exact h.becomes hm
  · have hlt' : count < l.length := not_le.mp hall
    have hwrap : wrap (count + 1) = count + 1 := wrap_of_lt (by omega)
    rw [if_neg hall, hwrap, Nat.add_sub_cancel]
    obtain ⟨m', added, hrealloc, hblock', hlength, hframe⟩ :=
      Memory.exists_realloc (A := A) hm hmem hblock (count + 1)
    have hkept : (l ++ [0] ++ tail).take (count + 1) = l.take count ++ [l[count]] := by
      rw [List.append_assoc, List.take_append_of_le_length hlt', List.take_concat_get' l count hlt']
    have hadded : added = [] := by
      rw [← List.length_eq_zero_iff]
      rw [hkept] at hlength
      simp only [List.length_append, List.length_take, List.length_singleton] at hlength
      omega
    rw [hkept, hadded] at hblock'
    have hlen : (l.take count).length = count := by
      rw [List.length_take, min_eq_left hlt'.le]
    obtain ⟨m'', hwrite, hblock'', hframe'⟩ :=
      Memory.exists_write hframe.bounded hblock' hlen [0] rfl
    rw [hrealloc, Option.bind_some]
    dsimp only
    rw [hwrite]
    refine ⟨_, m'', m.count, rfl, ⟨rfl, ?_, le_rfl, ?_, [], hblock'', rfl⟩, hframe.trans hframe'⟩
    · rw [hlen]
    · exact lt_of_le_of_lt hlt' (by omega)

/-- More than there is cannot be cut: the difference wraps, and is no bound then. -/
theorem rtrim_becomes (hmem : ∀ k n, A.fails k n = false) (hm : m.Bounded) (h : Holds m b p l)
    {count : ℕ} (hcount : count < 2 ^ 64) :
    Becomes m p (if count ≤ l.length then l.take (l.length - count) else l)
      (adbufRtrim A m b count) := by
  have hlt := h.lt
  have hsize := h.size
  rw [adbufRtrim, h.used]
  split_ifs with hle
  · rw [wrap_sub (by omega) hle]
    exact cut_becomes hmem hm h _
  · have hwrap : l.length ≤ wrap (l.length + 2 ^ 64 - count) := by
      rw [wrap_of_lt] <;> omega
    have hcut := cut_becomes hmem hm h (wrap (l.length + 2 ^ 64 - count))
    rwa [List.take_of_length_le hwrap] at hcut

/-- A new block, instead of the old one. -/
theorem reset_becomes (hmem : ∀ k n, A.fails k n = false) (hm : m.Bounded) (h : Holds m b p l) :
    Becomes m p [] (adbufReset A m b) := by
  obtain ⟨tail, hblock, -⟩ := h.block
  obtain ⟨m', hfree, hframe⟩ := Memory.exists_free hm hblock
  rw [adbufReset, adbufFree, h.buf]
  dsimp only
  rw [hfree]
  obtain ⟨b', m'', p', hinit, -, -, hholds, hframe'⟩ :=
    init_becomes hmem hframe.bounded { b with buf := none } p
  exact ⟨b', m'', p', hinit, hholds, hframe.trans hframe'⟩

/-- **To discard on the left.** -/
theorem ltrim_becomes (hmem : ∀ k n, A.fails k n = false) (hm : m.Bounded) (h : Holds m b p l)
    (count : ℕ) : Becomes m p (l.drop count) (adbufLtrim A m b count) := by
  obtain ⟨tail, hblock, htail⟩ := h.block
  have hlt := h.lt
  have hsize := h.size
  rw [adbufLtrim, h.buf]
  dsimp only
  rw [h.used]
  by_cases hzero : count = 0
  · rw [if_pos hzero, hzero, List.drop_zero]
    exact h.becomes hm
  rw [if_neg hzero]
  by_cases hall : l.length ≤ count
  · rw [if_pos hall, List.drop_of_length_le hall]
    exact reset_becomes hmem hm h
  rw [if_neg hall]
  have hlt' : count < l.length := not_le.mp hall
  obtain ⟨m₁, bytes, hmalloc, hblock₁, hlength, hframe⟩ :=
    Memory.exists_malloc (A := A) hm hmem (l.length - count + 1)
  obtain ⟨x, hx⟩ : ∃ x, bytes.drop (l.length - count) = [x] :=
    List.length_eq_one_iff.mp (by rw [List.length_drop]; omega)
  have hsplit : m₁.block m.count = some ([] ++ bytes.take (l.length - count) ++ [x]) := by
    rw [hblock₁, ← hx, List.nil_append, List.take_append_drop]
  have hp : m₁.block p = some (l ++ [0] ++ tail) :=
    ((hframe m.count).others p (hm.lt hblock) (hm.lt hblock).ne).trans hblock
  have hrest : (Source.block (some p) count).rest m₁ = some (l.drop count ++ [0] ++ tail) := by
    rw [Source.rest, Option.bind_some, Memory.rest, hp, Option.bind_some, if_pos, List.append_assoc,
      List.drop_append_of_le_length hlt'.le, List.append_assoc]
    simp only [List.length_append]
    omega
  -- the copy, the NUL behind it, and the end of the old block
  have hlen : (l.drop count).length = l.length - count := List.length_drop
  have htake : (l.drop count ++ [0] ++ tail).take (l.length - count) = l.drop count := by
    rw [List.append_assoc, ← hlen, List.take_left]
  obtain ⟨m₂, hcopy, hblock₂, hframe₂⟩ := Memory.exists_write (hframe p).bounded hsplit
    List.length_nil (l.drop count) (by rw [hlen, List.length_take]; omega)
  have hsplit₂ : m₂.block m.count = some (l.drop count ++ [x] ++ []) := by
    rw [hblock₂, List.nil_append, List.append_nil]
  obtain ⟨m₃, hnul, hblock₃, hframe₃⟩ :=
    Memory.exists_write hframe₂.bounded hsplit₂ hlen [0] rfl
  have hne : p ≠ m.count := (hm.lt hblock).ne
  have hp₃ : m₃.block p = some (l ++ [0] ++ tail) := by
    rw [hframe₃.others p (((hm.lt hblock).trans_le (hframe p).count_le).trans_le hframe₂.count_le)
      hne, hframe₂.others p ((hm.lt hblock).trans_le (hframe p).count_le) hne, hp]
  obtain ⟨m₄, hfree, hframe₄⟩ := Memory.exists_free hframe₃.bounded hp₃
  have hblock₄ : m₄.block m.count = some (l.drop count ++ [0] ++ []) :=
    (hframe₄.others m.count (hframe₃.bounded.lt hblock₃) hne.symm).trans hblock₃
  have hapart : (Source.block (some p) count).Apart m.count 0 (l.length - count) := fun heq =>
    absurd (Option.some.inj heq) hne
  rw [hmalloc]
  dsimp only
  rw [memcpy_eq hrest (by simp only [List.length_append]; omega) hapart, htake, hcopy]
  dsimp only [Option.bind_eq_bind, Option.bind_some]
  rw [hnul]
  dsimp only [Option.bind_eq_bind, Option.bind_some]
  rw [hfree]
  refine ⟨_, m₄, m.count, rfl, ⟨rfl, ?_, le_rfl, ?_, [], hblock₄, rfl⟩,
    (((hframe p).trans hframe₂).trans hframe₃).trans_old hframe₄⟩
  · rw [hlen]
  · exact lt_of_le_of_lt (Nat.succ_le_of_lt (Nat.sub_lt (by omega) (by omega))) (by omega)

end StyxWire.Buffers
