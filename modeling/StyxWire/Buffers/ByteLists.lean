import StyxWire.Buffers.Adbuf
import StyxWire.Lib.Events

/-!
# Buffers as lists of bytes

A run is a sequence of calls on any number of buffers. Beside it runs the machine of what the
buffers should hold (`StyxWire.Buffers.listStep`), which has no result if a call is none that a
program could make: of a buffer that is not initialised, or with data that are not there.

In every run whose calls are all allowed (`StyxWire.Buffers.Allowed`), each buffer holds its list
in a block of its own (`StyxWire.Buffers.Good`). The calls that are not allowed are those that use
one buffer twice: to append a buffer to itself when it has to grow, and to clone it into itself; and
those for which the size is too large for its type.
-/

namespace StyxWire.Buffers

open Blocks Function

variable {ι : Type}

/-! ### The calls -/

/-- The buffers that have been initialised, and the memory. -/
structure State (ι : Type) where
  bufs : ι → Option Adbuf
  mem : Memory UInt8

/-- No buffer yet. -/
def State.start : State ι := ⟨fun _ => none, Memory.empty⟩

/-- What is passed for data: bytes that are somewhere else, or a place in a buffer. -/
inductive Data (ι : Type)
  | outside (bytes : List UInt8)
  | inside (b : ι) (off : ℕ)

/-- A call. -/
inductive Call (ι : Type)
  | init (b : ι)
  | add (b : ι) (data : Data ι) (len : UInt64)
  | addchar (b : ι) (c : ℤ)
  | strcat (b : ι) (string : Data ι)
  | cat (a b : ι)
  | cut (b : ι) (count : UInt64)
  | ltrim (b : ι) (count : UInt64)
  | rtrim (b : ι) (count : UInt64)
  | reset (b : ι)
  | clone (src dst : ι)

/-- The pointer. -/
def Data.source (s : State ι) : Data ι → Option Source
  | outside bytes => some (.outside bytes)
  | inside b off => (s.bufs b).map fun a => .block a.buf off

variable [DecidableEq ι] (A : Allocator UInt8)

/-- The state where a buffer and the memory have changed. -/
def State.set (s : State ι) (b : ι) (a : Adbuf) (m : Memory UInt8) : State ι :=
  ⟨update s.bufs b (some a), m⟩

/-- A function on one buffer. -/
def State.on (s : State ι) (b : ι)
    (f : Memory UInt8 → Adbuf → Option (ℕ × Adbuf × Memory UInt8)) : Option (State ι) := do
  let (_, a, m) ← f s.mem (← s.bufs b)
  return s.set b a m

/-- `adbuf_init`, of a buffer with or without fields. -/
def State.init (s : State ι) (b : ι) : Option (ℕ × State ι) :=
  (adbufInit A s.mem ((s.bufs b).getD ⟨none, 0, 0⟩)).map fun (ret, a, m) =>
    (ret, s.set b a m)

/-- `adbuf_clone`. The two buffers may be the same. -/
def adbufClone (s : State ι) (src dst : ι) : Option (State ι) := do
  let a ← s.bufs src
  if a.buf = none then return s
  let (ret, s) ← s.init A dst
  if ret ≠ 0 then return s
  let a ← s.bufs src
  s.on dst fun m b => adbufAdd A m b (.block a.buf 0) a.used

/-- A call, as a step. It has no result if something outside of the blocks is read or written. -/
def step (s : State ι) : Call ι → Option (State ι)
  | .init b => (s.init A b).map (·.2)
  | .add b data len => do
    let data ← data.source s
    s.on b fun m a => adbufAdd A m a data len.toNat
  | .addchar b c => s.on b fun m a => adbufAddchar A m a c
  | .strcat b string => do
    let string ← string.source s
    s.on b fun m a => adbufStrcat A m a string
  | .cat a b => do
    let other ← s.bufs b
    s.on a fun m a => adbufCat A m a other
  | .cut b count => s.on b fun m a => adbufCut A m a count.toNat
  | .ltrim b count => s.on b fun m a => adbufLtrim A m a count.toNat
  | .rtrim b count => s.on b fun m a => adbufRtrim A m a count.toNat
  | .reset b => s.on b fun m a => adbufReset A m a
  | .clone src dst => adbufClone A s src dst

/-! ### The lists -/

/-- The bytes that are passed: those of a buffer end with the NUL. -/
def Data.bytes (l : ι → Option (List UInt8)) : Data ι → Option (List UInt8)
  | outside bytes => some bytes
  | inside b off => (l b).bind fun bytes =>
    if off ≤ bytes.length then some (bytes.drop off ++ [0]) else none

/-- The list of a buffer becomes another one. -/
def change (l : ι → Option (List UInt8)) (b : ι) (f : List UInt8 → List UInt8) :
    Option (ι → Option (List UInt8)) :=
  (l b).map fun bytes => update l b (some (f bytes))

/-- What becomes of the lists. -/
def listStep (l : ι → Option (List UInt8)) : Call ι → Option (ι → Option (List UInt8))
  | .init b => some (update l b (some []))
  | .add b data len => (data.bytes l).bind fun bytes =>
    if len.toNat ≤ bytes.length then change l b (· ++ bytes.take len.toNat) else none
  | .addchar b c => change l b (· ++ [UInt8.ofInt c])
  | .strcat b string => (string.bytes l).bind fun bytes =>
    if 0 ∈ bytes then change l b (· ++ bytes.takeWhile (· ≠ 0)) else none
  | .cat a b => (l b).bind fun bytes => change l a (· ++ bytes)
  | .cut b count => change l b (·.take count.toNat)
  | .ltrim b count => change l b (·.drop count.toNat)
  | .rtrim b count => change l b fun bytes =>
    if count.toNat ≤ bytes.length then bytes.take (bytes.length - count.toNat) else bytes
  | .reset b => change l b fun _ => []
  | .clone src dst => (l src).map fun bytes => update l dst (some bytes)

/-- The used bytes of the buffers. -/
def State.lists (s : State ι) (b : ι) : Option (List UInt8) := do
  let a ← s.bufs b
  return (← s.mem.block (← a.buf)).take a.used

/-- Where the data are, if they are in this buffer. -/
def Data.own (b : ι) : Data ι → Option ℕ
  | outside _ => none
  | inside b' off => if b' = b then some off else none

/-- These bytes may be appended to the buffer: there are none, or see `CanAdd`. -/
def State.CanAdd (s : State ι) (b : ι) (own : Option ℕ) (len : ℕ) : Prop :=
  ∀ a, s.bufs b = some a → len = 0 ∨ Buffers.CanAdd a own len

/-- The calls that are right. -/
def Allowed (s : State ι) : Call ι → Prop
  | .add b data len => s.CanAdd b (data.own b) len.toNat
  | .addchar b _ => s.CanAdd b none 1
  | .strcat b string => ∀ bytes, string.bytes s.lists = some bytes →
    s.CanAdd b (string.own b) (bytes.takeWhile (· ≠ 0)).length
  | .cat a b => ∀ other, s.bufs b = some other →
    s.CanAdd a (if b = a then some 0 else none) other.used
  | .clone src dst => ∀ a, s.bufs src = some a →
    a.used = 0 ∨ src ≠ dst ∧ Buffers.CanAdd ⟨none, 1, 1⟩ none a.used
  | _ => True

/-! ### The invariant -/

/-- Each buffer holds its list, in a block of its own. -/
structure Good (s : State ι) (l : ι → Option (List UInt8)) : Prop where
  bounded : s.mem.Bounded
  holds : ∀ b bytes, l b = some bytes → ∃ a p, s.bufs b = some a ∧ Holds s.mem a p bytes
  known : ∀ b a, s.bufs b = some a → ∃ bytes, l b = some bytes
  apart : ∀ b b' a a', b ≠ b' → s.bufs b = some a → s.bufs b' = some a' → a.buf ≠ a'.buf

variable {A} {s : State ι} {l : ι → Option (List UInt8)}

@[simp]
theorem State.set_self (s : State ι) (b : ι) (a : Adbuf) (m : Memory UInt8) :
    (s.set b a m).bufs b = some a := update_self _ _ _

theorem State.set_of_ne (s : State ι) {b b' : ι} (h : b' ≠ b) (a : Adbuf) (m : Memory UInt8) :
    (s.set b a m).bufs b' = s.bufs b' := update_of_ne h _ _

omit [DecidableEq ι] in
theorem good_start : Good (State.start : State ι) fun _ => none :=
  ⟨Memory.bounded_empty, nofun, nofun, nofun⟩

omit [DecidableEq ι] in
theorem Good.lists (h : Good s l) : s.lists = l := by
  funext b
  rw [State.lists]
  cases hb : s.bufs b with
  | none =>
    cases hl : l b with
    | none => rfl
    | some bytes =>
      obtain ⟨a, p, ha, -⟩ := h.holds b bytes hl
      rw [hb] at ha
      cases ha
  | some a =>
    obtain ⟨bytes, hl⟩ := h.known b a hb
    obtain ⟨a', p, ha, hholds⟩ := h.holds b bytes hl
    rw [hb, Option.some.injEq] at ha
    subst ha
    obtain ⟨tail, hblock, -⟩ := hholds.block
    simp only [Option.bind_eq_bind, Option.bind_some, hholds.buf, hblock, Option.pure_def,
      hholds.used, hl, List.append_assoc, List.take_left]

/-- One buffer has changed, and its block. -/
theorem Good.set (h : Good s l) {b : ι} {p p' : ℕ} {a : Adbuf} {m : Memory UInt8}
    {bytes : List UInt8} (hframe : s.mem.Frame p m p') (hholds : Holds m a p' bytes)
    (hp : ∀ b' a', b' ≠ b → s.bufs b' = some a' → a'.buf ≠ some p) :
    Good (s.set b a m) (update l b (some bytes)) := by
  -- the block of another buffer is neither the old one nor the new one
  have hother : ∀ b' a' q bytes', b' ≠ b → s.bufs b' = some a' → Holds s.mem a' q bytes' →
      Holds m a' q bytes' ∧ q ≠ p' := by
    intro b' a' q bytes' hne hb' hholds'
    obtain ⟨tail, hblock, htail⟩ := hholds'.block
    have hlt := h.bounded.lt hblock
    have hqp : q ≠ p := by
      rintro rfl
      exact hp b' a' hne hb' hholds'.buf
    refine ⟨⟨hholds'.buf, hholds'.size, hholds'.left, hholds'.lt, tail, ?_, htail⟩, ?_⟩
    · rw [hframe.others q hlt hqp, hblock]
    · rintro rfl
      rcases hframe.here with heq | hnew
      · exact hqp heq
      · omega
  refine ⟨hframe.bounded, fun b' bytes' hl => ?_, fun b' a' hb' => ?_,
    fun b₁ b₂ a₁ a₂ hne h₁ h₂ => ?_⟩
  · by_cases hne : b' = b
    · subst hne
      rw [update_self, Option.some.injEq] at hl
      exact ⟨a, p', s.set_self _ _ _, hl ▸ hholds⟩
    · rw [update_of_ne hne] at hl
      obtain ⟨a', q, hb', hholds'⟩ := h.holds b' bytes' hl
      exact ⟨a', q, (s.set_of_ne hne _ _).trans hb', (hother b' a' q bytes' hne hb' hholds').1⟩
  · by_cases hne : b' = b
    · exact ⟨bytes, by rw [hne, update_self]⟩
    · rw [s.set_of_ne hne] at hb'
      rw [update_of_ne hne]
      exact h.known b' a' hb'
  · have hblock : ∀ b' a', b' ≠ b → s.bufs b' = some a' → a'.buf ≠ a.buf := by
      intro b' a' hne' hb'
      obtain ⟨bytes', hl⟩ := h.known b' a' hb'
      obtain ⟨a'', q, hb'', hholds'⟩ := h.holds b' bytes' hl
      obtain rfl := Option.some.inj (hb'.symm.trans hb'')
      rw [hholds'.buf, hholds.buf]
      exact fun heq => (hother b' a' q bytes' hne' hb' hholds').2 (Option.some.inj heq)
    by_cases hb₁ : b₁ = b
    · subst hb₁
      rw [s.set_self, Option.some.injEq] at h₁
      rw [s.set_of_ne hne.symm] at h₂
      exact h₁ ▸ (hblock b₂ a₂ hne.symm h₂).symm
    · rw [s.set_of_ne hb₁] at h₁
      by_cases hb₂ : b₂ = b
      · subst hb₂
        rw [s.set_self, Option.some.injEq] at h₂
        exact h₂ ▸ hblock b₁ a₁ hne h₁
      · rw [s.set_of_ne hb₂] at h₂
        exact h.apart b₁ b₂ a₁ a₂ hne h₁ h₂

/-- The function matters at the memory alone. -/
theorem State.on_congr {b : ι} {f g : Memory UInt8 → Adbuf → Option (ℕ × Adbuf × Memory UInt8)}
    (h : ∀ a, f s.mem a = g s.mem a) : s.on b f = s.on b g := by
  rw [State.on, State.on]
  cases s.bufs b with
  | none => rfl
  | some a => rw [Option.bind_eq_bind, Option.bind_eq_bind, Option.bind_some, Option.bind_some, h a]

/-- A function on one buffer, which becomes what its list becomes. -/
theorem Good.on (h : Good s l) {b : ι} {f : List UInt8 → List UInt8}
    {l' : ι → Option (List UInt8)}
    (g : Memory UInt8 → Adbuf → Option (ℕ × Adbuf × Memory UInt8)) (hchange : change l b f = some l')
    (hg : ∀ a p bytes, s.bufs b = some a → l b = some bytes → Holds s.mem a p bytes →
      Becomes s.mem p (f bytes) (g s.mem a)) : ∃ s', s.on b g = some s' ∧ Good s' l' := by
  obtain ⟨bytes, hl, rfl⟩ := Option.map_eq_some_iff.mp hchange
  obtain ⟨a, p, hb, hholds⟩ := h.holds b bytes hl
  obtain ⟨a', m', p', hr, hholds', hframe⟩ := hg a p bytes hb hl hholds
  refine ⟨s.set b a' m', ?_, h.set hframe hholds' fun b' x hne hb' heq => ?_⟩
  · rw [State.on, hb]
    simp only [Option.bind_eq_bind, Option.bind_some, hr]
    rfl
  · exact h.apart b' b x a hne hb' hb (heq.trans hholds.buf.symm)

/-- `adbuf_init`. -/
theorem Good.init (hmem : ∀ k n, A.fails k n = false) (h : Good s l) (b : ι) :
    ∃ a m, s.init A b = some (0, s.set b a m) ∧ a.size = 1 ∧ a.left = 1 ∧
      Good (s.set b a m) (update l b (some [])) := by
  obtain ⟨a, m, p, hr, hsize, hleft, hholds, hframe⟩ :=
    init_becomes hmem h.bounded ((s.bufs b).getD ⟨none, 0, 0⟩) s.mem.count
  refine ⟨a, m, by rw [State.init, hr]; rfl, hsize, hleft,
    h.set hframe hholds fun b' a' _ hb' heq => ?_⟩
  -- the block is new
  obtain ⟨bytes', hl⟩ := h.known b' a' hb'
  obtain ⟨a'', q, hb'', hholds'⟩ := h.holds b' bytes' hl
  obtain rfl := Option.some.inj (hb'.symm.trans hb'')
  obtain ⟨tail, hblock, -⟩ := hholds'.block
  obtain rfl := Option.some.inj (hholds'.buf.symm.trans heq)
  exact absurd (h.bounded.lt hblock) (lt_irrefl _)

/-! ### The steps -/

/-- What the data are. -/
theorem Good.source (h : Good s l) {data : Data ι} {bytes : List UInt8}
    (hdata : data.bytes l = some bytes) :
    ∃ source tail, data.source s = some source ∧ source.rest s.mem = some (bytes ++ tail) ∧
      ∀ {b : ι} a p, s.bufs b = some a → a.buf = some p → source.own p = data.own b := by
  cases data with
  | outside bytes' =>
    obtain rfl := Option.some.inj hdata
    exact ⟨_, [], rfl, congrArg some (List.append_nil _).symm, fun _ _ _ _ => rfl⟩
  | inside b' off =>
    obtain ⟨bytes', hl, hdata⟩ := Option.bind_eq_some_iff.mp hdata
    split_ifs at hdata with hoff
    obtain rfl := Option.some.inj hdata
    obtain ⟨a', q, hb', hholds⟩ := h.holds b' bytes' hl
    obtain ⟨tail, hblock, -⟩ := hholds.block
    refine ⟨.block a'.buf off, tail, by rw [Data.source, hb']; rfl, ?_, fun {b} a p hb ha => ?_⟩
    · rw [Source.rest, hholds.buf, Option.bind_some, Memory.rest, hblock, Option.bind_some, if_pos,
        List.append_assoc, List.drop_append_of_le_length hoff, List.append_assoc]
      simp only [List.length_append]
      omega
    · rw [Source.own, Data.own]
      by_cases hsame : b' = b
      · subst hsame
        obtain rfl := Option.some.inj (hb.symm.trans hb')
        rw [if_pos ha, if_pos rfl]
      · rw [if_neg hsame, if_neg]
        exact fun heq => h.apart b' b a' a hsame hb' hb (heq.trans ha.symm)

/-- The first NUL. -/
theorem findIdx_append {bytes : List UInt8} (hnul : 0 ∈ bytes) (tail : List UInt8) :
    (bytes ++ tail).findIdx? (· = 0) = some (bytes.takeWhile (· ≠ 0)).length := by
  induction bytes with
  | nil => exact absurd hnul List.not_mem_nil
  | cons x bytes ih =>
    rw [List.cons_append, List.findIdx?_cons]
    by_cases hx : x = 0
    · simp [hx]
    · simp [hx, ih ((List.mem_cons.mp hnul).resolve_left (Ne.symm hx))]

/-- The length of a string, and the string. -/
theorem strlen_eq {m : Memory UInt8} {string : Source} {bytes tail : List UInt8}
    (hrest : string.rest m = some (bytes ++ tail)) (hnul : 0 ∈ bytes) :
    string.strlen m = some (bytes.takeWhile (· ≠ 0)).length ∧
      (bytes.takeWhile (· ≠ 0)).length ≤ bytes.length ∧
      bytes.take (bytes.takeWhile (· ≠ 0)).length = bytes.takeWhile (· ≠ 0) := by
  have hbefore := List.takeWhile_prefix (l := bytes) (fun x => decide (x ≠ 0))
  refine ⟨?_, hbefore.length_le, (List.prefix_iff_eq_take.mp hbefore).symm⟩
  rw [Source.strlen, hrest, Option.bind_some, findIdx_append hnul]

/-- To append some data. -/
theorem Good.add (hmem : ∀ k n, A.fails k n = false) (h : Good s l) {b : ι} {source : Source}
    {own : Option ℕ} {bytes tail : List UInt8} {len : ℕ} {l' : ι → Option (List UInt8)}
    (hrest : source.rest s.mem = some (bytes ++ tail))
    (hown : ∀ a p, s.bufs b = some a → a.buf = some p → source.own p = own)
    (hlen : len ≤ bytes.length) (hallowed : s.CanAdd b own len)
    (hchange : change l b (· ++ bytes.take len) = some l') :
    ∃ s', (s.on b fun m a => adbufAdd A m a source len) = some s' ∧ Good s' l' := by
  refine h.on _ hchange fun a p bytes' hb hl hholds => ?_
  have hadd := add_becomes hmem h.bounded hholds hrest
    (hlen.trans (List.length_append ▸ Nat.le_add_right _ _))
    (hown a p hb hholds.buf ▸ hallowed a hb)
  rwa [List.take_append_of_le_length hlen] at hadd

/-- To append a buffer. -/
theorem Good.cat (hmem : ∀ k n, A.fails k n = false) (h : Good s l) {a b : ι}
    {l' : ι → Option (List UInt8)} (hlist : listStep l (.cat a b) = some l')
    (hallowed : Allowed s (.cat a b)) : ∃ s', Buffers.step A s (.cat a b) = some s' ∧ Good s' l' := by
  obtain ⟨bytes, hl, hlist⟩ := Option.bind_eq_some_iff.mp hlist
  obtain ⟨other, q, hb, hholds⟩ := h.holds b bytes hl
  have hdata : (Data.inside b 0).bytes l = some (bytes ++ [0]) := by
    rw [Data.bytes, hl]
    rfl
  obtain ⟨source, tail, hsource, hrest, hown⟩ := h.source hdata
  rw [Data.source, hb] at hsource
  obtain rfl := Option.some.inj hsource
  have hallowed' := hallowed other hb
  rw [hholds.used] at hallowed'
  have htake : (bytes ++ [0]).take bytes.length = bytes := List.take_left
  obtain ⟨s', hon, hgood⟩ := h.add hmem hrest hown (by simp) hallowed' (htake.symm ▸ hlist)
  refine ⟨s', ?_, hgood⟩
  rw [Buffers.step, hb, ← hon, ← hholds.used]
  rfl

/-- **A call that is allowed** makes of the buffers what it should. -/
theorem Good.step (hmem : ∀ k n, A.fails k n = false) (h : Good s l) {c : Call ι}
    {l' : ι → Option (List UInt8)} (hlist : listStep l c = some l') (hallowed : Allowed s c) :
    ∃ s', step A s c = some s' ∧ Good s' l' := by
  cases c with
  | init b =>
    obtain rfl := Option.some.inj hlist
    obtain ⟨a, m, hinit, -, -, hgood⟩ := h.init hmem b
    exact ⟨_, by rw [Buffers.step, hinit]; rfl, hgood⟩
  | add b data len =>
    obtain ⟨bytes, hdata, hlist⟩ := Option.bind_eq_some_iff.mp hlist
    split_ifs at hlist with hlen
    obtain ⟨source, tail, hsource, hrest, hown⟩ := h.source hdata
    obtain ⟨s', hon, hgood⟩ := h.add hmem hrest hown hlen hallowed hlist
    exact ⟨s', by rw [Buffers.step, hsource]; exact hon, hgood⟩
  | addchar b c =>
    refine h.on (adbufAddchar A · · c) hlist fun a p bytes hb hl hholds => ?_
    rw [addchar_eq hholds]
    have hrest : (Source.outside [UInt8.ofInt c]).rest s.mem = some [UInt8.ofInt c] := rfl
    exact add_becomes hmem h.bounded hholds hrest le_rfl (hallowed a hb)
  | strcat b string =>
    obtain ⟨bytes, hdata, hlist⟩ := Option.bind_eq_some_iff.mp hlist
    split_ifs at hlist with hnul
    obtain ⟨source, tail, hsource, hrest, hown⟩ := h.source hdata
    obtain ⟨hstrlen, hlen, htake⟩ := strlen_eq hrest hnul
    rw [← htake] at hlist
    obtain ⟨s', hon, hgood⟩ := h.add hmem hrest hown hlen (hallowed bytes (h.lists ▸ hdata)) hlist
    have hcall : (s.on b fun m a => adbufStrcat A m a source) = s.on b fun m a =>
        adbufAdd A m a source (bytes.takeWhile (· ≠ 0)).length :=
      State.on_congr fun a => by
        rw [adbufStrcat, hstrlen]
        rfl
    refine ⟨s', ?_, hgood⟩
    rw [Buffers.step, hsource]
    exact hcall.trans hon
  | cat a b => exact h.cat hmem hlist hallowed
  | cut b count =>
    exact h.on (adbufCut A · · count.toNat) hlist fun a p bytes _ _ hholds =>
      cut_becomes hmem h.bounded hholds count.toNat
  | ltrim b count =>
    exact h.on (adbufLtrim A · · count.toNat) hlist fun a p bytes _ _ hholds =>
      ltrim_becomes hmem h.bounded hholds count.toNat
  | rtrim b count =>
    exact h.on (adbufRtrim A · · count.toNat) hlist fun a p bytes _ _ hholds =>
      rtrim_becomes hmem h.bounded hholds count.toNat_lt
  | reset b =>
    exact h.on (adbufReset A · ·) hlist fun a p bytes _ _ hholds =>
      reset_becomes hmem h.bounded hholds
  | clone src dst =>
    obtain ⟨bytes, hl, rfl⟩ := Option.map_eq_some_iff.mp hlist
    obtain ⟨a, p, hb, hholds⟩ := h.holds src bytes hl
    obtain ⟨d, m, hinit, hsize, hleft, hgood⟩ := h.init hmem dst
    have hused := hholds.used
    -- what is left to do is to append the source to the new buffer
    have hsrc : update l dst (some []) src = some bytes := by
      by_cases hsame : src = dst
      · have hzero : bytes.length = 0 := by
          rw [← hused]
          exact (hallowed a hb).resolve_right fun h => h.1 hsame
        rw [hsame, update_self, List.length_eq_zero_iff.mp hzero]
      · rw [update_of_ne hsame, hl]
    have hcat : listStep (update l dst (some [])) (.cat dst src) =
        some (update l dst (some bytes)) := by
      rw [listStep, hsrc, Option.bind_some, change, update_self, Option.map_some, update_idem,
        List.nil_append]
    have hallowed' : Allowed (s.set dst d m) (.cat dst src) := by
      intro other hother d' hd'
      rw [State.set_self, Option.some.injEq] at hd'
      subst hd'
      by_cases hsame : src = dst
      · have hzero := (hallowed a hb).resolve_right fun h => h.1 hsame
        obtain ⟨d', p', hd', hholds'⟩ := hgood.holds src bytes hsrc
        obtain rfl := Option.some.inj (hd'.symm.trans hother)
        exact Or.inl (by rw [hholds'.used, ← hused, hzero])
      · rw [State.set_of_ne s hsame, hb, Option.some.injEq] at hother
        subst hother
        rw [if_neg hsame]
        refine (hallowed a hb).imp_right fun h => ⟨fun hgrows => ?_, nofun⟩
        rw [hleft] at hgrows
        rw [hsize]
        exact h.2.grows hgrows
    obtain ⟨s', hs', hgood'⟩ := hgood.cat hmem hcat hallowed'
    refine ⟨s', ?_, hgood'⟩
    rw [Buffers.step, adbufClone, hb]
    simp only [Option.bind_eq_bind, Option.bind_some, hholds.buf, reduceCtorEq, if_false, hinit]
    exact hs'

/-! ### The runs -/

/-- A call that a program can make. -/
def Valid (s : State ι) (c : Call ι) : Prop := (listStep s.lists c).isSome

/-- The buffer has a block of its size, with its bytes, a NUL behind them, and room for it. -/
def Represents (s : State ι) (b : ι) (bytes : List UInt8) : Prop :=
  ∃ a p block, s.bufs b = some a ∧ a.buf = some p ∧ s.mem.block p = some block ∧
    block.length = a.size ∧ 1 ≤ a.left ∧ a.left ≤ a.size ∧ block[a.used]? = some 0 ∧
    block.take a.used = bytes

omit [DecidableEq ι] in
theorem Good.represents (h : Good s l) {b : ι} {bytes : List UInt8} (hl : l b = some bytes) :
    Represents s b bytes := by
  obtain ⟨a, p, hb, hholds⟩ := h.holds b bytes hl
  obtain ⟨tail, hblock, htail⟩ := hholds.block
  have hsize := hholds.size
  refine ⟨a, p, _, hb, hholds.buf, hblock, ?_, hholds.left, by omega, ?_, ?_⟩
  · simp only [List.length_append, List.length_singleton]
    omega
  · rw [hholds.used, List.append_assoc, List.getElem?_append_right le_rfl, Nat.sub_self]
    rfl
  · rw [hholds.used, List.append_assoc, List.take_left]

/-- **Buffers are lists of bytes in every run whose calls are allowed**: no call reads or writes
outside of the blocks, and in every state that is reached, each buffer represents its list. -/
theorem buffers_exact (hmem : ∀ k n, A.fails k n = false) {calls : List (Call ι)}
    (hmeets : Events.Meets (step A) (fun s c => Valid s c ∧ Allowed s c) State.start calls)
    {calls' : List (Call ι)} (hbefore : calls' <+: calls) :
    ∃ s l, Events.run (step A) State.start calls' = some s ∧
      Events.run listStep (fun _ => none) calls' = some l ∧
      ∀ b, (l b).elim (s.bufs b = none) (Represents s b) := by
  have hstep : ∀ (h : List (Call ι)) s c,
      (∃ l, Events.run listStep (fun _ => none) h = some l ∧ Good s l) →
        Valid s c ∧ Allowed s c → ∃ s', step A s c = some s' ∧
          ∃ l, Events.run listStep (fun _ => none) (h ++ [c]) = some l ∧ Good s' l := by
    rintro h s c ⟨l, hrun, hgood⟩ ⟨hvalid, hallowed⟩
    rw [Valid, hgood.lists] at hvalid
    obtain ⟨l', hl'⟩ := Option.isSome_iff_exists.mp hvalid
    obtain ⟨s', hs', hgood'⟩ := hgood.step hmem hl' hallowed
    refine ⟨s', hs', l', ?_, hgood'⟩
    rw [Events.run_append, hrun, Option.bind_some, Events.run_cons, hl']
    rfl
  obtain ⟨s, hs, l, hl, hgood⟩ := Events.run_invariant (h := []) hstep
    ⟨fun _ => none, rfl, good_start⟩ (hmeets.of_isPrefix hbefore)
  refine ⟨s, l, hs, hl, fun b => ?_⟩
  cases hb : l b with
  | some bytes => exact hgood.represents hb
  | none =>
    by_contra hsome
    obtain ⟨a, ha⟩ := Option.ne_none_iff_exists'.mp hsome
    obtain ⟨bytes, hbytes⟩ := hgood.known b a ha
    rw [hb] at hbytes
    cases hbytes

/-- An allocation that never fails, and gives NULs. -/
def zeros : Allocator UInt8 := ⟨fun _ _ => false, fun _ _ => 0⟩

/-- A byte is appended, and there is another buffer. -/
theorem buffers_exact_three :
    ∃ s l, Events.run (step zeros) (State.start : State (Fin 2))
        [.init 0, .addchar 0 97, .init 1] = some s ∧
      Events.run listStep (fun _ => none) [.init 0, .addchar 0 97, .init 1] = some l ∧
      ∀ b, (l b).elim (s.bufs b = none) (Represents s b) := by
  have hmeets : Events.Meets (step zeros) (fun s c => Valid s c ∧ Allowed s c)
      (State.start : State (Fin 2)) [.init 0, .addchar 0 97, .init 1] := by
    refine ⟨⟨rfl, trivial⟩, fun s hs => ?_⟩
    obtain rfl := Option.some.inj hs
    refine ⟨⟨rfl, fun a ha => ?_⟩, fun s hs => ⟨⟨rfl, trivial⟩, fun _ _ => trivial⟩⟩
    obtain rfl := Option.some.inj ha
    exact Or.inr ⟨fun _ => ⟨rfl, by decide⟩, nofun⟩
  exact buffers_exact (fun _ _ => rfl) hmeets (List.prefix_refl _)

/-- A buffer that has no room is appended to itself: it reads what it has freed. And a clone into
itself loses what there is. -/
theorem buffers_inexact :
    (Events.run (step zeros) (State.start : State (Fin 2))
        [.init 0, .add 0 (.outside [97, 98]) 2, .cut 0 1, .cat 0 0]).isNone ∧
      ((Events.run listStep (fun _ => none)
        [.init 0, .add 0 (.outside [97, 98]) 2, .cut 0 1, .cat 0 0]).bind
          fun l : Fin 2 → Option (List UInt8) => l 0) = some [97, 97] ∧
      ((Events.run (step zeros) (State.start : State (Fin 2))
        [.init 0, .add 0 (.outside [97, 98]) 2, .clone 0 0]).bind fun s => s.lists 0) = some [] ∧
      ((Events.run listStep (fun _ => none)
        [.init 0, .add 0 (.outside [97, 98]) 2, .clone 0 0]).bind
          fun l : Fin 2 → Option (List UInt8) => l 0) = some [97, 98] := by
  decide +kernel

end StyxWire.Buffers
