import StyxWire.Sbn.TextRoundTrip
import StyxWire.Sbn.Values

/-!
# Bignums as objects of the scripts

An object of a script has a string, or an internal representation, or both: a bignum is read from
the string when a command asks for one (`SetMpzFromAny`), and the string is printed from the bignum
when somebody asks for it (`UpdateStringOfMpz`). Both happen in place, to an object that others may
see.

What an object denotes is a number, or that it is none (`StyxWire.Script.Interp.Denotes`). It is the
same for both of its representations, and so it is not changed by any of this.

The bignum of each object is behind a pointer of its own (`StyxWire.Script.rep`). An object whose
type is another one has a string here. There is always enough memory, and what `ckalloc` gives holds
anything.
-/

namespace StyxWire.Script

open Sbn Text

/-! ### Objects -/

/-- `Tcl_Obj`. -/
structure TclObj where
  bytes : Option (List UInt8)
  /-- Whether `typePtr` is `tclMpzType`. -/
  isMpz : Bool

/-- What `ckalloc` gives. -/
structure Ckalloc where
  get : ℕ → List UInt8
  length_get : ∀ n, (get n).length = n

/-- The objects, and the bignums. -/
structure Interp where
  obj : ℕ → TclObj
  st : Store

/-- `res` and `r` of the commands. -/
def res : Ptr := .obj 0

/-- `t` of `SetMpzFromAny`. -/
def t : Ptr := .obj 1

/-- The internal representation of an object. -/
def rep (o : ℕ) : Ptr := .obj (o + 2)

/-- An object gets another value. -/
def Interp.setObj (I : Interp) (o : ℕ) (x : TclObj) : Interp :=
  { I with obj := Function.update I.obj o x }

/-- `Tcl_SetStringObj`. -/
def Interp.setString (I : Interp) (o : ℕ) (s : List UInt8) : Interp := I.setObj o ⟨some s, false⟩

/-- `UpdateStringOfMpz`. The length is that of the string in the buffer. -/
def updateStringOfMpz (mem : Ckalloc) (o : ℕ) (I : Interp) :
    Except Stop (List UInt8 × Interp) := do
  let len := mpzSizeinbase (I.st (rep o)) 10 + 2
  match ← mpzGetStr (mem.get len) 10 (rep o) I.st with
  | some str =>
    let s := str.takeWhile (· ≠ 0)
    return (s, I.setObj o ⟨some s, (I.obj o).isMpz⟩)
  | none => .error .fault

/-- `Tcl_GetStringFromObj`. -/
def getString (mem : Ckalloc) (o : ℕ) (I : Interp) : Except Stop (List UInt8 × Interp) :=
  match (I.obj o).bytes with
  | some s => .ok (s, I)
  | none => updateStringOfMpz mem o I

/-- What `SetMpzFromAny` says of a string that is no number. -/
def invalidBigNumber (s : List UInt8) : List UInt8 :=
  lit "Invalid big number: \"" ++ s ++ lit "\" must be a relative integer number"

/-- `Tcl_GetMpzFromObj`, with `SetMpzFromAny`: whether the object is a bignum then. The message
becomes the result of the interpreter. -/
def getMpzFromObj (result o : ℕ) (I : Interp) : Except Stop (Bool × Interp) :=
  if (I.obj o).isMpz then .ok (true, I)
  else
    let s := (I.obj o).bytes.getD []
    match mpzSetStr t s 0 (I.st.set t Mpz.init) with
    | .ok st => .ok (true, { I.setObj o ⟨some s, true⟩ with st := st.set (rep o) (st t) })
    | .error .inval => .ok (false, I.setString result (invalidBigNumber s))
    | .error e => .error e

/-- `Tcl_SetMpzObj`. -/
def setMpzObj (o : ℕ) (val : Ptr) (I : Interp) : Except Stop Interp := do
  let st ← mpzSet (rep o) val (I.st.set (rep o) Mpz.init)
  return { I.setObj o ⟨none, true⟩ with st := st }

/-- `Tcl_DuplicateObj`, with `DupMpzInternalRep`. -/
def duplicateObj (copy src : ℕ) (I : Interp) : Except Stop Interp := do
  let I' := I.setObj copy (I.obj src)
  if (I.obj src).isMpz then
    let st ← mpzSet (rep copy) (rep src) (I.st.set (rep copy) Mpz.init)
    return { I' with st := st }
  else return I'

/-! ### What an object denotes -/

/-- The number that a string is taken for: blanks and a sign, the prefix of a base, and digits with
blanks behind them. -/
def numberOf (s : List UInt8) : Option ℤ :=
  let (neg, u) := takeSign (s.dropWhile isSpace)
  let (b, digits) := guessBase 0 u
  if (trimTail digits).all fun x => digitVal x < b then
    let n := Nat.ofDigits b ((trimTail digits).reverse.map digitVal)
    some (if neg then -(n : ℤ) else n)
  else none

/-- There is no byte of more than seven bits. -/
def Ascii (s : List UInt8) : Prop := ∀ x ∈ s, ¬128 ≤ x

/-- **What the objects denote**: numbers, or that they are none. -/
structure Interp.Denotes (I : Interp) (env : ℕ → Option ℤ) : Prop where
  shape : ∀ n, (I.st (.obj n)).Shape
  text : ∀ o s, (I.obj o).bytes = some s → Ascii s ∧ numberOf s = env o
  number : ∀ o, (I.obj o).isMpz = true → ∃ v, env o = some v ∧ I.st.Holds (rep o) v
  any : ∀ o, (I.obj o).isMpz = false → (I.obj o).bytes ≠ none

/-! ### Strings -/

section Objects

variable {I : Interp} {env : ℕ → Option ℤ} {o : ℕ} {v : ℤ}

@[simp]
theorem Interp.setObj_obj (I : Interp) (o : ℕ) (x : TclObj) : (I.setObj o x).obj o = x := by
  simp [setObj]

theorem Interp.setObj_of_ne (I : Interp) {o o' : ℕ} (h : o' ≠ o) (x : TclObj) :
    (I.setObj o x).obj o' = I.obj o' := by
  simp [setObj, Function.update_of_ne h]

@[simp]
theorem Interp.setObj_st (I : Interp) (o : ℕ) (x : TclObj) : (I.setObj o x).st = I.st := rfl

/-- **One object is changed**: the bignums of the others are what they were. -/
theorem Interp.Denotes.setObj (h : I.Denotes env) {x : TclObj} {w : Option ℤ} {st' : Store}
    (hrest : ∀ o', o' ≠ o → (I.st (rep o')).Pads (st' (rep o')))
    (hshape : ∀ n, (st' (.obj n)).Shape)
    (htext : ∀ s, x.bytes = some s → Ascii s ∧ numberOf s = w)
    (hrep : x.isMpz = true → ∃ v, w = some v ∧ st'.Holds (rep o) v)
    (hany : x.isMpz = false → x.bytes ≠ none) :
    ({ I.setObj o x with st := st' } : Interp).Denotes (Function.update env o w) where
  shape := hshape
  text o' s hs := by
    by_cases heq : o' = o
    · subst heq
      rw [Function.update_self]
      exact htext s (by simpa using hs)
    · rw [Function.update_of_ne heq]
      exact h.text o' s (by rwa [← I.setObj_of_ne heq x])
  number o' ho' := by
    by_cases heq : o' = o
    · subst heq
      rw [Function.update_self]
      exact hrep (by simpa using ho')
    · rw [Function.update_of_ne heq]
      obtain ⟨v, hv, hholds⟩ := h.number o' (by rwa [← I.setObj_of_ne heq x])
      exact ⟨v, hv, hholds.pads (hrest o' heq)⟩
  any o' ho' := by
    by_cases heq : o' = o
    · subst heq
      exact (Interp.setObj_obj I o' x).symm ▸ hany (by simpa using ho')
    · exact (I.setObj_of_ne heq x).symm ▸ h.any o' (by rwa [← I.setObj_of_ne heq x])

theorem Interp.Denotes.setString (h : I.Denotes env) {s : List UInt8} (hs : Ascii s) :
    (I.setString o s).Denotes (Function.update env o (numberOf s)) :=
  h.setObj (fun _ _ => Mpz.Pads.refl _) h.shape (fun _ hs' => Option.some.inj hs' ▸ ⟨hs, rfl⟩)
    (fun hcon => absurd hcon Bool.false_ne_true) (fun _ => Option.some_ne_none s)

theorem init_shape (st : Store) (r : ℕ) : (st.set (.obj r) Mpz.init (.obj r)).Shape := by
  rw [Store.set_self]
  exact Mpz.init_shape

/-- The bignum of an object is what the object denotes. -/
theorem Interp.Denotes.holds (h : I.Denotes env) (ho : env o = some v)
    (hmpz : (I.obj o).isMpz = true) : I.st.Holds (rep o) v := by
  obtain ⟨w, hw, hholds⟩ := h.number o hmpz
  rw [ho, Option.some.injEq] at hw
  exact hw ▸ hholds

end Objects

end StyxWire.Script
