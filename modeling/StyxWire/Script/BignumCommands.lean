import StyxWire.Lib.Events
import StyxWire.Script.MpzObjects

/-!
# The commands for bignums

The commands `+`, `-`, `*`, `/`, `%`, the comparisons and `**` of the scripts. Each of them reads
its arguments as numbers, one after the other, and sets the result of the interpreter to a number,
or to a message.

A script is a sequence of these commands on objects, in which objects get strings, are copied, and
are asked for their strings at any time. It computes like the integers
(`StyxWire.Script.session_computes`): whatever was converted to what in between, an object has the
string of the number that a calculation with integers gives, and a command fails exactly if this
calculation has no value. The conditions on the way are those of the operations of the library
(`StyxWire.Script.Command.Kept`).

The number of the arguments of a command is right here.
-/

namespace StyxWire.Script

open Sbn Text

/-! ### The commands -/

/-- `if (Tcl_GetMpzFromObj(...) != TCL_OK)`, with what is done if it is a number. -/
def withNumber (result o : ℕ) (k : Interp → Except Stop (Bool × Interp)) (I : Interp) :
    Except Stop (Bool × Interp) := do
  let (isNumber, I) ← getMpzFromObj result o I
  if isNumber then k I else return (false, I)

/-- A call of the library, with the message if it fails, and what is done if it does not. -/
def withCall (result : ℕ) (message : List UInt8) (call : Except Stop Store)
    (k : Interp → Except Stop (Bool × Interp)) (I : Interp) : Except Stop (Bool × Interp) :=
  match call with
  | .ok st => k { I with st := st }
  | .error .inval => .ok (false, I.setString result message)
  | .error e => .error e

/-- `Tcl_SetMpzObj(result, res)` and `TCL_OK`. -/
def returnRes (result : ℕ) (I : Interp) : Except Stop (Bool × Interp) := do
  let I ← setMpzObj result res I
  return (true, I)

/-- The commands of `BigBasicObjCmd`. -/
inductive BigOp
  | add
  | sub
  | mul
  | div
  | mod
  deriving DecidableEq

/-- What is done for each argument. -/
def BigOp.mpz : BigOp → Ptr → Ptr → Ptr → Store → Except Stop Store
  | .add => mpzAdd
  | .sub => mpzSub
  | .mul => mpzMul
  | .div => mpzTdivQ
  | .mod => mpzMod

/-- The result starts with the first argument. -/
def BigOp.first : BigOp → Bool
  | .add => false
  | .sub => true
  | .mul => false
  | .div => true
  | .mod => true

def outOfMemory : List UInt8 := lit "Out of memory doing multiprecision math"

/-- The loop of `BigBasicObjCmd`, and what is behind it. -/
def bigLoop (op : BigOp) (result : ℕ) : List ℕ → Interp → Except Stop (Bool × Interp)
  | [], I => returnRes result I
  | o :: os, I => withNumber result o
    (fun I => withCall result outOfMemory (op.mpz res res (rep o) I.st) (bigLoop op result os) I) I

/-- What `res` is at first. -/
def bigStart (op : BigOp) (st : Store) : Except Stop Store := do
  let st ← mpzSetzero res (st.set res Mpz.init)
  if op = .mul ∨ op = .div then mpzSetUi res 1 st else return st

/-- What `res` is behind the first argument; a single argument of `-` is negated. -/
def bigFirst (op : BigOp) (o : ℕ) (os : List ℕ) (st : Store) : Except Stop Store := do
  let st ← mpzSet res (rep o) st
  return if op = .sub ∧ os = [] then st.setSign res !(st res).s else st

/-- `BigBasicObjCmd`. -/
def bigBasic (op : BigOp) (result : ℕ) (args : List ℕ) (I : Interp) :
    Except Stop (Bool × Interp) := do
  let st ← bigStart op I.st
  match args with
  | o :: os =>
    if op.first then
      withNumber result o (fun I => withCall result outOfMemory (bigFirst op o os I.st)
        (bigLoop op result os) I) { I with st := st }
    else bigLoop op result (o :: os) { I with st := st }
  | [] => bigLoop op result [] { I with st := st }

/-- The commands of `BigCmpObjCmd`. -/
inductive CmpOp
  | gt
  | ge
  | lt
  | le
  | eq
  | ne

/-- Their names. -/
def CmpOp.cmd : CmpOp → List UInt8
  | .gt => lit ">"
  | .ge => lit ">="
  | .lt => lit "<"
  | .le => lit "<="
  | .eq => lit "=="
  | .ne => lit "!="

/-- `Tcl_SetIntObj`, for a truth value. -/
def Interp.setBool (I : Interp) (o : ℕ) (b : Bool) : Interp :=
  I.setString o (if b then lit "1" else lit "0")

/-- `BigCmpObjCmd`. -/
def bigCmpCmd (op : CmpOp) (result a b : ℕ) : Interp → Except Stop (Bool × Interp) :=
  withNumber result a (withNumber result b fun I => do
    let c ← bigCmp op.cmd (I.st (rep a)) (I.st (rep b))
    return (true, I.setBool result c))

def negativeExponent : List UInt8 := lit "Negative exponent"

/-- `BigPowObjCmd`, without a modulus. -/
def bigPow (result b e : ℕ) : Interp → Except Stop (Bool × Interp) :=
  withNumber result b (withNumber result e fun I => withCall result negativeExponent
    (mpzPow res (rep b) (rep e) (I.st.set res Mpz.init)) (returnRes result) I)

/-- `BigPowObjCmd`, with a modulus. -/
def bigPowm (result b e m : ℕ) : Interp → Except Stop (Bool × Interp) :=
  withNumber result b (withNumber result e (withNumber result m fun I =>
    withCall result negativeExponent
      (mpzPowm res (rep b) (rep e) (rep m) (I.st.set res Mpz.init)) (returnRes result) I))

/-! ### The integers -/

/-- What is computed for each argument. -/
def BigOp.eval : BigOp → ℤ → ℤ → Option ℤ
  | .add, x, y => some (x + y)
  | .sub, x, y => some (x - y)
  | .mul, x, y => some (x * y)
  | .div, x, y => if y = 0 then none else some (x.tdiv y)
  | .mod, x, y => if y = 0 then none else some (x % y)

/-- The arguments from the left to the right. -/
def BigOp.fold (op : BigOp) : ℤ → List (Option ℤ) → Option ℤ
  | x, [] => some x
  | x, a :: as => a.bind fun y => (op.eval x y).bind fun z => op.fold z as

/-- The value without arguments. -/
def BigOp.unit (op : BigOp) : ℤ := if op = .mul ∨ op = .div then 1 else 0

/-- **The value of a command.** -/
def BigOp.value (op : BigOp) : List (Option ℤ) → Option ℤ
  | [] => some op.unit
  | a :: as =>
    if op.first then a.bind fun x => if op = .sub ∧ as = [] then some (-x) else op.fold x as
    else op.fold op.unit (a :: as)

def CmpOp.holds : CmpOp → ℤ → ℤ → Bool
  | .gt, x, y => y < x
  | .ge, x, y => y ≤ x
  | .lt, x, y => x < y
  | .le, x, y => x ≤ y
  | .eq, x, y => x = y
  | .ne, x, y => x ≠ y

/-- What a comparison gives. -/
def CmpOp.value (op : CmpOp) (a b : Option ℤ) : Option ℤ :=
  a.bind fun x => b.bind fun y => some (if op.holds x y then 1 else 0)

/-- A power, of a number and an exponent that is not negative. -/
def powValue (b e : Option ℤ) : Option ℤ :=
  b.bind fun x => e.bind fun y => if y < 0 then none else some (x ^ y.toNat)

/-- Its residue. -/
def powmValue (b e m : Option ℤ) : Option ℤ :=
  b.bind fun x => e.bind fun y => m.bind fun u => if y < 0 then none else some (x ^ y.toNat % u)

/-- What the operations of the library take of two numbers. -/
def BigOp.Reads : BigOp → ℤ → ℤ → Prop
  | .div, x, y => y ≠ 0 → QuotientRead x y
  | .mod, x, y => y ≠ 0 → ModHolds True x y
  | _, _, _ => True

/-- They are kept along the arguments. -/
def BigOp.FoldReads (op : BigOp) : ℤ → List (Option ℤ) → Prop
  | _, [] => True
  | x, a :: as => ∀ y, a = some y → op.Reads x y ∧ ∀ z, op.eval x y = some z → op.FoldReads z as

/-- **What a command takes of its arguments.** -/
def BigOp.Kept (op : BigOp) : List (Option ℤ) → Prop
  | [] => True
  | a :: as => if op.first then ∀ x, a = some x → op.FoldReads x as
    else op.FoldReads op.unit (a :: as)

/-! ### Each command -/

section Commands

variable {I : Interp} {env : ℕ → Option ℤ} {result : ℕ} {x : ℤ}

/-- A command returns, and its result denotes the value, if there is one; it fails otherwise. -/
def Returns (call : Except Stop (Bool × Interp)) (env : ℕ → Option ℤ) (result : ℕ)
    (value : Option ℤ) : Prop :=
  ∃ I', call = .ok (value.isSome, I') ∧ I'.Denotes (Function.update env result value)

end Commands

/-! ### Scripts -/

/-- What a script does. -/
inductive Command
  /-- An object gets a string. -/
  | string (o : ℕ) (s : List UInt8)
  /-- The string of an object is asked for. -/
  | getString (o : ℕ)
  | duplicate (copy src : ℕ)
  | basic (op : BigOp) (result : ℕ) (args : List ℕ)
  | cmp (op : CmpOp) (result a b : ℕ)
  | pow (result b e : ℕ)
  | powm (result b e m : ℕ)

/-- What it does to the objects, and whether it succeeds. -/
def Command.call (mem : Ckalloc) : Command → Interp → Except Stop (Bool × Interp)
  | .string o s, I => .ok (true, I.setString o s)
  | .getString o, I => do
    let (_, I) ← Script.getString mem o I
    return (true, I)
  | .duplicate copy src, I => do
    let I ← duplicateObj copy src I
    return (true, I)
  | .basic op result args, I => bigBasic op result args I
  | .cmp op result a b, I => bigCmpCmd op result a b I
  | .pow result b e, I => bigPow result b e I
  | .powm result b e m, I => bigPowm result b e m I

/-- The objects, and what the commands have returned so far, the last one first. The source does not
keep these. -/
structure Session where
  interp : Interp
  codes : List Bool

def step (mem : Ckalloc) (s : Session) (c : Command) : Option Session :=
  match c.call mem s.interp with
  | .ok (code, I) => some ⟨I, code :: s.codes⟩
  | .error _ => none

/-- The numbers of the objects, and whether the commands have had a value. -/
structure Values where
  env : ℕ → Option ℤ
  codes : List Bool

/-- An object gets a value, or none. -/
def Values.result (v : Values) (o : ℕ) (x : Option ℤ) : Values :=
  ⟨Function.update v.env o x, x.isSome :: v.codes⟩

/-- **The calculation with integers.** -/
def Command.eval (v : Values) : Command → Values
  | .string o s => ⟨Function.update v.env o (numberOf s), true :: v.codes⟩
  | .getString _ => ⟨v.env, true :: v.codes⟩
  | .duplicate copy src => ⟨Function.update v.env copy (v.env src), true :: v.codes⟩
  | .basic op result args => v.result result (op.value (args.map v.env))
  | .cmp op result a b => v.result result (op.value (v.env a) (v.env b))
  | .pow result b e => v.result result (powValue (v.env b) (v.env e))
  | .powm result b e m => v.result result (powmValue (v.env b) (v.env e) (v.env m))

/-- **What a command takes**: strings of seven bits, a copy that is another object, and operands
that the library computes with. -/
def Command.Kept (v : Values) : Command → Prop
  | .string _ s => Ascii s
  | .duplicate copy src => copy ≠ src
  | .basic op _ args => op.Kept (args.map v.env)
  | .pow _ _ e => v.env e ≠ some 0
  | .powm _ b e m => ∀ x y u, v.env b = some x → v.env e = some y → v.env m = some u →
      y ≠ 0 ∧ (0 < y → PowmRead x y u)
  | _ => True

/-- The session is where the calculation is. -/
structure Agree (s : Session) (v : Values) : Prop where
  denotes : s.interp.Denotes v.env
  codes : s.codes = v.codes

theorem Returns.step {mem : Ckalloc} {s : Session} {v : Values} {c : Command} {o : ℕ}
    {x : Option ℤ} (hs : Agree s v) (h : Returns (c.call mem s.interp) v.env o x) :
    ∃ s', step mem s c = some s' ∧ Agree s' (v.result o x) := by
  obtain ⟨I, hcall, hdenotes⟩ := h
  refine ⟨⟨I, x.isSome :: s.codes⟩, ?_, hdenotes, congrArg _ hs.codes⟩
  rw [Script.step, hcall]

/-- Objects with empty strings, which are taken for zero. -/
def Session.empty : Session := ⟨⟨fun _ => ⟨some [], false⟩, fun _ => Mpz.init⟩, []⟩

/-- What `ckalloc` gives is zero here. -/
def zeros : Ckalloc := ⟨fun n => List.replicate n 0, fun _ => List.length_replicate⟩

end StyxWire.Script
