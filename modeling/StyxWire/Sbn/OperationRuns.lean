import StyxWire.Lib.Events
import StyxWire.Sbn.PowerSigns

/-!
# Runs of operations

The objects of a caller of the library, and the state of its random number generator, which the
public functions change (`StyxWire.Sbn.Op.call`). A caller starts with objects that `mpz_init` made,
and calls what it likes on any of them, with the same object in several places.

The objects are canonical in every state that is reached, as long as no call of the run is one of
those that are known to go wrong (`StyxWire.Sbn.Op.Kept`, `StyxWire.Sbn.runs_canonical`): the
invariant is that of one call (`StyxWire.Sbn.call_canonical`), carried along the run. The condition
is about the operands of the call as they are before it. The arguments have the types that they have
in the source.
-/

namespace StyxWire.Sbn

/-- The objects, and the static variables of `sbn_rand`. -/
structure Machine where
  st : Store
  rc : Rc4

/-- A call of a public function on objects of the caller. -/
inductive Op
  | set (d s : ℕ)
  | setUi (z : ℕ) (u : UInt32)
  | setSi (z : ℕ) (s : Int32)
  | setUi64 (z : ℕ) (u : UInt64)
  | setSi64 (z : ℕ) (s : Int64)
  | setStr (z : ℕ) (s : List UInt8) (b : ℕ)
  | setzero (z : ℕ)
  | abs (d s : ℕ)
  | neg (d s : ℕ)
  | add (r a b : ℕ)
  | addUi (r z : ℕ) (u : UInt32)
  | addSi (r z : ℕ) (s : Int32)
  | sub (r a b : ℕ)
  | subUi (r z : ℕ) (u : UInt32)
  | subSi (r z : ℕ) (s : Int32)
  | mul (r z f : ℕ)
  | mulUi (r z : ℕ) (u : UInt32)
  | mulSi (r z : ℕ) (s : Int32)
  | lshift (r z : ℕ) (i : UInt32)
  | rshift (r z : ℕ) (i : UInt32)
  | setbit (z : ℕ) (i : UInt32)
  | clrbit (z : ℕ) (i : UInt32)
  | and (r z m : ℕ)
  | tdivQr (q r z d : ℕ)
  | tdivQrUi (q r z : ℕ) (u : UInt32)
  | tdivQrSi (q r z : ℕ) (s : Int32)
  | tdivQ (q z d : ℕ)
  | tdivQUi (q z : ℕ) (u : UInt32)
  | tdivQSi (q z : ℕ) (s : Int32)
  | tdivR (r z d : ℕ)
  | tdivRUi (r z : ℕ) (u : UInt32)
  | tdivRSi (r z : ℕ) (s : Int32)
  | mod (r z m : ℕ)
  | pow (r b e : ℕ)
  | powm (r b e m : ℕ)
  | facUi (r : ℕ) (i : UInt32)
  | random (z : ℕ) (len : Int32)

/-- A function that does not draw random numbers. -/
def Machine.on (s : Machine) (f : Store → Except Stop Store) : Except Stop Machine := do
  let st ← f s.st
  return { s with st := st }

/-- The call. As many turns are given to a factorial as it takes, if it ends. -/
def Op.call (s : Machine) : Op → Except Stop Machine
  | .set d z => s.on (mpzSet (.obj d) (.obj z))
  | .setUi z u => s.on (mpzSetUi (.obj z) u.toNat)
  | .setSi z i => s.on (mpzSetSi (.obj z) i.toInt)
  | .setUi64 z u => s.on (mpzSetUi64 (.obj z) u.toNat)
  | .setSi64 z i => s.on (mpzSetSi64 (.obj z) i.toInt)
  | .setStr z t b => s.on (mpzSetStr (.obj z) t b)
  | .setzero z => s.on (mpzSetzero (.obj z))
  | .abs d z => s.on (mpzAbs (.obj d) (.obj z))
  | .neg d z => s.on (mpzNeg (.obj d) (.obj z))
  | .add r a b => s.on (mpzAdd (.obj r) (.obj a) (.obj b))
  | .addUi r z u => s.on (mpzAddUi (.obj r) (.obj z) u.toNat)
  | .addSi r z i => s.on (mpzAddSi (.obj r) (.obj z) i.toInt)
  | .sub r a b => s.on (mpzSub (.obj r) (.obj a) (.obj b))
  | .subUi r z u => s.on (mpzSubUi (.obj r) (.obj z) u.toNat)
  | .subSi r z i => s.on (mpzSubSi (.obj r) (.obj z) i.toInt)
  | .mul r z f => s.on (mpzMul (.obj r) (.obj z) (.obj f))
  | .mulUi r z u => s.on (mpzMulUi (.obj r) (.obj z) u.toNat)
  | .mulSi r z i => s.on (mpzMulSi (.obj r) (.obj z) i.toInt)
  | .lshift r z i => s.on (mpzLshift (.obj r) (.obj z) i.toNat)
  | .rshift r z i => s.on (mpzRshift (.obj r) (.obj z) i.toNat)
  | .setbit z i => s.on (mpzSetbit (.obj z) i.toNat)
  | .clrbit z i => s.on (mpzClrbit (.obj z) i.toNat)
  | .and r z m => s.on (mpzAnd (.obj r) (.obj z) (.obj m))
  | .tdivQr q r z d => s.on (mpzTdivQr (.obj q) (.obj r) (.obj z) (.obj d))
  | .tdivQrUi q r z u => s.on (mpzTdivQrUi (.obj q) (.obj r) (.obj z) u.toNat)
  | .tdivQrSi q r z i => s.on (mpzTdivQrSi (.obj q) (.obj r) (.obj z) i.toInt)
  | .tdivQ q z d => s.on (mpzTdivQ (.obj q) (.obj z) (.obj d))
  | .tdivQUi q z u => s.on (mpzTdivQUi (.obj q) (.obj z) u.toNat)
  | .tdivQSi q z i => s.on (mpzTdivQSi (.obj q) (.obj z) i.toInt)
  | .tdivR r z d => s.on (mpzTdivR (.obj r) (.obj z) (.obj d))
  | .tdivRUi r z u => s.on (mpzTdivRUi (.obj r) (.obj z) u.toNat)
  | .tdivRSi r z i => s.on (mpzTdivRSi (.obj r) (.obj z) i.toInt)
  | .mod r z m => s.on (mpzMod (.obj r) (.obj z) (.obj m))
  | .pow r b e => s.on (mpzPow (.obj r) (.obj b) (.obj e))
  | .powm r b e m => s.on (mpzPowm (.obj r) (.obj b) (.obj e) (.obj m))
  | .facUi r i => s.on (mpzFacUi (2 ^ 32) (.obj r) i.toNat)
  | .random z len => do
    let (st, rc) ← mpzRandom (.obj z) len.toInt s.st s.rc
    return ⟨st, rc⟩

/-- A step of a run is a call that returns `SBN_OK`. -/
def step (s : Machine) (op : Op) : Option Machine := (op.call s).toOption

/-- A division into two objects, with this divisor. -/
def TdivQrKept (st : Store) (q r z : ℕ) (d : ℤ) : Prop :=
  q ≠ r ∧ QuotientKept (st (.obj z)).value d ∧ RemainderKept (st (.obj z)).value d ∧
    DividendKept (r = z) (st (.obj z)).value d

/-- **The calls that keep the objects canonical**, from the objects before them. -/
def Op.Kept (s : Machine) : Op → Prop
  | .set d z => d = z → 0 ≤ (s.st (.obj z)).value
  | .setUi64 z u => (s.st (.obj z)).l ≤ (Nat.digits base u.toNat).length
  | .setSi64 z i => (s.st (.obj z)).l ≤ (Nat.digits base i.toInt.natAbs).length
  | .setStr _ t b => TextKept b t
  | .neg _ z => (s.st (.obj z)).value ≠ 0
  | .lshift _ z i => (s.st (.obj z)).value = 0 → i.toNat < atombits
  | .rshift _ z i => ((s.st (.obj z)).value < 0 → 2 ^ i.toNat ≤ (s.st (.obj z)).value.natAbs) ∧
      (i.toNat / atombits ≠ 0 → i.toNat / atombits < (s.st (.obj z)).l →
        i.toNat / atombits = 1 ∧
          (s.st (.obj z)).d.getD ((s.st (.obj z)).l - 1) 0 < 256)
  | .and r z m => r = z → z = m → 0 ≤ (s.st (.obj z)).value
  | .tdivQr q r z d => TdivQrKept s.st q r z (s.st (.obj d)).value
  | .tdivQrUi q r z u => TdivQrKept s.st q r z u.toNat
  | .tdivQrSi q r z i => TdivQrKept s.st q r z i.toInt
  | .tdivQ _ z d => QuotientKept (s.st (.obj z)).value (s.st (.obj d)).value
  | .tdivQUi _ z u => RemainderKept (s.st (.obj z)).value u.toNat
  | .tdivQSi _ z i => RemainderKept (s.st (.obj z)).value i.toInt
  | .tdivR _ z d => RemainderKept (s.st (.obj z)).value (s.st (.obj d)).value
  | .tdivRUi _ z u => RemainderKept (s.st (.obj z)).value u.toNat
  | .tdivRSi _ z i => RemainderKept (s.st (.obj z)).value i.toInt
  | .mod _ z m => RemainderKept (s.st (.obj z)).value (s.st (.obj m)).value
  | .powm _ b e m => PowmKept (s.st (.obj b)).value (s.st (.obj e)).value.natAbs
      (s.st (.obj m)).value.natAbs
  | .random z len => RandomKept (s.st (.obj z)) len.toInt s.rc
  | _ => True

/-! ### One call -/

/-- The machine before the first call. -/
def Machine.init : Machine := ⟨fun _ => Mpz.init, ⟨false, fun _ => 0, 0, 0⟩⟩

/-- Zero that is negated has a sign. -/
example : (Events.run step Machine.init [.neg 0 0]).map (fun s => s.st (.obj 0)) =
    some ⟨[], 0, true⟩ := rfl

end StyxWire.Sbn
