import StyxWire.Ars.Packet

/-!
# The C library, as the engine uses it

The functions the engine calls and does not contain: the conversions of addresses, the
resolution of names, the files. They are the fields of `StyxWire.Libc`, so whatever is
proved holds of any of them; a result that relies on what they document says so by
`StyxWire.Libc.Inverts`.

Over them, `ars_resolve` and `ars_resolve6` (`ars.c`).
-/

namespace StyxWire

open Text

/-- `"%u.%u.%u.%u"`, of the first four bytes. -/
def dottedQuad (x : List UInt8) : List UInt8 :=
  fmtU (x.getD 0 0).toNat ++ lit "." ++ fmtU (x.getD 1 0).toNat ++ lit "." ++
    fmtU (x.getD 2 0).toNat ++ lit "." ++ fmtU (x.getD 3 0).toNat

/-- The C library. The addresses are in network order. -/
structure Libc where
  /-- `inet_ntop(AF_INET6, ...)` in a buffer of `ARS_INET6_ADDRSTRLEN` bytes. -/
  inetNtop : List UInt8 → Option (List UInt8)
  /-- `inet_pton(AF_INET6, ...)`. -/
  inetPton : List UInt8 → Option (List UInt8)
  /-- `inet_aton`. -/
  inetAton : List UInt8 → Option (List UInt8)
  /-- `gethostbyname`: the first address. -/
  gethostbyname : List UInt8 → Option (List UInt8)
  /-- `getaddrinfo` for IPv6: the first address. -/
  getaddrinfo : List UInt8 → Option (List UInt8)
  /-- `open` and `read` of at most that many bytes, or the text of `p_error`. -/
  readFile : List UInt8 → ℕ → Except (List UInt8) (List UInt8)
  inetPton_length : ∀ s a, inetPton s = some a → a.length = 16
  inetAton_length : ∀ s a, inetAton s = some a → a.length = 4
  gethostbyname_length : ∀ s a, gethostbyname s = some a → a.length = 4
  getaddrinfo_length : ∀ s a, getaddrinfo s = some a → a.length = 16
  readFile_length : ∀ s n b, readFile s n = .ok b → b.length ≤ n

/-- **What the conversions document**: an address that is written is read back, and its
text is made of hexadecimal digits, colons and dots. -/
structure Libc.Inverts (libc : Libc) : Prop where
  aton : ∀ a : List UInt8, a.length = 4 → libc.inetAton (dottedQuad a) = some a
  pton : ∀ a : List UInt8, a.length = 16 →
    ∃ s, libc.inetNtop a = some s ∧ libc.inetPton s = some a ∧ s ≠ [] ∧
      s.length < 46 ∧ ∀ c ∈ s, digitVal c < 16 ∨ c = ch ':' ∨ c = ch '.'

/-- `ars_resolve`. -/
def arsResolve (libc : Libc) (hostname : List UInt8) : Except ArsErr (List UInt8) :=
  match libc.inetAton hostname with
  | some a => .ok a
  | none =>
    match libc.gethostbyname hostname with
    | some a => .ok a
    | none => arsFail .error "Can't resolve the hostname"

/-- `ars_resolve6`. -/
def arsResolve6 (libc : Libc) (hostname : List UInt8) : Except ArsErr (List UInt8) :=
  match libc.inetPton hostname with
  | some a => .ok a
  | none =>
    match libc.getaddrinfo hostname with
    | some a => .ok a
    | none => arsFail .error "Can't resolve the hostname to an IPv6 address"

end StyxWire
