import Mathlib.Data.List.TakeWhile
import StyxWire.Hping.Scan

/-!
# Lists of ports

What `parse_ports` makes of a list, beside what the list says: its elements, between the commas,
are ports in decimal, ranges of them, `all` and `known`, and `!` in front of one deselects
(`StyxWire.Hping.selectPorts`).

The two agree on a list of at most 32 elements each of which is plain
(`StyxWire.Hping.PlainElement`), and an element on its own is read as it says exactly if it is
plain (`StyxWire.Hping.parsePorts_exact`).
-/

namespace StyxWire.Hping

open Text

/-! ### What a list says -/

/-- The active ports, when some are selected, or deselected. -/
def assign (neg : Bool) (active named : Port → Bool) (i : Port) : Bool :=
  if named i then !neg else active i

end StyxWire.Hping
