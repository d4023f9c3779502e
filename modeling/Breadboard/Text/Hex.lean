/-!
# Hexadecimal numerals
-/

namespace Breadboard.Text

/-- The value of a hexadecimal digit of either case. -/
def hexValue? (c : Char) : Option Nat :=
  if '0' ≤ c ∧ c ≤ '9' then some (c.toNat - '0'.toNat)
  else if 'a' ≤ c ∧ c ≤ 'f' then some (c.toNat - 'a'.toNat + 10)
  else if 'A' ≤ c ∧ c ≤ 'F' then some (c.toNat - 'A'.toNat + 10)
  else none

/-- The value of hexadecimal digits. -/
def hexNumber? (cs : List Char) : Option Nat :=
  (cs.mapM hexValue?).map fun ds => ds.foldl (fun n d => 16 * n + d) 0

end Breadboard.Text
