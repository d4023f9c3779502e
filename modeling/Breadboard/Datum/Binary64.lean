import Breadboard.Text.Numeral

/-!
# The range of binary floating-point numbers

The numbers of binary64 have 53 significant bits and stay below 2 ^ 1024. What is at least half a
unit in the last place above the largest of them rounds to 2 ^ 1024, and is out of range.

Of a decimal number `m · 10 ^ e` there are two readings. The exact one rounds the number itself
(`fitsBinary64`). The stepwise one rounds `m`, then the power of ten, then the product of the two
(`productFitsBinary64`), so that it can go out of range a little earlier: `17976931348623158e292`
fits only when it is read exactly.
-/

namespace Breadboard

/-- The least number that is out of range. -/
def binary64Limit : Nat := Nat.pow 2 1024 - Nat.pow 2 970

/-- Does `m · 10 ^ e` round to a number in range? -/
def fitsBinary64 (m : Nat) (e : Int) : Bool :=
  let size := (Text.writeNat m).length + e
  m == 0 || size < 308 ||
    (size ≤ 310 && decide (m * Nat.pow 10 e.toNat < binary64Limit * Nat.pow 10 (-e).toNat))

/-- The nearest number with at most 53 significant bits; of two, the one with an even last bit. -/
def roundBinary64 (n : Nat) : Nat :=
  let unit := Nat.pow 2 (n.log2 - 52)
  let q := n / unit
  let r := n % unit
  (if unit < 2 * r || (2 * r == unit && q % 2 == 1) then q + 1 else q) * unit

/-- Is `m · 10 ^ e` in range when it is computed stepwise? Dividing by a power of ten always is. -/
def productFitsBinary64 (m : Nat) (e : Int) : Bool :=
  m == 0 || e ≤ 0 ||
    (e ≤ 308 &&
      decide (roundBinary64 m * roundBinary64 (Nat.pow 10 e.toNat) < binary64Limit))

end Breadboard
