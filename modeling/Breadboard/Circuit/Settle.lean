import Breadboard.Circuit.Pass

/-!
# Settling

A circuit settles by passes until one changes nothing, or until a limit on their number is reached.
At least one pass is made, even under a limit of 0.
-/

namespace Breadboard

/-- How a circuit settled. -/
structure SettleReport where
  /-- The number of passes made. -/
  passes : Nat
  /-- Whether the last pass changed nothing. -/
  converged : Bool
deriving DecidableEq, Repr

/-- After `done` passes, make one more, and then up to `n` others until nothing changes. -/
def settleFrom (catalog : Catalog) (wires : List Wire) (done : Nat) :
    Nat → List Instance → List Instance × SettleReport
  | 0, scope =>
    let (scope', changed) := passAll catalog wires ∅ scope
    (scope', ⟨done + 1, !changed⟩)
  | n + 1, scope =>
    match passAll catalog wires ∅ scope with
    | (scope', true) => settleFrom catalog wires (done + 1) n scope'
    | (scope', false) => (scope', ⟨done + 1, true⟩)

/-- Pass until nothing changes, at most `limit` times and at least once. -/
def settle (catalog : Catalog) (wires : List Wire) (limit : Nat) (scope : List Instance) :
    List Instance × SettleReport :=
  settleFrom catalog wires 0 (limit - 1) scope

end Breadboard
