import Breadboard.Circuit.Instance

/-!
# The clock edge

On a clock edge every flip-flop, at every depth, drives its output with the bit that it took down
during the last pass. Nothing else changes, so no flip-flop sees the new bit of another one.
-/

namespace Breadboard

mutual

/-- Let the flip-flops in an instance take their next values, and count them. -/
def Instance.commit : Instance → Instance × Nat
  | ⟨part, expanded, signals, body⟩ =>
    match body with
    | .primitive .dff => (⟨part, expanded, signals.drive signals.next, .primitive .dff⟩, 1)
    | .composite parts wires =>
      let (parts', count) := commitAll parts
      (⟨part, expanded, signals, .composite parts' wires⟩, count)
    | body => (⟨part, expanded, signals, body⟩, 0)

/-- Let the flip-flops in a scope take their next values, and count them. -/
def commitAll : List Instance → List Instance × Nat
  | [] => ([], 0)
  | i :: rest =>
    let (i', count) := i.commit
    let (rest', count') := commitAll rest
    (i' :: rest', count + count')

end

end Breadboard
