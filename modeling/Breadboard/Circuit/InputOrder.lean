import Breadboard.Chip.Catalog
import Breadboard.Circuit.Instance
import Breadboard.Circuit.PinAssignment

/-!
# The order of the switches

The switches of a netlist are listed in the order of the pins they feed. The **anchor** is the
first instance that is not a switch and that some switch has a wire to. Switches that drive a
declared pin of the anchor come first, in the order of the pins and then of the wires; the others
follow in their old order. Everything else stays in its place: only the places held by switches are
filled anew.
-/

namespace Breadboard

/-- Is the instance of the type `INPUT`? -/
def Instance.isSwitch (i : Instance) : Bool := i.chip == inputType

/-- The first instance that is not a switch and that a switch has a wire to. -/
def anchor? (scope : List Instance) (wires : List Wire) : Option Instance :=
  let switches := scope.filter Instance.isSwitch
  scope.find? fun i =>
    !i.isSwitch && wires.any fun wire =>
      wire.target == i.id && (findInstance? switches wire.source).isSome

/-- The sources of the wires into an instance that drive a declared pin, in the order of the pins
and then of the wires, each once. -/
def feeders (declared : List String) (wires : List Wire) (target : String) : List String :=
  let assigned := assignPins declared wires target
  (declared.flatMap fun pin =>
    (assigned.filter fun e => e.2 == pin).map fun e => e.1.source).eraseDups

/-- The first instance of each of the given ids, then the instances that are left. -/
def pullFront (scope : List Instance) : List String → List Instance
  | [] => scope
  | id :: ids =>
    match findInstance? scope id with
    | some i => i :: pullFront (scope.eraseP fun j => j.id == id) ids
    | none => pullFront scope ids

/-- Put the given instances into the places of the switches. -/
def refill : List Instance → List Instance → List Instance
  | _, [] => []
  | [], scope => scope
  | s :: switches, i :: rest =>
    if i.isSwitch then s :: refill switches rest else i :: refill (s :: switches) rest

/-- List the switches in the order of the pins they feed. -/
def orderInputs (catalog : Catalog) (wires : List Wire) (scope : List Instance) : List Instance :=
  let switches := scope.filter Instance.isSwitch
  if switches.length < 2 then scope
  else
    match anchor? scope wires with
    | some anchor =>
      refill (pullFront switches (feeders (catalog.inputsOf anchor.chip) wires anchor.id)) scope
    | none => scope

end Breadboard
