import Breadboard.Chip.Catalog
import Breadboard.Circuit.Instance
import Breadboard.Circuit.PinAssignment

/-!
# One pass over a circuit

A pass visits the instances of a scope in order. Each one reads its wires as they stand at that
moment, so an instance sees the new bits of those before it and the old bits of itself and of those
after it. A composite then makes one pass over its own parts, whose wires may read its inputs by
name, and publishes their outputs as its pin map says.

A pass also tells whether it changed anything. A flip-flop only takes down its next value here; its
outputs wait for the clock (`commitAll`).
-/

namespace Breadboard

/-! ## Reading -/

/-- The bit on a wire: from the first instance of that id, or else from the input of that name of
the enclosing chip, or else low. -/
def Wire.read (scope : List Instance) (inherited : Pins) (wire : Wire) : Bool :=
  match findInstance? scope wire.source with
  | some source => source.read wire.sourcePin
  | none => (inherited.get? wire.source).getD false

/-- The input pins of `target` that are driven, each with the bit of the last wire that drives
it. -/
def resolveInputs (catalog : Catalog) (scope : List Instance) (wires : List Wire)
    (inherited : Pins) (target : Part) : Pins :=
  NameMap.ofList <|
    (assignPins (catalog.inputsOf target.chip) wires target.id).map fun (wire, pin) =>
      (pin, wire.read scope inherited)

/-- The bit at a tap. A pin that the part does not drive gives the part's main output; a part that
is not there gives low. -/
def Tap.read (parts : List Instance) (tap : Tap) : Bool :=
  match findInstance? parts tap.id with
  | some source => (tap.pin.bind source.signals.outputs.get?).getD source.value
  | none => false

/-- The main output of the part `id`, low if there is no such part. -/
def mainOutput (parts : List Instance) (id : String) : Bool :=
  match findInstance? parts id with
  | some source => source.value
  | none => false

/-- How the pins of a chip type are tied to its parts; not at all unless it is a composite. -/
def Catalog.pinMapOf (catalog : Catalog) (chip : String) : PinMap :=
  match catalog.composite? chip with
  | some d => d.pinMap
  | none => {}

/-! ## The signals of one instance -/

namespace Signals

/-- Take new inputs, unless they are the old ones in another order. -/
def receive (s : Signals) (inputs : Pins) : Signals :=
  if s.inputs.agree inputs then s else { s with inputs }

/-- The bit on the `n`-th declared input; a pin that is not driven is low. -/
def bit (s : Signals) (declared : List String) (n : Nat) : Bool :=
  ((declared[n]?).bind s.inputs.get?).getD false

/-- What a primitive makes of its inputs. -/
def compute (kind : PrimitiveKind) (declared : List String) (s : Signals) : Signals :=
  match kind with
  | .dff => { s with next := s.bit declared 0 }
  | kind => s.drive (kind.evaluate (s.bit declared 0) (s.bit declared 1) s.value)

/-- Is there exactly one named output, and does `OUT` read `bit`? -/
def isDriven (s : Signals) (bit : Bool) : Bool := s.outputs.size == 1 && s.output outPin == bit

/-- Take the outputs that `pinMap` names from the parts. -/
def publish (pinMap : PinMap) (parts : List Instance) (s : Signals) : Signals :=
  { s with
    outputs := pinMap.outputs.entries.foldl (fun out e => out.insert e.1 (e.2.read parts)) s.outputs
    value := match pinMap.main with
      | some id => mainOutput parts id
      | none => s.value }

/-- Do the outputs that `pinMap` names all have the bits of the parts already? -/
def isPublished (pinMap : PinMap) (parts : List Instance) (s : Signals) : Bool :=
  pinMap.outputs.entries.all fun e => s.outputs.get? e.1 == some (e.2.read parts)

/-- Are the main output and the next value the same? -/
def isSteady (before after : Signals) : Bool :=
  before.value == after.value && before.next == after.next

end Signals

/-! ## The pass -/

mutual

/-- One pass over an instance whose wires carry `inputs`, and whether it changed anything. -/
def Instance.pass (catalog : Catalog) (inputs : Pins) : Instance → Instance × Bool
  | ⟨part, expanded, before, body⟩ =>
    let received := before.receive inputs
    let news := !before.inputs.agree inputs
    match body with
    | .unknown =>
      let after := received.drive false
      (⟨part, expanded, after, .unknown⟩,
        news || !received.isDriven false || !before.isSteady after)
    | .primitive kind =>
      let after := received.compute kind (catalog.inputsOf part.chip)
      (⟨part, expanded, after, .primitive kind⟩,
        news || !(kind.isEdgeTriggered || received.isDriven after.value) || !before.isSteady after)
    | .composite parts wires =>
      let (parts', inside) := passFrom catalog wires received.inputs [] parts
      let pinMap := catalog.pinMapOf part.chip
      let after := received.publish pinMap parts'
      (⟨part, expanded, after, .composite parts' wires⟩,
        news || inside || !received.isPublished pinMap parts' || !before.isSteady after)

/-- One pass over the instances that come after those in `visited`, and whether it changed
anything. -/
def passFrom (catalog : Catalog) (wires : List Wire) (inherited : Pins) (visited : List Instance) :
    List Instance → List Instance × Bool
  | [] => ([], false)
  | target :: rest =>
    let inputs := resolveInputs catalog (visited ++ target :: rest) wires inherited target.part
    let (target', changed) := target.pass catalog inputs
    let (rest', changed') := passFrom catalog wires inherited (visited ++ [target']) rest
    (target' :: rest', changed || changed')

end

/-- One pass over a scope, and whether it changed anything. -/
def passAll (catalog : Catalog) (wires : List Wire) (inherited : Pins) (scope : List Instance) :
    List Instance × Bool :=
  passFrom catalog wires inherited [] scope

end Breadboard
