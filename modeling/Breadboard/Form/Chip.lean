import Breadboard.Chip.Basic
import Breadboard.Form.Basic

/-!
# Written forms of chips and wires

Definitions are written with these members, in this order; a member in parentheses is left out when
it is absent, and one in brackets may be missing on reading.

* position: `x`, `y`
* wire: [`from`], [(`from_pin`)], [`to`], [(`to_pin`)]
* primitive: `kind`, `inputs`, `outputs`
* part: `id`, `type`, [(`position`)]
* pin of a part: `id`, `pin`
* pin map: [`inputs`], [`outputs`], [(`output`)]
* composite: `inputs`, [`outputs`], [`components`], [`wires`], [`io_mapping`]
* definition: `Primitive` or `Composite`

A tap is written as the id alone when it names no pin. It is read from an id or from a table, but
never from a list, and all of it must be readable.
-/

namespace Breadboard

open Datum Reading

namespace Position

def toDatum (p : Position) : Datum := .table [("x", ofInt64 p.x), ("y", ofInt64 p.y)]

def ofDatum? : Reading Position := fun t d => do
  let r ← Record.ofDatum? ["x", "y"] t d
  return ⟨← r.required "x" int64, ← r.required "y" int64⟩

instance : Form Position := ⟨toDatum, ofDatum?⟩

end Position

namespace Wire

def toDatum (w : Wire) : Datum :=
  record [("from", some (.text w.source)), ("from_pin", w.sourcePin.map .text),
    ("to", some (.text w.target)), ("to_pin", w.targetPin.map .text)]

def ofDatum? : Reading Wire := fun t d => do
  let r ← Record.ofDatum? ["from", "from_pin", "to", "to_pin"] t d
  return {
    source := ← r.withDefault "from" "" string
    sourcePin := ← r.withDefault "from_pin" none (optional string)
    target := ← r.withDefault "to" "" string
    targetPin := ← r.withDefault "to_pin" none (optional string) }

instance : Form Wire := ⟨toDatum, ofDatum?⟩

end Wire

namespace PrimitiveKind

/-- The written names of the kinds. -/
def forms : List (String × PrimitiveKind) :=
  [("Input", input), ("And", and), ("Or", or), ("Nand", nand), ("Not", not), ("Xor", xor),
    ("Dff", dff)]

instance : Form PrimitiveKind := ⟨fun k => .text (nameIn forms k), enumeration forms⟩

end PrimitiveKind

namespace Primitive

def toDatum (p : Primitive) : Datum :=
  .table [("kind", Form.write p.kind), ("inputs", ofTexts p.inputs),
    ("outputs", ofTexts p.outputs)]

def ofDatum? : Reading Primitive := fun t d => do
  let r ← Record.ofDatum? ["kind", "inputs", "outputs"] t d
  return ⟨← r.required "kind" Form.read, ← r.required "inputs" (listOf string),
    ← r.required "outputs" (listOf string)⟩

instance : Form Primitive := ⟨toDatum, ofDatum?⟩

end Primitive

namespace Part

def toDatum (p : Part) : Datum :=
  record [("id", some (.text p.id)), ("type", some (.text p.chip)),
    ("position", p.position.map Form.write)]

def ofDatum? : Reading Part := fun t d => do
  let r ← Record.ofDatum? ["id", "type", "position"] t d
  return ⟨← r.required "id" string, ← r.required "type" string,
    ← r.withDefault "position" none (optional Form.read)⟩

instance : Form Part := ⟨toDatum, ofDatum?⟩

end Part

namespace PinRef

def toDatum (p : PinRef) : Datum := .table [("id", .text p.id), ("pin", .text p.pin)]

def ofDatum? : Reading PinRef := fun t d => do
  let r ← Record.ofDatum? ["id", "pin"] t d
  return ⟨← r.required "id" string, ← r.required "pin" string⟩

instance : Form PinRef := ⟨toDatum, ofDatum?⟩

end PinRef

namespace Tap

def toDatum (tap : Tap) : Datum :=
  match tap.pin with
  | none => .text tap.id
  | some pin => .table [("id", .text tap.id), ("pin", .text pin)]

def ofDatum? : Reading Tap := fun t d =>
  if d.isReadable && decide (d.depth ≤ t.room) then
    match d with
    | .text id => some { id }
    | .table members => do
      let r ← Record.ofDatum? ["id", "pin"] t (.table members)
      return ⟨← r.required "id" string, ← r.withDefault "pin" none (optional string)⟩
    | _ => none
  else none

instance : Form Tap := ⟨toDatum, ofDatum?⟩

end Tap

namespace PinMap

def toDatum (p : PinMap) : Datum :=
  record [("inputs", some (ofNames (fun l => .list (l.map Form.write)) p.inputs)),
    ("outputs", some (ofNames Form.write p.outputs)), ("output", p.main.map .text)]

def ofDatum? : Reading PinMap := fun t d => do
  let r ← Record.ofDatum? ["inputs", "outputs", "output"] t d
  return {
    inputs := ← r.withDefault "inputs" ∅ (tableOf (listOf Form.read))
    outputs := ← r.withDefault "outputs" ∅ (tableOf Form.read)
    main := ← r.withDefault "output" none (optional string) }

instance : Form PinMap := ⟨toDatum, ofDatum?⟩

end PinMap

namespace Composite

def toDatum (c : Composite) : Datum :=
  .table [("inputs", ofTexts c.inputs), ("outputs", ofTexts c.outputs),
    ("components", .list (c.parts.map Form.write)), ("wires", .list (c.wires.map Form.write)),
    ("io_mapping", Form.write c.pinMap)]

def ofDatum? : Reading Composite := fun t d => do
  let r ← Record.ofDatum? ["inputs", "outputs", "components", "wires", "io_mapping"] t d
  return {
    inputs := ← r.required "inputs" (listOf string)
    outputs := ← r.withDefault "outputs" [] (listOf string)
    parts := ← r.withDefault "components" [] (listOf Form.read)
    wires := ← r.withDefault "wires" [] (listOf Form.read)
    pinMap := ← r.withDefault "io_mapping" {} Form.read }

instance : Form Composite := ⟨toDatum, ofDatum?⟩

end Composite

namespace ChipType

def toDatum : ChipType → Datum
  | primitive d => case "Primitive" (Form.write d)
  | composite d => case "Composite" (Form.write d)

def ofDatum? : Reading ChipType := fun t d => do
  let c ← Case.ofDatum? t d
  match c.name with
  | "Primitive" => (c.value Form.read).map primitive
  | "Composite" => (c.value Form.read).map composite
  | _ => none

instance : Form ChipType := ⟨toDatum, ofDatum?⟩

end ChipType

end Breadboard
