import Breadboard.Form.Chip
import Breadboard.Program.Basic

/-!
# Written forms of programs

* program: `statements`
* statement: `Instance` with `chip`, `id`, [`position`], or `Wire` with `from`, `to`, `pins`
* pins of a wire: `Implicit`, `Ambiguous` with the pin, or `Both` with `from_pin`, `to_pin`

The position of an instance is written as `null` when it is absent. It may be missing from a table,
but not from a list.
-/

namespace Breadboard

open Datum Reading

namespace WirePins

def toDatum : WirePins → Datum
  | implicit => .text "Implicit"
  | ambiguous pin => case "Ambiguous" (.text pin)
  | both sourcePin targetPin =>
    case "Both" (.table [("from_pin", .text sourcePin), ("to_pin", .text targetPin)])

def ofDatum? : Reading WirePins := fun t d => do
  let c ← Case.ofDatum? t d
  match c.name with
  | "Implicit" => c.plain implicit
  | "Ambiguous" => (c.value string).map ambiguous
  | "Both" =>
    let r ← c.record ["from_pin", "to_pin"]
    return both (← r.required "from_pin" string) (← r.required "to_pin" string)
  | _ => none

instance : Form WirePins := ⟨toDatum, ofDatum?⟩

end WirePins

namespace WireDecl

def toDatum (w : WireDecl) : Datum :=
  .table [("from", .text w.source), ("to", .text w.target), ("pins", Form.write w.pins)]

def ofDatum? : Reading WireDecl := fun t d => do
  let r ← Record.ofDatum? ["from", "to", "pins"] t d
  return ⟨← r.required "from" string, ← r.required "to" string, ← r.required "pins" Form.read⟩

instance : Form WireDecl := ⟨toDatum, ofDatum?⟩

end WireDecl

namespace Statement

/-- The written form of a declared instance. -/
def partToDatum (p : Part) : Datum :=
  .table [("chip", .text p.chip), ("id", .text p.id),
    ("position", match p.position with
      | some pos => Form.write pos
      | none => .null)]

/-- A declared instance. -/
def partOfDatum? : Reading Part := fun t d => do
  let r ← Record.ofDatum? ["chip", "id", "position"] t d
  return {
    chip := ← r.required "chip" string
    id := ← r.required "id" string
    position := ← r.unlessListed "position" none (optional Form.read) }

def toDatum : Statement → Datum
  | part p => case "Instance" (partToDatum p)
  | wire decl => case "Wire" (Form.write decl)

def ofDatum? : Reading Statement := fun t d => do
  let c ← Case.ofDatum? t d
  match c.name with
  | "Instance" => (c.value partOfDatum?).map .part
  | "Wire" => (c.value Form.read).map .wire
  | _ => none

instance : Form Statement := ⟨toDatum, ofDatum?⟩

end Statement

namespace Program

def toDatum (p : Program) : Datum :=
  .table [("statements", .list (p.statements.map Form.write))]

def ofDatum? : Reading Program := fun t d => do
  let r ← Record.ofDatum? ["statements"] t d
  return ⟨← r.required "statements" (listOf Form.read)⟩

instance : Form Program := ⟨toDatum, ofDatum?⟩

end Program

end Breadboard
