import Breadboard.Chip.Issue
import Breadboard.Circuit.Issue
import Breadboard.Form.Basic

/-!
# Written forms of issues

* severity: `Info`, `Warning` or `Error`
* issue of a line: `line`, `cause`, `severity`
* issue of a circuit or of a catalog: `cause`, `severity`

A cause is a case of an enumeration that comes with a record of its fields.
-/

namespace Breadboard

open Datum Reading

namespace Severity

/-- The written names of the severities. -/
def forms : List (String × Severity) := [("Info", info), ("Warning", warning), ("Error", error)]

instance : Form Severity := ⟨fun s => .text (nameIn forms s), enumeration forms⟩

end Severity

namespace LineProblem

def toDatum : LineProblem → Datum
  | tooFewTokens text => case "TooFewTokens" (.table [("text", .text text)])
  | invalidCoordinates text => case "InvalidCoordinates" (.table [("text", .text text)])

def ofDatum? : Reading LineProblem := fun t d => do
  let c ← Case.ofDatum? t d
  match c.name with
  | "TooFewTokens" => return tooFewTokens (← (← c.record ["text"]).required "text" string)
  | "InvalidCoordinates" =>
    return invalidCoordinates (← (← c.record ["text"]).required "text" string)
  | _ => none

instance : Form LineProblem := ⟨toDatum, ofDatum?⟩

end LineProblem

namespace LineIssue

def toDatum (i : LineIssue) : Datum :=
  .table [("line", ofUInt64 i.line), ("cause", Form.write i.cause),
    ("severity", Form.write i.severity)]

def ofDatum? : Reading LineIssue := fun t d => do
  let r ← Record.ofDatum? ["line", "cause", "severity"] t d
  return ⟨← r.required "line" uint64, ← r.required "cause" Form.read,
    ← r.required "severity" Form.read⟩

instance : Form LineIssue := ⟨toDatum, ofDatum?⟩

end LineIssue

namespace CircuitProblem

def toDatum : CircuitProblem → Datum
  | syntaxError issue => case "Syntax" (Form.write issue)
  | didNotConverge passes => case "DidNotConverge" (.table [("passes", ofUInt64 passes)])
  | unknownChipType id chip =>
    case "UnknownChipType" (.table [("id", .text id), ("chip", .text chip)])
  | duplicateInstanceId id => case "DuplicateInstanceId" (.table [("id", .text id)])
  | notAnInput id => case "NotAnInput" (.table [("id", .text id)])

def ofDatum? : Reading CircuitProblem := fun t d => do
  let c ← Case.ofDatum? t d
  match c.name with
  | "Syntax" => (c.value Form.read).map syntaxError
  | "DidNotConverge" => return didNotConverge (← (← c.record ["passes"]).required "passes" uint64)
  | "UnknownChipType" =>
    let r ← c.record ["id", "chip"]
    return unknownChipType (← r.required "id" string) (← r.required "chip" string)
  | "DuplicateInstanceId" => return duplicateInstanceId (← (← c.record ["id"]).required "id" string)
  | "NotAnInput" => return notAnInput (← (← c.record ["id"]).required "id" string)
  | _ => none

instance : Form CircuitProblem := ⟨toDatum, ofDatum?⟩

end CircuitProblem

namespace CircuitIssue

def toDatum (i : CircuitIssue) : Datum :=
  .table [("cause", Form.write i.cause), ("severity", Form.write i.severity)]

def ofDatum? : Reading CircuitIssue := fun t d => do
  let r ← Record.ofDatum? ["cause", "severity"] t d
  return ⟨← r.required "cause" Form.read, ← r.required "severity" Form.read⟩

instance : Form CircuitIssue := ⟨toDatum, ofDatum?⟩

end CircuitIssue

namespace CatalogProblem

def toDatum : CatalogProblem → Datum
  | cyclicDefinition chain => case "CyclicDefinition" (.table [("chain", ofTexts chain)])
  | duplicateComponentIds chip id =>
    case "DuplicateComponentIds" (.table [("chip", .text chip), ("id", .text id)])
  | unknownComponentType chip id componentType =>
    case "UnknownComponentType" (.table [("chip", .text chip), ("id", .text id),
      ("component_type", .text componentType)])
  | danglingMapping chip pin id =>
    case "DanglingMapping" (.table [("chip", .text chip), ("pin", .text pin), ("id", .text id)])
  | unknownWireEndpoint chip endpoint =>
    case "UnknownWireEndpoint" (.table [("chip", .text chip), ("endpoint", .text endpoint)])
  | unknownInputPin chip pin =>
    case "UnknownInputPin" (.table [("chip", .text chip), ("pin", .text pin)])

def ofDatum? : Reading CatalogProblem := fun t d => do
  let c ← Case.ofDatum? t d
  match c.name with
  | "CyclicDefinition" =>
    return cyclicDefinition (← (← c.record ["chain"]).required "chain" (listOf string))
  | "DuplicateComponentIds" =>
    let r ← c.record ["chip", "id"]
    return duplicateComponentIds (← r.required "chip" string) (← r.required "id" string)
  | "UnknownComponentType" =>
    let r ← c.record ["chip", "id", "component_type"]
    return unknownComponentType (← r.required "chip" string) (← r.required "id" string)
      (← r.required "component_type" string)
  | "DanglingMapping" =>
    let r ← c.record ["chip", "pin", "id"]
    return danglingMapping (← r.required "chip" string) (← r.required "pin" string)
      (← r.required "id" string)
  | "UnknownWireEndpoint" =>
    let r ← c.record ["chip", "endpoint"]
    return unknownWireEndpoint (← r.required "chip" string) (← r.required "endpoint" string)
  | "UnknownInputPin" =>
    let r ← c.record ["chip", "pin"]
    return unknownInputPin (← r.required "chip" string) (← r.required "pin" string)
  | _ => none

instance : Form CatalogProblem := ⟨toDatum, ofDatum?⟩

end CatalogProblem

namespace CatalogIssue

def toDatum (i : CatalogIssue) : Datum :=
  .table [("cause", Form.write i.cause), ("severity", Form.write i.severity)]

def ofDatum? : Reading CatalogIssue := fun t d => do
  let r ← Record.ofDatum? ["cause", "severity"] t d
  return ⟨← r.required "cause" Form.read, ← r.required "severity" Form.read⟩

instance : Form CatalogIssue := ⟨toDatum, ofDatum?⟩

end CatalogIssue

end Breadboard
