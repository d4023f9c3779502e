import Breadboard.Chip.Catalog
import Breadboard.Chip.Issue
import Breadboard.Issue.IssueSet

/-!
# Checking a catalog

A catalog is fit for use when its composites hang together: parts have ids of their own and known
types, wires and pin maps name parts and pins that exist, and no type contains itself. Everything
but a cycle is found by looking at one composite at a time (`compositeIssues`).

Cycles are found by a search through the types of parts (`cyclesFrom`), along a path of types each
of which has a part of the next one. A type that is on the path already closes a cycle. The search
goes on with the catalog **without** the types of the path, so every step has one type less.
-/

namespace Breadboard.Catalog

/-! ## One composite -/

/-- Issues of the parts when the ids in `seen` are taken. -/
def partIssues (c : Catalog) (chip : String) (seen : List String) : List Part → List CatalogIssue
  | [] => []
  | part :: rest =>
    (if seen.contains part.id then [⟨.duplicateComponentIds chip part.id, .error⟩] else []) ++
      (if c.contains part.chip then []
        else [⟨.unknownComponentType chip part.id part.chip, .warning⟩]) ++
      partIssues c chip (part.id :: seen) rest

/-- Issues of the wires: a source is a part or an input pin, a target is a part. -/
def wireIssues (chip : String) (d : Composite) : List CatalogIssue :=
  let ids := d.parts.map Part.id
  d.wires.flatMap fun wire =>
    (if ids.contains wire.source || d.inputs.contains wire.source then []
      else [⟨.unknownWireEndpoint chip wire.source, .warning⟩]) ++
    (if ids.contains wire.target then []
      else [⟨.unknownWireEndpoint chip wire.target, .warning⟩])

/-- The parts that a pin map names, each with the pin that it is named for. -/
def mappedParts (pinMap : PinMap) : List (String × String) :=
  (pinMap.inputs.entries.flatMap fun (pin, targets) =>
      targets.map fun target => (pin, target.id)) ++
    (pinMap.outputs.entries.map fun (pin, tap) => (pin, tap.id)) ++
    (pinMap.main.toList.map fun id => ("output", id))

/-- Issues of the pin map. -/
def pinMapIssues (chip : String) (d : Composite) : List CatalogIssue :=
  let ids := d.parts.map Part.id
  ((mappedParts d.pinMap).flatMap fun (pin, id) =>
    if ids.contains id then [] else [⟨.danglingMapping chip pin id, .error⟩]) ++
  (d.pinMap.inputs.keys.flatMap fun pin =>
    if d.inputs.contains pin then [] else [⟨.unknownInputPin chip pin, .warning⟩])

/-- Issues of a composite by itself. -/
def compositeIssues (c : Catalog) (chip : String) (d : Composite) : List CatalogIssue :=
  partIssues c chip [] d.parts ++ wireIssues chip d ++ pinMapIssues chip d

/-! ## Cycles -/

/-- Search for cycles through `chip`, which a type at the end of `path` has a part of, when the
types in `done` are known to be searched. Gives the types searched by now and the cycles found. -/
def cyclesFrom (c : Catalog) (path done : List String) (chip : String) :
    List String × List (List String) :=
  if done.contains chip then (done, [])
  else if path.contains chip then (done, [path.dropWhile (· != chip) ++ [chip]])
  else
    match _h : c.get? chip with
    | some (.composite d) =>
      let (done, cycles) := d.parts.foldl
        (fun (done, cycles) part =>
          let (done, more) := cyclesFrom (c.erase chip) (path ++ [chip]) done part.chip
          (done, cycles ++ more))
        (done, [])
      (chip :: done, cycles)
    | _ => (chip :: done, [])
termination_by c.size
decreasing_by exact size_erase_lt _h

/-- The cycles found by searching from each type in order. -/
def cycles (c : Catalog) : List (List String) :=
  (c.names.foldl
    (fun (done, cycles) chip =>
      let (done, more) := cyclesFrom c [] done chip
      (done, cycles ++ more))
    (([] : List String), ([] : List (List String)))).2

/-! ## The whole catalog -/

/-- Issues of each composite by itself, in order, then cycles. -/
def issues (c : Catalog) : List CatalogIssue :=
  (c.chips.entries.flatMap fun
    | (chip, .composite d) => compositeIssues c chip d
    | (_, .primitive _) => []) ++
  c.cycles.map fun chain => ⟨.cyclicDefinition chain, .error⟩

/-- Check a catalog. -/
def check (c : Catalog) : IssueSet CatalogIssue := .ofList c.issues

end Breadboard.Catalog
