import Breadboard.Circuit.Blueprint
import Breadboard.Circuit.InputOrder
import Breadboard.Circuit.Issue
import Breadboard.Program.Basic

/-!
# Netlists from programs

All instances of a program are built first, so that a wire may name an instance declared after it.
Then a wire with one pin is decided: the pin is an input of the target if the target's type declares
it, and else an output of the source. Last, the switches are put in the order of the pins they feed.

An id that is used again and a type that the catalog does not have are reported and kept.
-/

namespace Breadboard

/-- The instances and wires at the top of a circuit. -/
structure Netlist where
  instances : List Instance := []
  wires : List Wire := []

namespace Netlist

/-- What there is to report about an instance when the ids in `seen` are taken. -/
def partIssues (catalog : Catalog) (seen : List String) (part : Part) : List CircuitIssue :=
  (if seen.contains part.id then [.duplicateInstanceId part.id] else []) ++
    if part.chip != inputType && !catalog.contains part.chip then
      [.unknownChipType part.id part.chip]
    else []

/-- What there is to report about instances when the ids in `seen` are taken. -/
def issuesFrom (catalog : Catalog) (seen : List String) : List Part → List CircuitIssue
  | [] => []
  | part :: rest =>
    partIssues catalog seen part ++ issuesFrom catalog (part.id :: seen) rest

/-- What there is to report about the instances of a program. -/
def issues (catalog : Catalog) (program : Program) : List CircuitIssue :=
  issuesFrom catalog [] program.parts

/-- Is `pin` an input of the first instance with the id `target`? -/
def isTargetInput (catalog : Catalog) (scope : List Instance) (target pin : String) : Bool :=
  match (findInstance? scope target).bind fun i => catalog.get? i.chip with
  | some d => d.hasInput pin
  | none => false

/-- The wire of a statement in a scope. -/
def wireOf (catalog : Catalog) (scope : List Instance) (decl : WireDecl) : Wire :=
  let wire : Wire := { source := decl.source, target := decl.target }
  match decl.pins with
  | .implicit => wire
  | .ambiguous pin =>
    if isTargetInput catalog scope decl.target pin then { wire with targetPin := some pin }
    else { wire with sourcePin := some pin }
  | .both sourcePin targetPin =>
    { wire with sourcePin := some sourcePin, targetPin := some targetPin }

/-- The netlist of a program. -/
def ofProgram (catalog : Catalog) (program : Program) : Netlist :=
  let scope := program.parts.map (Instance.fresh catalog)
  let wires := program.wires.map (wireOf catalog scope)
  ⟨orderInputs catalog wires scope, wires⟩

/-- The statement of a wire. A single pin is written without saying which end it belongs to. -/
def declOf (wire : Wire) : WireDecl where
  source := wire.source
  target := wire.target
  pins := match wire.sourcePin, wire.targetPin with
    | none, none => .implicit
    | some pin, none => .ambiguous pin
    | none, some pin => .ambiguous pin
    | some sourcePin, some targetPin => .both sourcePin targetPin

/-- The program of a netlist: its instances, then its wires. -/
def toProgram (netlist : Netlist) : Program where
  statements :=
    (netlist.instances.map fun i => .part i.part) ++
      netlist.wires.map fun wire => .wire (declOf wire)

/-! ## Lemmas -/

/-- What there is to report about instances: an id that is used again, a type that is not known. -/
theorem mem_issuesFrom {catalog : Catalog} {parts : List Part} {issue : CircuitIssue} :
    ∀ {seen}, issue ∈ issuesFrom catalog seen parts →
      (∃ id, issue = .duplicateInstanceId id) ∨ ∃ id chip, issue = .unknownChipType id chip := by
  induction parts with
  | nil => exact fun h => absurd h List.not_mem_nil
  | cons part rest ih =>
    intro seen h
    rw [issuesFrom, partIssues, List.mem_append, List.mem_append] at h
    rcases h with (h | h) | h
    · split at h
      · exact Or.inl ⟨part.id, List.mem_singleton.1 h⟩
      · exact absurd h List.not_mem_nil
    · split at h
      · exact Or.inr ⟨part.id, part.chip, List.mem_singleton.1 h⟩
      · exact absurd h List.not_mem_nil
    · exact ih h

end Netlist

end Breadboard
