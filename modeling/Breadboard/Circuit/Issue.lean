import Breadboard.Program.Issue

/-!
# What a simulator reports

Circuits never fail to simulate. What was odd about assembling or running one is reported instead.
-/

namespace Breadboard

/-- What happened. -/
inductive CircuitProblem where
  /-- A line of the program was not fully understood. -/
  | syntaxError (issue : LineIssue)
  /-- The limit on passes was reached while bits still changed. -/
  | didNotConverge (passes : UInt64)
  /-- The type of an instance is not in the catalog. -/
  | unknownChipType (id chip : String)
  /-- An id that an earlier instance has already. -/
  | duplicateInstanceId (id : String)
  /-- A toggle of an id whose first instance is not a switch, or that no instance has. -/
  | notAnInput (id : String)
deriving DecidableEq, Repr

/-- A report on assembling or running a circuit. -/
structure CircuitIssue where
  cause : CircuitProblem
  severity : Severity
deriving DecidableEq, Repr

namespace CircuitProblem

def text : CircuitProblem → String
  | syntaxError issue => Diagnostic.text issue
  | didNotConverge passes =>
    "circuit did not settle after " ++ Text.showNat passes.toNat ++
      " passes; values may be inconsistent"
  | unknownChipType id chip =>
    "unknown chip type: instance `" ++ id ++ "` has type `" ++ chip ++
      "`, which is not in the catalog; it will always output 0"
  | duplicateInstanceId id =>
    "duplicate instance IDs: found two or more instances named `" ++ id ++
      "`; wires and lookups use the first"
  | notAnInput id => "cannot toggle `" ++ id ++ "`: no INPUT instance has that ID"

def help : CircuitProblem → Option String
  | didNotConverge _ => some "look for a combinational loop that does not pass through a DFF"
  | _ => none

end CircuitProblem

instance : Diagnostic CircuitIssue where
  text issue := issue.cause.text
  severity := CircuitIssue.severity
  help issue := issue.cause.help

namespace CircuitIssue

/-- A skipped or half-understood line, as severe as its reader said. -/
def ofLine (issue : LineIssue) : CircuitIssue := ⟨.syntaxError issue, issue.severity⟩

def didNotConverge (passes : Nat) : CircuitIssue := ⟨.didNotConverge (.ofNat passes), .warning⟩

def unknownChipType (id chip : String) : CircuitIssue := ⟨.unknownChipType id chip, .info⟩

def duplicateInstanceId (id : String) : CircuitIssue := ⟨.duplicateInstanceId id, .warning⟩

def notAnInput (id : String) : CircuitIssue := ⟨.notAnInput id, .info⟩

end CircuitIssue

end Breadboard
