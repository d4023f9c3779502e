import Breadboard.Circuit.Clock
import Breadboard.Circuit.Netlist
import Breadboard.Circuit.Settle
import Breadboard.Circuit.Snapshot
import Breadboard.Program.Reader

/-!
# The simulator

A `Simulator` holds one netlist over a catalog. Each operation that touches the netlist settles it
afterwards, and the issues are always those of the last operation that can have any.

* `assemble`, `assembleProgram`: replace the netlist and set the clock to 0;
* `toggle`: flip a switch;
* `tick`: let every flip-flop take its next value;
* `restore`: replace the netlist by a saved one, clock included;
* `settleAgain`: only settle.
-/

namespace Breadboard

/-- How circuits are settled. -/
structure SimOptions where
  /-- The most passes in one settling; 0 counts as 1. -/
  maxPasses : UInt64 := 100
deriving DecidableEq, Repr

/-- A circuit under simulation. -/
structure Simulator where
  catalog : Catalog
  options : SimOptions := {}
  netlist : Netlist := {}
  /-- The number of clock edges since the netlist was assembled. -/
  clock : UInt64 := 0
  issues : IssueSet CircuitIssue := ∅
  /-- How the circuit settled last, if it ever did. -/
  lastReport : Option SettleReport := none

namespace Simulator

def instances (sim : Simulator) : List Instance := sim.netlist.instances

def wires (sim : Simulator) : List Wire := sim.netlist.wires

/-- The first instance at the top with the given id. -/
def instance? (sim : Simulator) (id : String) : Option Instance := findInstance? sim.instances id

/-- The main output of an instance at the top. -/
def value? (sim : Simulator) (id : String) : Option Bool := (sim.instance? id).map Instance.value

/-- A named output of an instance at the top. -/
def output? (sim : Simulator) (id pin : String) : Option Bool :=
  (sim.instance? id).map fun i => i.output pin

/-- The ids of the switches at the top, in order. -/
def inputIds (sim : Simulator) : List String :=
  (sim.instances.filter Instance.isInput).map Instance.id

/-- The program of the netlist at the top. -/
def toProgram (sim : Simulator) : Program := sim.netlist.toProgram

/-- The state of the circuit. -/
def snapshot (sim : Simulator) : Snapshot := ⟨sim.clock, saveAll sim.instances, sim.wires⟩

/-! ## Operations -/

/-- Settle the netlist and report it if it does not settle, next to the issues there are. -/
def runSettle (sim : Simulator) : Simulator × SettleReport :=
  let (instances, report) :=
    settle sim.catalog sim.wires sim.options.maxPasses.toNat sim.instances
  ({ sim with
      netlist := { sim.netlist with instances }
      issues := if report.converged then sim.issues
        else sim.issues.add (.didNotConverge report.passes)
      lastReport := some report },
    report)

/-- Replace the netlist by that of a program, next to the issues there are. -/
def load (sim : Simulator) (program : Program) : Simulator × SettleReport :=
  runSettle { sim with
    netlist := .ofProgram sim.catalog program
    clock := 0
    issues := sim.issues.extend (Netlist.issues sim.catalog program) }

/-- Replace the netlist by that of a program. -/
def assembleProgram (sim : Simulator) (program : Program) : Simulator × SettleReport :=
  load { sim with issues := ∅ } program

/-- Replace the netlist by that of a text. -/
def assemble (sim : Simulator) (text : String) : Simulator × SettleReport :=
  let parsed := Program.parse text
  load { sim with issues := .ofList (parsed.issues.issues.map .ofLine) } parsed.program

/-- Settle the circuit as it is. -/
def settleAgain (sim : Simulator) : Simulator × SettleReport :=
  runSettle { sim with issues := ∅ }

/-- Let every flip-flop take its next value, and settle. -/
def tick (sim : Simulator) : Simulator × SettleReport :=
  runSettle { sim with
    netlist := { sim.netlist with instances := (commitAll sim.instances).1 }
    clock := sim.clock + 1
    issues := ∅ }

/-- Flip the first instance with the given id, if it is a switch, and settle. -/
def toggle (sim : Simulator) (id : String) : Simulator × Option SettleReport :=
  match (sim.instance? id).filter Instance.isInput with
  | some _ =>
    let (sim, report) := runSettle { sim with
      netlist := { sim.netlist with
        instances := updateInstance sim.instances id fun i => i.drive (!i.value) }
      issues := ∅ }
    (sim, some report)
  | none => ({ sim with issues := .ofList [.notAnInput id] }, none)

/-- Say whether the inside of an instance is drawn. Tells whether there is such an instance. -/
def setExpanded (sim : Simulator) (id : String) (expanded : Bool) : Simulator × Bool :=
  ({ sim with
      netlist := { sim.netlist with
        instances := updateInstance sim.instances id fun i => { i with expanded } } },
    (sim.instance? id).isSome)

/-- Replace the circuit by a saved one, built from this catalog, and settle. -/
def restore (sim : Simulator) (saved : Snapshot) : Simulator × SettleReport :=
  runSettle { sim with
    netlist := ⟨saved.instances.map (InstanceSnapshot.restore sim.catalog), saved.wires⟩
    clock := saved.clock
    issues := ∅ }

end Simulator

end Breadboard
