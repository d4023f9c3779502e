import Breadboard.Simulator

/-!
# The state as a table

The first line has the clock. Then comes a line for each instance at the top, with its id, its type,
its bit and, for a composite, its named outputs.
-/

namespace Breadboard.CommandLine

/-- A text, filled up with blanks to a width. -/
def padded (width : Nat) (s : String) : String :=
  s ++ String.ofList (List.replicate (width - s.length) ' ')

/-- A bit as a digit. -/
def digit : Bool → String
  | false => "0"
  | true => "1"

/-- The named outputs of an instance. -/
def outputColumns (i : Instance) : String :=
  String.join (i.signals.outputs.entries.map fun (pin, bit) => " " ++ pin ++ "=" ++ digit bit)

/-- The line of an instance. -/
def row (i : Instance) : String :=
  padded 12 i.id ++ " " ++ padded 16 i.chip ++ " " ++ digit i.value ++
    (if i.isComposite then outputColumns i else "") ++ "\n"

/-- The state of a simulator as a table. -/
def table (sim : Simulator) : String :=
  "clock: " ++ Text.showNat sim.clock.toNat ++ "\n" ++ String.join (sim.instances.map row)

end Breadboard.CommandLine
