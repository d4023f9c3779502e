import Breadboard.Chip.Basic
import Breadboard.Chip.Catalog
import Breadboard.Chip.Check
import Breadboard.Chip.Issue
import Breadboard.Chip.Merge
import Breadboard.Chip.Standard
import Breadboard.Circuit.Blueprint
import Breadboard.Circuit.Clock
import Breadboard.Circuit.InputOrder
import Breadboard.Circuit.Instance
import Breadboard.Circuit.Issue
import Breadboard.Circuit.Netlist
import Breadboard.Circuit.Pass
import Breadboard.Circuit.PinAssignment
import Breadboard.Circuit.Settle
import Breadboard.Circuit.Snapshot
import Breadboard.CommandLine.Arguments
import Breadboard.CommandLine.Failure
import Breadboard.CommandLine.Run
import Breadboard.CommandLine.Table
import Breadboard.Datum.Basic
import Breadboard.Datum.Binary64
import Breadboard.Datum.Json.Parse
import Breadboard.Datum.Json.Token
import Breadboard.Datum.Json.Write
import Breadboard.Datum.Reading
import Breadboard.Datum.Toml.Parse
import Breadboard.Datum.Toml.Scalar
import Breadboard.Datum.Toml.Table
import Breadboard.Datum.Toml.Token
import Breadboard.Datum.Toml.Tree
import Breadboard.Datum.Toml.Value
import Breadboard.File.Basic
import Breadboard.File.Chips
import Breadboard.File.Config
import Breadboard.File.Path
import Breadboard.Form.Basic
import Breadboard.Form.Chip
import Breadboard.Form.Circuit
import Breadboard.Form.Issue
import Breadboard.Form.Program
import Breadboard.Issue.IssueSet
import Breadboard.Issue.Severity
import Breadboard.Main
import Breadboard.NameMap
import Breadboard.Program.Basic
import Breadboard.Program.Issue
import Breadboard.Program.Reader
import Breadboard.Program.Writer
import Breadboard.Proofs.Alike
import Breadboard.Proofs.Command
import Breadboard.Proofs.Convergence
import Breadboard.Proofs.Equations
import Breadboard.Proofs.InputOrder
import Breadboard.Proofs.Kept
import Breadboard.Proofs.Level
import Breadboard.Proofs.Order
import Breadboard.Proofs.Pass
import Breadboard.Proofs.Pins
import Breadboard.Proofs.Place
import Breadboard.Proofs.Plain
import Breadboard.Proofs.Resettle
import Breadboard.Proofs.Rest
import Breadboard.Proofs.Scope
import Breadboard.Proofs.Shape
import Breadboard.Proofs.Stimulus
import Breadboard.Proofs.Stray
import Breadboard.Proofs.Uniqueness
import Breadboard.Simulator
import Breadboard.Text.Blank
import Breadboard.Text.Hex
import Breadboard.Text.Line
import Breadboard.Text.Numeral
import Breadboard.Text.Quoted
import Breadboard.Text.Shape
import Breadboard.Text.Upper
import Breadboard.Proofs.Frame
import Breadboard.Proofs.Tick
import Breadboard.Proofs.Primed
import Breadboard.Proofs.Restored
import Breadboard.Proofs.Containment
import Breadboard.Proofs.Inline
import Breadboard.Proofs.InlineRest
import Breadboard.Proofs.InlineLevel
import Breadboard.Proofs.Flatten
import Breadboard.Proofs.Cycles
import Breadboard.Proofs.Written
import Breadboard.Proofs.Exported
import Breadboard.Proofs.Resaved
import Breadboard.Proofs.Blueprint
import Breadboard.Proofs.Stored
import Breadboard.Proofs.HiddenState
import Breadboard.Proofs.Restriction
import Breadboard.Proofs.Upstream
import Breadboard.Proofs.OutputPins
import Breadboard.Proofs.Overlay
import Breadboard.Proofs.Structure
import Breadboard.Proofs.Bookkeeping
import Breadboard.Proofs.OutPin
import Breadboard.Proofs.Held
import Breadboard.Proofs.Recomputed
import Breadboard.Proofs.WellFormed
import Breadboard.Proofs.Forms
import Breadboard.Proofs.Registers
import Breadboard.Proofs.Drivers
import Breadboard.Proofs.Reported
import Breadboard.Proofs.FirstDeclared
import Breadboard.Proofs.Loading
import Breadboard.Proofs.LineByLine
import Breadboard.Proofs.Switches
import Breadboard.Proofs.Taps
import Breadboard.Proofs.LooseEnds
import Breadboard.Proofs.Limits
import Breadboard.Proofs.Oscillation
import Breadboard.Proofs.OpenCircuit
import Breadboard.Proofs.SwitchOrder
import Breadboard.Proofs.Tally
import Breadboard.Proofs.FirstFree
import Breadboard.Proofs.ChangeFlag
import Breadboard.Proofs.Plan
