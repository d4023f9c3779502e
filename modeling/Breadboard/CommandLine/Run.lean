import Breadboard.Chip.Check
import Breadboard.Chip.Standard
import Breadboard.CommandLine.Arguments
import Breadboard.CommandLine.Failure
import Breadboard.CommandLine.Table
import Breadboard.File.Chips
import Breadboard.File.Config

/-!
# Runs

A run merges catalogs over the standard one, checks the result, assembles a program, toggles
switches and ticks the clock, and shows the state that this leaves. What is found on the way goes to
the standard error; nothing goes to the standard output unless the run comes to its end.

Files are read by a function of the caller in a monad of the caller's choice.
-/

namespace Breadboard.CommandLine

/-- What a run leaves. -/
structure Outcome where
  stdout : String := ""
  stderr : String := ""
  failure : Option Failure := none
deriving DecidableEq, Repr

/-- The lines that report issues, each followed by its help if it has any. -/
def notices {α : Type} [Diagnostic α] (issues : IssueSet α) : String :=
  String.join (issues.issues.map Diagnostic.notice)

/-! ## Preparation -/

section Preparation

variable {m : Type → Type} [Monad m] (read : String → m (Option String))

/-- The text of a file. -/
def readFile (path : String) : ExceptT Failure m String := do
  match ← read path with
  | some text => return text
  | none => throw (.unreadable path)

/-- The configuration that the arguments name. -/
def loadConfig (args : Arguments) : ExceptT Failure m Config :=
  match args.config with
  | none => return {}
  | some path => do
    match Config.ofFile? path (← readFile read path) with
    | some config => return config
    | none => throw (.badConfig path)

/-- Merge a catalog file. -/
def loadCatalog (c : Catalog) (path : String) : ExceptT Failure m Catalog := do
  match c.mergeFile (← readFile read path) with
  | .ok (merged, _) => return merged
  | .error _ => throw (.badCatalog path)

/-- The merged catalog, and the options: catalogs of the configuration come first. -/
def prepare (args : Arguments) : ExceptT Failure m (Catalog × SimOptions) := do
  let config ← loadConfig read args
  let catalog ← (config.catalogs ++ args.catalogs).foldlM (loadCatalog read) Standard.catalog
  return (catalog, config.sim)

end Preparation

/-! ## Simulation -/

/-- A simulator with the report of all that was done to it. -/
structure Session where
  sim : Simulator
  log : String

namespace Session

/-- Go on with `sim`, and report its issues. -/
def advance (s : Session) (sim : Simulator) : Session := ⟨sim, s.log ++ notices sim.issues⟩

def toggle (s : Session) (id : String) : Session := s.advance (s.sim.toggle id).1

/-- Tick `n` times. -/
def tick (s : Session) : Nat → Session
  | 0 => s
  | n + 1 => (s.advance s.sim.tick.1).tick n

end Session

/-- Assemble a program, toggle, and tick. -/
def simulate (args : Arguments) (catalog : Catalog) (options : SimOptions) (program : String) :
    Session :=
  let sim : Simulator := { catalog, options }
  let s : Session := ⟨sim, ""⟩
  let s := s.advance (sim.assemble program).1
  (args.toggles.foldl Session.toggle s).tick args.ticks.toNat

/-- The state as the arguments ask for it. -/
def render (args : Arguments) (sim : Simulator) : String :=
  if args.json then Json.pretty (Form.write sim.snapshot) ++ "\n" else table sim

/-- Run a command line. -/
def run {m : Type → Type} [Monad m] (read : String → m (Option String)) (args : Arguments) :
    m Outcome := do
  match ← (prepare read args).run with
  | .error failure => return { failure := some failure }
  | .ok (catalog, options) =>
    let issues := catalog.check
    if issues.hasError then
      return { stderr := notices issues, failure := some .unfitCatalog }
    else
      match ← read args.program with
      | none => return { stderr := notices issues, failure := some (.unreadable args.program) }
      | some program =>
        let s := simulate args catalog options program
        return { stdout := render args s.sim, stderr := notices issues ++ s.log }

end Breadboard.CommandLine
