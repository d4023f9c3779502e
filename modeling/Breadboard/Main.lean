import Breadboard.CommandLine.Run

/-!
# The command

Prints what a run leaves. The exit code is 0 after a result, 1 after a failure, and 2 when the
command line is not understood.
-/

namespace Breadboard.CommandLine

/-- How the command is used. -/
def usage : String :=
  "usage: breadboard [-c|--catalog FILE].. [--config FILE] [-t|--toggle ID].. [--ticks N] " ++
    "[--json] [-v|--verbose].. PROGRAM"

/-- The text of a file, if it can be read. -/
def readText (path : String) : IO (Option String) := do
  try
    return some (← IO.FS.readFile path)
  catch _ => return none

/-- Print what a run leaves, and give the exit code. -/
def report (outcome : Outcome) : IO UInt32 := do
  IO.eprint outcome.stderr
  IO.print outcome.stdout
  match outcome.failure with
  | none => return 0
  | some failure =>
    IO.eprintln ("Error: " ++ failure.text)
    return 1

end Breadboard.CommandLine

open Breadboard.CommandLine

/-- Run a command line. -/
def main (args : List String) : IO UInt32 := do
  match Arguments.parse? args with
  | some arguments => report (← run readText arguments)
  | none =>
    IO.eprintln usage
    return 2
