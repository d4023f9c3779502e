import Breadboard.Issue.Severity
import Breadboard.Text.Numeral

/-!
# What a reader of programs reports
-/

namespace Breadboard

/-- Why a line was not fully understood. -/
inductive LineProblem where
  /-- Too few words for any statement. The line is skipped. -/
  | tooFewTokens (text : String)
  /-- Coordinates that are not two integers. The instance has no position. -/
  | invalidCoordinates (text : String)
deriving DecidableEq, Repr

/-- A line, counted from 1, that was not fully understood. -/
structure LineIssue where
  line : UInt64
  cause : LineProblem
  severity : Severity
deriving DecidableEq, Repr

def LineProblem.text : LineProblem → String
  | tooFewTokens text => "skipped line `" ++ text ++ "`: too few tokens"
  | invalidCoordinates text =>
    "invalid coordinates in `" ++ text ++
      "`: expected two integers; the instance has no position"

instance : Diagnostic LineIssue where
  text issue := "line " ++ Text.showNat issue.line.toNat ++ ": " ++ issue.cause.text
  severity := LineIssue.severity

end Breadboard
