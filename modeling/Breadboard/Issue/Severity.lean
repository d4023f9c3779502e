/-!
# Severities and diagnostics

A diagnostic has a text, a severity and perhaps a hint at what to do about it. Severities are
ordered by how much they matter: `info < warning < error`.
-/

namespace Breadboard

/-- How much an issue matters. -/
inductive Severity where
  /-- Worth knowing, such as a skipped line. -/
  | info
  /-- The circuit still works, but perhaps not as intended. -/
  | warning
  /-- The catalog should not be used. -/
  | error
deriving DecidableEq, Repr

namespace Severity

instance : Inhabited Severity := ⟨warning⟩

/-- The place of a severity in the order. -/
def rank : Severity → Nat
  | info => 0
  | warning => 1
  | error => 2

instance : LE Severity := ⟨fun a b => a.rank ≤ b.rank⟩
instance : LT Severity := ⟨fun a b => a.rank < b.rank⟩
instance (a b : Severity) : Decidable (a ≤ b) := inferInstanceAs (Decidable (a.rank ≤ b.rank))
instance (a b : Severity) : Decidable (a < b) := inferInstanceAs (Decidable (a.rank < b.rank))
instance : Max Severity := ⟨fun a b => if a ≤ b then b else a⟩

/-- The word in front of an issue's text. -/
def label : Severity → String
  | info => "info"
  | warning => "warning"
  | error => "error"

/-- The level at which an issue of this severity is logged. -/
def logLevel : Severity → String
  | info => "INFO"
  | warning => "WARN"
  | error => "ERROR"

end Severity

/-- What can be reported to a user. -/
class Diagnostic (α : Type) where
  /-- What happened. -/
  text : α → String
  /-- How much it matters: a warning unless said otherwise. -/
  severity : α → Severity := fun _ => default
  /-- What to do about it. -/
  help : α → Option String := fun _ => none

/-- The line that reports an issue. -/
def Diagnostic.line {α : Type} [Diagnostic α] (issue : α) : String :=
  (severity issue).label ++ ": " ++ text issue ++ "\n"

/-- The line that reports an issue, and a line with its help if it has any. -/
def Diagnostic.notice {α : Type} [Diagnostic α] (issue : α) : String :=
  line issue ++ match help issue with
    | some hint => "  help: " ++ hint ++ "\n"
    | none => ""

end Breadboard
