import Breadboard.Issue.Severity

/-!
# Collections of issues

An `IssueSet` keeps issues in the order in which they were added, equal ones included, and counts
its errors and warnings as they come, so that neither count needs another look at the issues.
-/

namespace Breadboard

/-- Issues in the order in which they were added, with the number of errors and warnings. -/
structure IssueSet (α : Type) where
  issues : List α
  errors : Nat
  warnings : Nat
deriving Repr

namespace IssueSet

variable {α : Type}

/-- The set without issues. -/
def empty : IssueSet α := ⟨[], 0, 0⟩

instance : EmptyCollection (IssueSet α) := ⟨empty⟩
instance : Inhabited (IssueSet α) := ⟨empty⟩

/-- The number of issues. -/
def size (s : IssueSet α) : Nat := s.issues.length

def isEmpty (s : IssueSet α) : Bool := s.issues.isEmpty

variable [Diagnostic α]

/-- Add an issue at the end and count it. -/
def add (s : IssueSet α) (issue : α) : IssueSet α where
  issues := s.issues ++ [issue]
  errors := s.errors + if Diagnostic.severity issue = .error then 1 else 0
  warnings := s.warnings + if Diagnostic.severity issue = .warning then 1 else 0

/-- Add the issues of `l` in order. -/
def extend (s : IssueSet α) (l : List α) : IssueSet α := l.foldl add s

/-- The set of the issues of `l`, in order. -/
def ofList (l : List α) : IssueSet α := extend ∅ l

def hasError (s : IssueSet α) : Bool := s.errors != 0

def hasWarning (s : IssueSet α) : Bool := s.warnings != 0

/-- The highest severity of an issue, if there is one. -/
def maxSeverity (s : IssueSet α) : Option Severity :=
  (s.issues.map Diagnostic.severity).max?

/-- The issues that matter at least as much as `severity`, in order. -/
def atLeast (s : IssueSet α) (severity : Severity) : List α :=
  s.issues.filter fun issue => severity ≤ Diagnostic.severity issue

/-- One line for each issue. -/
def report (s : IssueSet α) : String :=
  String.join (s.issues.map Diagnostic.line)

/-! ## Lemmas -/

@[simp] theorem issues_add (s : IssueSet α) (issue : α) :
    (s.add issue).issues = s.issues ++ [issue] := rfl

@[simp] theorem issues_extend (s : IssueSet α) (l : List α) :
    (s.extend l).issues = s.issues ++ l := by
  induction l generalizing s with
  | nil => simp [extend]
  | cons x l ih =>
    rw [extend, List.foldl_cons, ← extend, ih]
    simp

@[simp] theorem issues_ofList (l : List α) : (ofList l).issues = l :=
  issues_extend ∅ l

/-- Every error is counted. -/
theorem errors_extend (s : IssueSet α) (l : List α) :
    (s.extend l).errors =
      s.errors + l.countP fun issue => Diagnostic.severity issue = .error := by
  induction l generalizing s with
  | nil => simp [extend]
  | cons x l ih =>
    rw [extend, List.foldl_cons, ← extend, ih, List.countP_cons]
    simp only [add, decide_eq_true_eq]
    omega

/-- There is an error iff one is counted. -/
theorem hasError_ofList_iff {l : List α} :
    (ofList l).hasError = true ↔ ∃ issue ∈ l, Diagnostic.severity issue = .error := by
  have hcount : (ofList l).errors = 0 + l.countP fun issue => Diagnostic.severity issue = .error :=
    errors_extend ∅ l
  rw [hasError, bne_iff_ne, hcount, Nat.zero_add, ← Nat.pos_iff_ne_zero, List.countP_pos_iff]
  simp only [decide_eq_true_eq]

end IssueSet

end Breadboard
