import Breadboard.Chip.Issue
import Breadboard.Issue.IssueSet

/-!
# The counts of an issue set

An `IssueSet` holds its errors and warnings twice: in the list of its issues and in two counts. Each
operation changes both, so that they never tell different things.

* `IssueSet.Counted`: the counts are those of the list; `Counted.exec`: an operation preserves it;
* `issues_exec`, `issues_run_of_kept`: what an operation, and a run of operations, leaves of the
  issues;
* `maxSeverity_eq_some_iff`, `atLeast_eq_nil_iff`: the highest severity, and what reaches a given
  one;
* **`counts_never_drift`**: all of it, after every run.
-/

namespace Breadboard

/-! ## The order of severities -/

instance : Std.IsLinearOrder Severity where
  le_refl a := Nat.le_refl a.rank
  le_trans _ _ _ := Nat.le_trans
  le_antisymm a b := by cases a <;> cases b <;> decide
  le_total a b := Nat.le_total a.rank b.rank

instance : Std.LawfulOrderMax Severity where
  max_eq_or a b := by cases a <;> cases b <;> decide
  max_le_iff a b c := by cases a <;> cases b <;> cases c <;> decide

theorem Severity.le_error (a : Severity) : a ≤ .error := by
  cases a <;> decide

theorem Severity.not_le_iff {a b : Severity} : ¬a ≤ b ↔ b < a := Nat.not_le

namespace IssueSet

variable {α : Type}

/-! ## Operations -/

/-- One operation on an issue set. -/
inductive Operation (α : Type) where
  | add (issue : α)
  | extend (issues : List α)
  | clear
  /-- Make a new set of the issues. -/
  | collect (issues : List α)

namespace Operation

/-- The issues that the operation brings. -/
def brings : Operation α → List α
  | add issue => [issue]
  | extend issues | collect issues => issues
  | clear => []

/-- Does the operation drop the issues that there are? -/
def drops : Operation α → Bool
  | clear | collect _ => true
  | add _ | extend _ => false

end Operation

variable [Diagnostic α]

/-- The set after an operation. -/
def exec (s : IssueSet α) : Operation α → IssueSet α
  | .add issue => s.add issue
  | .extend issues => s.extend issues
  | .clear => ∅
  | .collect issues => .ofList issues

/-- The set after some operations, one after the other. -/
def run (s : IssueSet α) (operations : List (Operation α)) : IssueSet α := operations.foldl exec s

/-! ## The issues after a run -/

/-- **What an operation leaves of the issues**: those that it does not drop, and then those that it
brings. -/
theorem issues_exec (s : IssueSet α) (o : Operation α) :
    (s.exec o).issues = (if o.drops then [] else s.issues) ++ o.brings := by
  cases o with
  | add issue => exact issues_add s issue
  | extend issues => exact issues_extend s issues
  | clear => rfl
  | collect issues => exact issues_ofList issues

/-- A run that drops nothing adds what its operations bring. -/
theorem issues_run_of_kept (operations : List (Operation α)) : ∀ s : IssueSet α,
    (∀ o ∈ operations, o.drops = false) →
      (s.run operations).issues = s.issues ++ operations.flatMap Operation.brings := by
  induction operations with
  | nil => exact fun s _ => (List.append_nil s.issues).symm
  | cons o rest ih =>
    intro s hkept
    have hown : (s.exec o).issues = s.issues ++ o.brings := by
      rw [issues_exec, hkept o List.mem_cons_self]
      rfl
    have hrest := ih (s.exec o) fun p hp => hkept p (List.mem_cons_of_mem o hp)
    rw [hown, List.append_assoc] at hrest
    exact hrest

/-- After the last operation that drops the issues there are those that came with it and later. -/
theorem issues_run_of_dropped {earlier later : List (Operation α)} {o : Operation α}
    (s : IssueSet α) (hdrops : o.drops = true) (hkept : ∀ p ∈ later, p.drops = false) :
    (s.run (earlier ++ o :: later)).issues = o.brings ++ later.flatMap Operation.brings := by
  have hsplit : s.run (earlier ++ o :: later) = ((s.run earlier).exec o).run later := by
    unfold run
    rw [List.foldl_append, List.foldl_cons]
  rw [hsplit, issues_run_of_kept later _ hkept, issues_exec, hdrops]
  rfl

/-! ## The counts -/

/-- The counts are those of the issues. -/
structure Counted (s : IssueSet α) : Prop where
  errors : s.errors = s.issues.countP fun issue => Diagnostic.severity issue = .error
  warnings : s.warnings = s.issues.countP fun issue => Diagnostic.severity issue = .warning

theorem counted_empty : (∅ : IssueSet α).Counted := ⟨rfl, rfl⟩

theorem Counted.add {s : IssueSet α} (h : s.Counted) (issue : α) : (s.add issue).Counted := by
  constructor
  · rw [issues_add, List.countP_append, ← h.errors, List.countP_singleton]
    simp only [IssueSet.add, decide_eq_true_eq]
  · rw [issues_add, List.countP_append, ← h.warnings, List.countP_singleton]
    simp only [IssueSet.add, decide_eq_true_eq]

theorem Counted.extend (issues : List α) : ∀ {s : IssueSet α}, s.Counted →
    (s.extend issues).Counted := by
  induction issues with
  | nil => exact fun h => h
  | cons issue rest ih => exact fun h => ih (h.add issue)

/-- **An operation keeps the counts right.** -/
theorem Counted.exec {s : IssueSet α} (h : s.Counted) (o : Operation α) : (s.exec o).Counted := by
  cases o with
  | add issue => exact h.add issue
  | extend issues => exact h.extend issues
  | clear => exact counted_empty
  | collect issues => exact counted_empty.extend issues

theorem Counted.run (operations : List (Operation α)) : ∀ {s : IssueSet α}, s.Counted →
    (s.run operations).Counted := by
  induction operations with
  | nil => exact fun h => h
  | cons o rest ih => exact fun h => ih (h.exec o)

/-! ## Severities -/

theorem maxSeverity_eq_none_iff {s : IssueSet α} : s.maxSeverity = none ↔ s.issues = [] := by
  rw [maxSeverity, List.max?_eq_none_iff, List.map_eq_nil_iff]

/-- **The highest severity** is that of some issue, and no issue has a higher one. -/
theorem maxSeverity_eq_some_iff {s : IssueSet α} {level : Severity} :
    s.maxSeverity = some level ↔ (∃ issue ∈ s.issues, Diagnostic.severity issue = level) ∧
      ∀ issue ∈ s.issues, Diagnostic.severity issue ≤ level := by
  rw [maxSeverity, List.max?_eq_some_iff, List.mem_map, List.forall_mem_map]

/-- The count of errors tells whether the highest severity is that of an error. -/
theorem Counted.hasError_iff {s : IssueSet α} (h : s.Counted) :
    s.hasError = true ↔ s.maxSeverity = some .error := by
  rw [hasError, bne_iff_ne, h.errors, ← Nat.pos_iff_ne_zero, List.countP_pos_iff,
    maxSeverity_eq_some_iff]
  simp only [decide_eq_true_eq]
  exact ⟨fun herror => ⟨herror, fun issue _ => (Diagnostic.severity issue).le_error⟩, And.left⟩

theorem mem_atLeast {s : IssueSet α} {level : Severity} {issue : α} :
    issue ∈ s.atLeast level ↔ issue ∈ s.issues ∧ level ≤ Diagnostic.severity issue := by
  rw [atLeast, List.mem_filter, decide_eq_true_eq]

/-- What reaches a severity has every sublist of the issues that does. -/
theorem sublist_atLeast {s : IssueSet α} {level : Severity} {l : List α} (hsub : l.Sublist s.issues)
    (hl : ∀ issue ∈ l, level ≤ Diagnostic.severity issue) : l.Sublist (s.atLeast level) := by
  have hall : (l.filter fun issue => level ≤ Diagnostic.severity issue) = l :=
    List.filter_eq_self.2 fun issue hissue => decide_eq_true (hl issue hissue)
  rw [← hall]
  exact hsub.filter _

/-- Nothing reaches a severity iff the highest one is below it, or there is none. -/
theorem atLeast_eq_nil_iff {s : IssueSet α} {level : Severity} :
    s.atLeast level = [] ↔ ∀ highest, s.maxSeverity = some highest → highest < level := by
  rw [List.eq_nil_iff_forall_not_mem]
  simp only [mem_atLeast, not_and, Severity.not_le_iff]
  constructor
  · intro hbelow highest hmax
    obtain ⟨⟨issue, hissue, rfl⟩, -⟩ := maxSeverity_eq_some_iff.1 hmax
    exact hbelow issue hissue
  · intro hbelow issue hissue
    cases hmax : s.maxSeverity with
    | none =>
      rw [maxSeverity_eq_none_iff.1 hmax] at hissue
      exact absurd hissue List.not_mem_nil
    | some highest =>
      exact Nat.lt_of_le_of_lt ((maxSeverity_eq_some_iff.1 hmax).2 issue hissue)
        (hbelow highest hmax)

/-! ## All of it -/

/-- **The counts of an issue set never drift.** After any operations, one after the other, the
counts are the numbers of the errors and of the warnings in the set. The issues are those that came
since the last operation that drops issues (since the beginning if there was none), each once and in
order. There is an error by the count iff the highest severity is that of an error; the highest
severity is the maximum over the issues, and there is none iff the set is empty. The issues that
reach a severity are the greatest sublist of the issues in which all do, and there are none iff the
highest severity is below that one or absent. -/
theorem counts_never_drift (operations : List (Operation α)) :
    let s := (∅ : IssueSet α).run operations
    (s.errors = s.issues.countP (fun issue => Diagnostic.severity issue = .error) ∧
      s.warnings = s.issues.countP fun issue => Diagnostic.severity issue = .warning) ∧
    ((∀ o ∈ operations, o.drops = false) → s.issues = operations.flatMap Operation.brings) ∧
    (∀ earlier o later, operations = earlier ++ o :: later → o.drops = true →
      (∀ p ∈ later, p.drops = false) →
        s.issues = o.brings ++ later.flatMap Operation.brings) ∧
    (s.hasError = true ↔ s.maxSeverity = some .error) ∧
    (s.maxSeverity = none ↔ s.issues = []) ∧
    (∀ level, s.maxSeverity = some level ↔
      (∃ issue ∈ s.issues, Diagnostic.severity issue = level) ∧
        ∀ issue ∈ s.issues, Diagnostic.severity issue ≤ level) ∧
    ∀ level,
      (s.atLeast level).Sublist s.issues ∧
      (∀ issue ∈ s.atLeast level, level ≤ Diagnostic.severity issue) ∧
      (∀ l : List α, l.Sublist s.issues → (∀ issue ∈ l, level ≤ Diagnostic.severity issue) →
        l.Sublist (s.atLeast level)) ∧
      (s.atLeast level = [] ↔ ∀ highest, s.maxSeverity = some highest → highest < level) := by
  intro s
  have hcounted : s.Counted := counted_empty.run operations
  refine ⟨⟨hcounted.errors, hcounted.warnings⟩, fun hkept => ?_,
    fun earlier o later hsplit hdrops hkept => ?_, hcounted.hasError_iff, maxSeverity_eq_none_iff,
    fun level => maxSeverity_eq_some_iff, fun level => ⟨List.filter_sublist, fun issue hissue => ?_,
      fun l => sublist_atLeast, atLeast_eq_nil_iff⟩⟩
  · exact issues_run_of_kept operations ∅ hkept
  · change (run ∅ operations).issues = _
    rw [hsplit]
    exact issues_run_of_dropped ∅ hdrops hkept
  · exact (mem_atLeast.1 hissue).2

end IssueSet

/-- An error that is cleared again, and then two warnings around another error. -/
def clearedReports : List (IssueSet.Operation CatalogIssue) :=
  [.collect [⟨.cyclicDefinition ["A", "A"], .error⟩], .clear,
    .extend [⟨.unknownInputPin "A" "X", .warning⟩, ⟨.danglingMapping "A" "Y" "n", .error⟩],
    .add ⟨.unknownInputPin "A" "X", .warning⟩]

/-- The error that was cleared is neither counted nor kept, and equal warnings are counted twice. -/
theorem counts_never_drift_clearedReports :
    let s := (∅ : IssueSet CatalogIssue).run clearedReports
    s.issues = [⟨.unknownInputPin "A" "X", .warning⟩, ⟨.danglingMapping "A" "Y" "n", .error⟩,
      ⟨.unknownInputPin "A" "X", .warning⟩] ∧
      s.errors = 1 ∧ s.warnings = 2 ∧ s.hasError = true ∧ s.maxSeverity = some .error ∧
      s.atLeast .error ≠ [] := by
  intro s
  obtain ⟨⟨herrors, hwarnings⟩, -, hsince, herror, -, hmax, hatLeast⟩ :=
    IssueSet.counts_never_drift clearedReports
  have hissues := hsince [.collect [⟨.cyclicDefinition ["A", "A"], .error⟩]] .clear
    [.extend [⟨.unknownInputPin "A" "X", .warning⟩, ⟨.danglingMapping "A" "Y" "n", .error⟩],
      .add ⟨.unknownInputPin "A" "X", .warning⟩] rfl rfl (by simp [IssueSet.Operation.drops])
  rw [hissues] at herrors hwarnings hmax
  have hhighest : s.maxSeverity = some .error := (hmax .error).2 (by decide)
  refine ⟨hissues, herrors, hwarnings, herror.2 hhighest, hhighest, fun hnone => ?_⟩
  exact absurd ((hatLeast .error).2.2.2.1 hnone .error hhighest) (by decide)

end Breadboard
