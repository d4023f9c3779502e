import Breadboard.Chip.Standard
import Breadboard.Proofs.Command

/-!
# The books of a simulator

Besides its circuit a simulator keeps a clock, the issues of the last operation and the report of
the last settling. Every operation that settles begins them anew: it clears the issues, enters its
own findings, sets or advances the clock, settles, and enters how that went
(`exec_eq_runSettle`). So nothing in the books is left over from an earlier operation, whatever went
well or wrong before.

* `passes_settleFrom`: how many passes a settling makes, and that it gives up only at the limit;
* `clock_run`: over a run that builds no circuit, the clock counts the clock edges;
* `books_of_report?`: what an operation that returns a report enters;
* **`books_are_kept`**: all of it, after every run.
-/

namespace Breadboard

/-! ## The number of passes -/

/-- **How many passes a settling makes**: at least one more, at most `n` others, and all of them if
it does not converge. -/
theorem passes_settleFrom (catalog : Catalog) (wires : List Wire) (n : Nat) :
    ∀ (done : Nat) (scope : List Instance),
      let report := (settleFrom catalog wires done n scope).2
      done + 1 ≤ report.passes ∧ report.passes ≤ done + n + 1 ∧
        (report.converged = false → report.passes = done + n + 1) := by
  induction n with
  | zero =>
    intro done scope
    exact ⟨Nat.le_refl _, Nat.le_refl _, fun _ => rfl⟩
  | succ n ih =>
    intro done scope
    cases hq : (passAll catalog wires ∅ scope).2 with
    | false =>
      rw [settleFrom_of_quiet done (n + 1) hq]
      exact ⟨Nat.le_refl _, by simp only; omega, fun h => absurd h (by simp)⟩
    | true =>
      rw [settleFrom_of_busy done n hq]
      obtain ⟨hlow, hhigh, hgave⟩ := ih (done + 1) (passAll catalog wires ∅ scope).1
      refine ⟨by omega, by omega, fun h => ?_⟩
      rw [hgave h]
      omega

theorem passes_settle (catalog : Catalog) (wires : List Wire) (limit : Nat)
    (scope : List Instance) :
    let report := (settle catalog wires limit scope).2
    1 ≤ report.passes ∧ report.passes ≤ max 1 limit ∧
      (report.converged = false → report.passes = max 1 limit) := by
  obtain ⟨hlow, hhigh, hgave⟩ := passes_settleFrom catalog wires (limit - 1) 0 scope
  have hlimit : 0 + (limit - 1) + 1 = max 1 limit := by omega
  rw [hlimit] at hhigh hgave
  exact ⟨hlow, hhigh, hgave⟩

/-! ## What an operation enters -/

namespace Command

/-- The report that an operation returns. -/
def report? (sim : Simulator) : Command → Option SettleReport
  | assemble text => some (sim.assemble text).2
  | assembleProgram program => some (sim.assembleProgram program).2
  | toggle id => (sim.toggle id).2
  | tick => some sim.tick.2
  | settle => some sim.settleAgain.2
  | expand _ _ => none
  | restore saved => some (sim.restore saved).2

/-- What an operation reports about the program that it lays out. -/
def findings (catalog : Catalog) : Command → List CircuitIssue
  | assemble text =>
    (Program.parse text).issues.issues.map .ofLine ++
      Netlist.issues catalog (Program.parse text).program
  | assembleProgram program => Netlist.issues catalog program
  | _ => []

/-- What an operation sets the clock to. -/
def start? : Command → Option UInt64
  | assemble _ | assembleProgram _ => some 0
  | restore saved => some saved.clock
  | _ => none

/-- Is it a clock edge? -/
def isTick : Command → Bool
  | tick => true
  | _ => false

/-- The clock after an operation. -/
def clockAfter (clock : UInt64) (c : Command) : UInt64 :=
  c.start?.getD (if c.isTick then clock + 1 else clock)

end Command

theorem IssueSet.extend_ofList {α : Type} [Diagnostic α] (l l' : List α) :
    (ofList l).extend l' = ofList (l ++ l') :=
  List.foldl_append.symm

theorem IssueSet.add_ofList {α : Type} [Diagnostic α] (l : List α) (issue : α) :
    (ofList l).add issue = ofList (l ++ [issue]) :=
  (extend_ofList l [issue])

/-- The simulator that an operation settles. -/
def Simulator.begun (sim : Simulator) (c : Command) (netlist : Netlist) : Simulator :=
  { sim with netlist, clock := c.clockAfter sim.clock, issues := .ofList (c.findings sim.catalog) }

/-- **An operation that settles** begins new books, with its findings, before it does. -/
theorem exec_eq_runSettle {sim : Simulator} {c : Command} {netlist : Netlist}
    (h : c.netlist? sim = some netlist) :
    c.exec sim = (sim.begun c netlist).runSettle.1 ∧
      c.report? sim = some (sim.begun c netlist).runSettle.2 := by
  cases c with
  | expand id expanded => exact absurd h (by simp [Command.netlist?])
  | toggle id =>
    obtain ⟨i, hi, rfl⟩ := Option.map_eq_some_iff.1 h
    have htoggle : toggleInput sim.instances id =
        updateInstance sim.instances id fun i => i.drive (!i.value) := toggleInput_of_some hi
    simp only [Command.exec, Command.report?, Simulator.toggle, hi, htoggle]
    exact ⟨rfl, rfl⟩
  | assemble text =>
    cases h
    simp only [Command.exec, Command.report?, Simulator.assemble, Simulator.load,
      IssueSet.extend_ofList]
    exact ⟨rfl, rfl⟩
  | assembleProgram | tick | settle | restore =>
    cases h
    exact ⟨rfl, rfl⟩

theorem report?_of_not_netlist? {sim : Simulator} {c : Command} (h : c.netlist? sim = none) :
    c.report? sim = none := by
  cases c with
  | expand id expanded => rfl
  | toggle id =>
    have hi : (sim.instance? id).filter Instance.isInput = none := Option.map_eq_none_iff.1 h
    simp only [Command.report?, Simulator.toggle, hi]
  | assemble | assembleProgram | tick | settle | restore =>
    exact absurd h (by simp [Command.netlist?])

/-- Is the issue that a circuit did not settle? -/
def CircuitIssue.isUnsettled (issue : CircuitIssue) : Bool :=
  match issue.cause with
  | .didNotConverge _ => true
  | _ => false

theorem isUnsettled_issues {catalog : Catalog} {program : Program} {issue : CircuitIssue}
    (h : issue ∈ Netlist.issues catalog program) : issue.isUnsettled = false := by
  rcases Netlist.mem_issuesFrom h with ⟨id, rfl⟩ | ⟨id, chip, rfl⟩
  · rfl
  · rfl

/-- No finding about a program says that a circuit did not settle. -/
theorem isUnsettled_findings {catalog : Catalog} {c : Command} {issue : CircuitIssue}
    (h : issue ∈ c.findings catalog) : issue.isUnsettled = false := by
  cases c with
  | assemble text =>
    rcases List.mem_append.1 h with h | h
    · obtain ⟨line, -, rfl⟩ := List.mem_map.1 h
      rfl
    · exact isUnsettled_issues h
  | assembleProgram program => exact isUnsettled_issues h
  | toggle | tick | settle | expand | restore => exact absurd h List.not_mem_nil

/-- The books after an operation with certain findings that returned a report. -/
structure Simulator.Books (sim : Simulator) (findings : List CircuitIssue)
    (report : SettleReport) : Prop where
  /-- The report is the one that is asked for later. -/
  last : sim.lastReport = some report
  passes_pos : 1 ≤ report.passes
  passes_le : report.passes ≤ max 1 sim.options.maxPasses.toNat
  passes_eq : report.converged = false → report.passes = max 1 sim.options.maxPasses.toNat
  /-- The issues are the findings, and that the circuit did not settle if it did not. -/
  issues : sim.issues =
    .ofList (findings ++ if report.converged then [] else [.didNotConverge report.passes])
  /-- Of the issues that a circuit did not settle there is one, if it did not, and else none. -/
  unsettled : sim.issues.issues.filter CircuitIssue.isUnsettled =
    if report.converged then [] else [.didNotConverge report.passes]
  /-- It tells the number of passes. -/
  told : ∀ issue ∈ sim.issues.issues, ∀ n : UInt64, issue.cause = .didNotConverge n →
    n.toNat = report.passes

/-- **What an operation that returns a report enters into the books.** -/
theorem books_of_report? {sim : Simulator} {c : Command} {report : SettleReport}
    (h : c.report? sim = some report) :
    (c.exec sim).Books (c.findings sim.catalog) report := by
  cases hlaid : c.netlist? sim with
  | none =>
    rw [report?_of_not_netlist? hlaid] at h
    exact absurd h (by simp)
  | some netlist =>
    obtain ⟨hexec, hreport⟩ := exec_eq_runSettle hlaid
    obtain rfl : (sim.begun c netlist).runSettle.2 = report :=
      Option.some.inj (hreport.symm.trans h)
    obtain ⟨hlow, hhigh, hgave⟩ := passes_settle sim.catalog netlist.wires
      sim.options.maxPasses.toNat netlist.instances
    rw [hexec]
    set report := (sim.begun c netlist).runSettle.2 with hdef
    have hissues : (sim.begun c netlist).runSettle.1.issues = .ofList (c.findings sim.catalog ++
        if report.converged then [] else [.didNotConverge report.passes]) := by
      change (if report.converged then IssueSet.ofList (c.findings sim.catalog)
        else (IssueSet.ofList (c.findings sim.catalog)).add (.didNotConverge report.passes)) = _
      cases report.converged with
      | true => simp
      | false => simp [IssueSet.add_ofList]
    have hown : (c.findings sim.catalog).filter CircuitIssue.isUnsettled = [] :=
      List.filter_eq_nil_iff.2 fun issue hissue => by simp [isUnsettled_findings hissue]
    have hunsettled : (sim.begun c netlist).runSettle.1.issues.issues.filter
        CircuitIssue.isUnsettled =
          if report.converged then [] else [.didNotConverge report.passes] := by
      rw [hissues, IssueSet.issues_ofList, List.filter_append, hown, List.nil_append]
      cases report.converged with
      | true => rfl
      | false => rfl
    refine ⟨rfl, hlow, hhigh, hgave, hissues, hunsettled, fun issue hissue n hn => ?_⟩
    have hmem : issue ∈ (sim.begun c netlist).runSettle.1.issues.issues.filter
        CircuitIssue.isUnsettled :=
      List.mem_filter.2 ⟨hissue, by simp [CircuitIssue.isUnsettled, hn]⟩
    rw [hunsettled] at hmem
    cases hc : report.converged with
    | true => simp [hc] at hmem
    | false =>
      simp only [hc, Bool.false_eq_true, if_false, List.mem_singleton] at hmem
      subst hmem
      obtain rfl : UInt64.ofNat report.passes = n := CircuitProblem.didNotConverge.inj hn
      have hbound : max 1 sim.options.maxPasses.toNat < 2 ^ 64 := by
        have := sim.options.maxPasses.toNat_lt
        omega
      exact UInt64.toNat_ofNat_of_lt' (Nat.lt_of_le_of_lt hhigh hbound)

/-! ## The clock -/

theorem clock_exec (sim : Simulator) (c : Command) :
    (c.exec sim).clock = c.clockAfter sim.clock := by
  cases hlaid : c.netlist? sim with
  | some netlist =>
    rw [(exec_eq_runSettle hlaid).1]
    rfl
  | none =>
    cases c with
    | expand id expanded => rfl
    | toggle id =>
      have hi : (sim.instance? id).filter Instance.isInput = none := Option.map_eq_none_iff.1 hlaid
      rw [exec_toggle_of_none hi]
      rfl
    | assemble | assembleProgram | tick | settle | restore =>
      exact absurd hlaid (by simp [Command.netlist?])

/-- **Over a run that does not set it, the clock counts the clock edges**, below its limit. -/
theorem clock_run (commands : List Command) : ∀ sim : Simulator,
    (∀ c ∈ commands, c.start? = none) →
      sim.clock.toNat + commands.countP Command.isTick < UInt64.size →
        (sim.run commands).clock.toNat = sim.clock.toNat + commands.countP Command.isTick := by
  induction commands with
  | nil => exact fun _ _ _ => rfl
  | cons c rest ih =>
    intro sim hc hbound
    have hfirst : (c.exec sim).clock = if c.isTick then sim.clock + 1 else sim.clock := by
      rw [clock_exec, Command.clockAfter, hc c List.mem_cons_self, Option.getD_none]
    rw [List.countP_cons] at hbound ⊢
    have hnat : (c.exec sim).clock.toNat = sim.clock.toNat + if c.isTick then 1 else 0 := by
      rw [hfirst]
      by_cases htick : c.isTick = true
      · rw [if_pos htick, UInt64.size] at hbound
        rw [if_pos htick, if_pos htick, UInt64.toNat_add, UInt64.toNat_one]
        omega
      · rw [if_neg htick, if_neg htick, Nat.add_zero]
    have hrest := ih (c.exec sim) (fun d hd => hc d (List.mem_cons_of_mem c hd)) (by omega)
    rw [run_cons, hrest, hnat]
    omega

/-! ## All of it -/

/-- **The books are kept.** After any operations, one after the other, the clock stands at what the
last operation that built a circuit set it to (at 0 if there was none) plus the clock edges since,
below its limit of 2^64. Whatever operation comes next: if it returns a report, that is the last
report, with 1 pass at least and the limit on passes at most, and with exactly the limit if the
circuit did not settle; the issues are what the operation itself found, and one that tells the
number of passes if and only if the circuit did not settle. A toggle that returns none leaves
everything as it was but for the issues, which say of its id, and of nothing else, that it is no
switch. -/
theorem books_are_kept (catalog : Catalog) (options : SimOptions) (commands : List Command) :
    let sim := (Simulator.new catalog options).run commands
    (∀ earlier c later start, commands = earlier ++ c :: later → c.start? = some start →
      (∀ d ∈ later, d.start? = none) → start.toNat + later.countP Command.isTick < UInt64.size →
        sim.clock.toNat = start.toNat + later.countP Command.isTick) ∧
    ((∀ d ∈ commands, d.start? = none) → commands.countP Command.isTick < UInt64.size →
      sim.clock.toNat = commands.countP Command.isTick) ∧
    (∀ (c : Command) report, c.report? sim = some report →
      (c.exec sim).Books (c.findings catalog) report ∧ (c.exec sim).options = options) ∧
    ∀ id, (Command.toggle id).report? sim = none →
      (Command.toggle id).exec sim = { sim with issues := .ofList [.notAnInput id] } := by
  intro sim
  obtain ⟨hcatalog, hoptions⟩ := run_catalog (Simulator.new catalog options) commands
  change sim.catalog = catalog at hcatalog
  change sim.options = options at hoptions
  refine ⟨fun earlier c later start heq hstart hlater hbound => ?_, fun hc hbound => ?_,
    fun c report h => ⟨?_, ?_⟩, fun id h => ?_⟩
  · have hrun : sim = (c.exec ((Simulator.new catalog options).run earlier)).run later := by
      change (Simulator.new catalog options).run commands = _
      unfold Simulator.run
      rw [heq, List.foldl_append, List.foldl_cons]
    have hset : (c.exec ((Simulator.new catalog options).run earlier)).clock = start := by
      rw [clock_exec, Command.clockAfter, hstart, Option.getD_some]
    rw [hrun, clock_run later _ hlater (by rw [hset]; exact hbound), hset]
  · have hrun := clock_run commands (Simulator.new catalog options) hc
      (by simpa [Simulator.new] using hbound)
    simpa [sim, Simulator.new] using hrun
  · rw [← hcatalog]
    exact books_of_report? h
  · exact (exec_catalog sim c).2.trans hoptions
  · cases hi : (sim.instance? id).filter Instance.isInput with
    | none => exact exec_toggle_of_none hi
    | some i => simp [Command.report?, Simulator.toggle, hi] at h

/-- An inverter that feeds itself. -/
def oscillator : Program := ⟨[.part ⟨"n", "NOT", none⟩, .wire ⟨"n", "n", .implicit⟩]⟩

/-- Under a limit of three passes an oscillator gives up after every clock edge and says so once,
and a toggle of it, which is no switch, only reports that. -/
theorem books_are_kept_oscillator :
    let sim := (Simulator.new Standard.catalog ⟨3⟩).run [.assembleProgram oscillator, .tick, .tick]
    sim.clock.toNat = 2 ∧ Command.tick.report? sim = some ⟨3, false⟩ ∧
      (Command.tick.exec sim).Books [] ⟨3, false⟩ ∧
      (Command.tick.exec sim).issues.issues = [.didNotConverge 3] ∧
      (Command.toggle "n").exec sim = { sim with issues := .ofList [.notAnInput "n"] } := by
  intro sim
  obtain ⟨hclock, -, hbooks, htoggle⟩ :=
    books_are_kept Standard.catalog ⟨3⟩ [.assembleProgram oscillator, .tick, .tick]
  have hreport : Command.tick.report? sim = some ⟨3, false⟩ := by decide +kernel
  refine ⟨?_, hreport, (hbooks .tick _ hreport).1, by decide +kernel, ?_⟩
  · exact hclock [] (.assembleProgram oscillator) [.tick, .tick] 0 rfl rfl (by decide) (by decide)
  · exact htoggle "n" (by decide +kernel)

end Breadboard
