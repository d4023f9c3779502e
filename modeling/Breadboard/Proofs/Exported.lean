import Breadboard.Proofs.Order
import Breadboard.Proofs.Written

/-!
# An exported circuit is assembled again as it was

The program of a circuit forgets which end a single pin of a wire belongs to, and lists the chips in
the order that ordering the switches has put them in. Neither matters. The end is decided again from
the type of the target, which is what it was, and switches in order stay in order.

* `declOf_wireOf`: the statement of a wire is the statement it was laid out from;
* `ofProgram_toProgram`: laying out the program of a netlist that was laid out gives the netlist;
* `wellFormed_toProgram`: that program can be written, and is read back;
* **`exported_assembles_again`**: a circuit that is exported after any toggles, clock edges,
  settlings and drawing, and assembled again, is the circuit as it was first assembled.
-/

namespace Breadboard

variable {catalog : Catalog}

/-! ## The program of a netlist -/

theorem parts_toProgram (n : Netlist) : n.toProgram.parts = n.instances.map Instance.part := by
  unfold Netlist.toProgram Program.parts
  simp [List.filterMap_append, List.filterMap_map]

theorem wires_toProgram (n : Netlist) : n.toProgram.wires = n.wires.map Netlist.declOf := by
  unfold Netlist.toProgram Program.wires
  simp [List.filterMap_append, List.filterMap_map]

/-- **The statement of a wire is the statement it was laid out from**, whichever end the one pin
went to. -/
theorem declOf_wireOf (scope : List Instance) (decl : WireDecl) :
    Netlist.declOf (Netlist.wireOf catalog scope decl) = decl := by
  obtain ⟨source, target, pins⟩ := decl
  cases pins with
  | implicit => rfl
  | both sourcePin targetPin => rfl
  | ambiguous pin =>
    unfold Netlist.wireOf
    simp only
    split <;> rfl

/-- **Laying out the program of a netlist gives the netlist**, if it was laid out from a program
without double ids. -/
theorem ofProgram_toProgram {p : Program} (hids : (p.parts.map Part.id).Nodup) :
    Netlist.ofProgram catalog (Netlist.ofProgram catalog p).toProgram =
      Netlist.ofProgram catalog p := by
  have hperm := ofProgram_perm catalog p
  have hnodup : ((p.parts.map (Instance.fresh catalog)).map Instance.id).Nodup := by
    rwa [map_id_fresh]
  have hscope : (Netlist.ofProgram catalog p).toProgram.parts.map (Instance.fresh catalog) =
      (Netlist.ofProgram catalog p).instances := by
    rw [parts_toProgram, map_fresh_parts]
  have hdecls : (Netlist.ofProgram catalog p).toProgram.wires = p.wires := by
    rw [wires_toProgram]
    change (p.wires.map _).map _ = p.wires
    rw [List.map_map]
    exact (List.map_congr_left fun decl _ => declOf_wireOf _ decl).trans (List.map_id _)
  -- a target id finds the same chip in the order of the netlist as in that of the program
  have hwires : p.wires.map (Netlist.wireOf catalog (Netlist.ofProgram catalog p).instances) =
      (Netlist.ofProgram catalog p).wires :=
    List.map_congr_left fun decl _ => wireOf_congr (findInstance?_perm hperm hnodup decl.target)
  have hagain : Netlist.ofProgram catalog (Netlist.ofProgram catalog p).toProgram =
      ⟨orderInputs catalog (Netlist.ofProgram catalog p).wires
        (Netlist.ofProgram catalog p).instances, (Netlist.ofProgram catalog p).wires⟩ := by
    rw [Netlist.ofProgram]
    simp only [hscope, hdecls, hwires]
  rw [hagain]
  exact congrArg (Netlist.mk · (Netlist.ofProgram catalog p).wires)
    (orderInputs_orderInputs catalog _ _)

/-- The program is a matter of the shape of the netlist. -/
theorem toProgram_congr {n m : Netlist} (h : blankAll n.instances = blankAll m.instances)
    (hwires : n.wires = m.wires) : n.toProgram = m.toProgram := by
  have hparts : ∀ l : List Instance, l.map Instance.part = (blankAll l).map Instance.part := by
    intro l
    rw [blankAll_eq_map, List.map_map]
    exact List.map_congr_left fun i _ => (blank_part i).symm
  have hparts' : n.instances.map Instance.part = m.instances.map Instance.part := by
    rw [hparts, hparts m.instances, h]
  have hstatements : ∀ k : Netlist, k.toProgram =
      ⟨(k.instances.map Instance.part).map .part ++ (k.wires.map Netlist.declOf).map .wire⟩ := by
    intro k
    simp [Netlist.toProgram, List.map_map, Function.comp_def]
  rw [hstatements n, hstatements m, hparts', hwires]

theorem mem_statements_of_mem_parts {p : Program} {part : Part} (h : part ∈ p.parts) :
    Statement.part part ∈ p.statements := by
  obtain ⟨s, hs, heq⟩ := List.mem_filterMap.1 h
  cases s <;> cases heq
  exact hs

theorem mem_statements_of_mem_wires {p : Program} {decl : WireDecl} (h : decl ∈ p.wires) :
    Statement.wire decl ∈ p.statements := by
  obtain ⟨s, hs, heq⟩ := List.mem_filterMap.1 h
  cases s <;> cases heq
  exact hs

/-- **The program of a netlist can be written** if the program can that it was laid out from. -/
theorem wellFormed_toProgram {p : Program} (h : p.WellFormed) :
    (Netlist.ofProgram catalog p).toProgram.WellFormed := by
  intro s hs
  rcases List.mem_append.1 hs with hs | hs
  · obtain ⟨i, hi, rfl⟩ := List.mem_map.1 hs
    obtain ⟨part, hmem, rfl⟩ := List.mem_map.1 ((ofProgram_perm catalog p).mem_iff.1 hi)
    have hwell := h _ (mem_statements_of_mem_parts hmem)
    have hfold : (Instance.fresh catalog part).part = part := by
      unfold Instance.fresh Part.fold
      rw [(Text.upper_eq_self_iff part.chip).2 hwell.1.2.1]
    rw [hfold]
    exact hwell
  · obtain ⟨wire, hw, rfl⟩ := List.mem_map.1 hs
    obtain ⟨decl, hdecl, rfl⟩ := List.mem_map.1 hw
    rw [declOf_wireOf]
    exact h _ (mem_statements_of_mem_wires hdecl)

/-! ## What is reported about the text -/

/-- Is the issue about a line of the text? -/
def CircuitIssue.isSyntax (issue : CircuitIssue) : Bool :=
  match issue.cause with
  | .syntaxError _ => true
  | _ => false

theorem isSyntax_issuesFrom {parts : List Part} {issue : CircuitIssue} {seen : List String}
    (h : issue ∈ Netlist.issuesFrom catalog seen parts) : issue.isSyntax = false := by
  rcases Netlist.mem_issuesFrom h with ⟨id, rfl⟩ | ⟨id, chip, rfl⟩
  · rfl
  · rfl

/-- **The issues about lines are those of reading the text**; laying out and settling add none. -/
theorem filter_isSyntax_assemble (sim : Simulator) (text : String) :
    (sim.assemble text).1.issues.issues.filter CircuitIssue.isSyntax =
      (Program.parse text).issues.issues.map CircuitIssue.ofLine := by
  have hlines : ((Program.parse text).issues.issues.map CircuitIssue.ofLine).filter
      CircuitIssue.isSyntax = (Program.parse text).issues.issues.map CircuitIssue.ofLine := by
    refine List.filter_eq_self.2 fun issue hissue => ?_
    obtain ⟨line, -, rfl⟩ := List.mem_map.1 hissue
    rfl
  have hlaid : (Netlist.issues sim.catalog (Program.parse text).program).filter
      CircuitIssue.isSyntax = [] := by
    refine List.filter_eq_nil_iff.2 fun issue hissue => ?_
    rw [isSyntax_issuesFrom hissue]
    exact Bool.false_ne_true
  unfold Simulator.assemble Simulator.load Simulator.runSettle
  simp only
  split
  · simp [hlines, hlaid]
  · rw [IssueSet.issues_add, List.filter_append]
    simp [hlines, hlaid, CircuitIssue.isSyntax, CircuitIssue.didNotConverge]

/-! ## Assembling again -/

/-- What assembling a text makes of a simulator. -/
theorem assemble_eq (sim : Simulator) (text : String) :
    (sim.assemble text).1.netlist =
        ⟨(sim.settled (.ofProgram sim.catalog (Program.parse text).program)).1,
          (Netlist.ofProgram sim.catalog (Program.parse text).program).wires⟩ ∧
      (sim.assemble text).1.clock = 0 ∧
      (sim.assemble text).2 =
        (sim.settled (.ofProgram sim.catalog (Program.parse text).program)).2 ∧
      (sim.assemble text).1.lastReport =
        some (sim.settled (.ofProgram sim.catalog (Program.parse text).program)).2 :=
  ⟨rfl, rfl, rfl, rfl⟩

/-- The program of a circuit is that of the netlist it was assembled as, whatever was done to it
since. -/
theorem toProgram_assemble_run (sim : Simulator) (text : String) {commands : List Command}
    (hc : ∀ c ∈ commands, c.rebuilds = false) :
    ((sim.assemble text).1.run commands).toProgram =
      (Netlist.ofProgram sim.catalog (Program.parse text).program).toProgram := by
  have hrun : blankAll ((sim.assemble text).1.run commands).instances =
        blankAll (sim.assemble text).1.instances ∧
      ((sim.assemble text).1.run commands).wires = (sim.assemble text).1.wires := blankAll_run hc
  exact toProgram_congr (hrun.1.trans (blankAll_settle _ _)) hrun.2

/-- **An exported circuit is assembled again as it was.** Take a text whose instances have distinct
ids, assemble it, and let any toggles, clock edges, settlings and drawing follow. Assembling the
text of the program of that circuit, in any simulator with the same catalog and options, gives the
netlist, the clock and the report that assembling the first text gave; no line of it is reported;
and the program of the new circuit is the exported one. -/
theorem exported_assembles_again (sim other : Simulator) (hcatalog : other.catalog = sim.catalog)
    (hoptions : other.options = sim.options) (text : String)
    (hids : ((Program.parse text).program.parts.map Part.id).Nodup) (commands : List Command)
    (hc : ∀ c ∈ commands, c.rebuilds = false) :
    let first := sim.assemble text
    let exported := (first.1.run commands).toProgram
    let again := other.assemble exported.write
    again.1.netlist = first.1.netlist ∧ again.1.clock = first.1.clock ∧ again.2 = first.2 ∧
      again.1.lastReport = first.1.lastReport ∧
      again.1.issues.issues.filter CircuitIssue.isSyntax = [] ∧
      again.1.toProgram = exported := by
  intro first exported again
  have hexported : exported =
      (Netlist.ofProgram sim.catalog (Program.parse text).program).toProgram :=
    toProgram_assemble_run sim text hc
  have hread : Program.parse exported.write = ⟨exported, ∅⟩ := by
    rw [hexported]
    exact Program.parse_write (wellFormed_toProgram (Program.wellFormed_parse text))
  have hlaid : Netlist.ofProgram other.catalog (Program.parse exported.write).program =
      Netlist.ofProgram sim.catalog (Program.parse text).program := by
    rw [hread, hcatalog, hexported, ofProgram_toProgram hids]
  have hsettled : other.settled = sim.settled := by
    unfold Simulator.settled
    rw [hcatalog, hoptions]
  obtain ⟨hnetlist, hclock, hreport, hlast⟩ := assemble_eq sim text
  obtain ⟨hnetlist', hclock', hreport', hlast'⟩ := assemble_eq other exported.write
  rw [hlaid, hsettled] at hnetlist' hreport' hlast'
  refine ⟨hnetlist'.trans hnetlist.symm, hclock'.trans hclock.symm, hreport'.trans hreport.symm,
    hlast'.trans hlast.symm, ?_, ?_⟩
  · rw [filter_isSyntax_assemble, hread]
    rfl
  · have hfirst : first.1.toProgram =
        (Netlist.ofProgram sim.catalog (Program.parse text).program).toProgram :=
      toProgram_assemble_run sim text fun c hc => absurd hc List.not_mem_nil
    calc again.1.toProgram = first.1.toProgram :=
        congrArg Netlist.toProgram (hnetlist'.trans hnetlist.symm)
      _ = exported := hfirst.trans hexported.symm

/-- Two switches declared the wrong way round, a type in lower case, single pins at either end of a
wire, and a line that is no statement. -/
def carelessGate : String :=
  "INPUT b\ninput a 1 2\nxor g\nwhat\nWIRE a g A\nWIRE b g OUT\n"

/-- It is exported in good order, after a switch was toggled, and comes back as it was before. -/
theorem exported_assembles_again_gate :
    let new := Simulator.new Standard.catalog {}
    let first := new.assemble carelessGate
    let sim := first.1.run [.toggle "a", .expand "g" true, .tick]
    let again := new.assemble sim.toProgram.write
    ((Program.parse carelessGate).program.parts.map Part.id).Nodup ∧
      sim.toProgram.write = "INPUT a 1 2\nINPUT b\nXOR g\nWIRE a g A\nWIRE b g OUT\n" ∧
      sim.value? "g" = some true ∧
      again.1.netlist = first.1.netlist ∧ again.1.clock = first.1.clock ∧ again.2 = first.2 ∧
      again.1.lastReport = first.1.lastReport ∧
      again.1.issues.issues.filter CircuitIssue.isSyntax = [] ∧
      again.1.toProgram = sim.toProgram := by
  have hids : ((Program.parse carelessGate).program.parts.map Part.id).Nodup := by decide +kernel
  refine ⟨hids, by decide +kernel, by decide +kernel, ?_⟩
  exact exported_assembles_again (Simulator.new Standard.catalog {})
    (Simulator.new Standard.catalog {}) rfl rfl carelessGate hids
    [.toggle "a", .expand "g" true, .tick] (by simp [Command.rebuilds])

end Breadboard
