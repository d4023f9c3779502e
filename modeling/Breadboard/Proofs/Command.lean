import Breadboard.Proofs.InputOrder
import Breadboard.Proofs.Plain
import Breadboard.Simulator

/-!
# Runs of a simulator

A `Command` is one operation on a `Simulator`, and a run is a list of them. Every operation that
settles does so in the same way: it lays out a netlist (`Command.netlist?`) and settles that
(`exec_of_netlist?`). The others, drawing the inside of a chip or toggling what is no switch, leave
every signal alone (`exec_of_not_netlist?`).

* `run_induct`: what every command preserves holds after every run;
* `blankAll_run`: a run changes the shape of the circuit only by building it anew;
* `Lasting`: what holds of chips that are built anew and is preserved by passes, toggles, clock
  edges and drawing. Such a property holds throughout every circuit that was never restored
  (`Lasting.run`); `lasting_plain` and `lasting_tidy` are the two that later modules use.
-/

namespace Breadboard

/-- One operation on a simulator. -/
inductive Command where
  | assemble (text : String)
  | assembleProgram (program : Program)
  | toggle (id : String)
  | tick
  | settle
  | expand (id : String) (expanded : Bool)
  | restore (saved : Snapshot)

namespace Command

/-- The simulator after the operation. -/
def exec (sim : Simulator) : Command → Simulator
  | assemble text => (sim.assemble text).1
  | assembleProgram program => (sim.assembleProgram program).1
  | toggle id => (sim.toggle id).1
  | tick => sim.tick.1
  | settle => sim.settleAgain.1
  | expand id expanded => (sim.setExpanded id expanded).1
  | restore saved => (sim.restore saved).1

/-- Does the operation bring in a saved state? -/
def restores : Command → Bool
  | restore _ => true
  | _ => false

/-- Does the operation build the circuit anew? -/
def rebuilds : Command → Bool
  | assemble _ | assembleProgram _ | restore _ => true
  | toggle _ | tick | settle | expand _ _ => false

/-- The program that the operation lays out. -/
def program? : Command → Option Program
  | assemble text => some (Program.parse text).program
  | assembleProgram program => some program
  | _ => none

end Command

theorem restores_of_rebuilds {c : Command} (hc : c.rebuilds = false) : c.restores = false := by
  cases c with
  | restore => exact absurd hc (by simp [Command.rebuilds])
  | assemble | assembleProgram | toggle | tick | settle | expand => rfl

/-- The netlist of a snapshot. -/
def Snapshot.netlist (catalog : Catalog) (saved : Snapshot) : Netlist :=
  ⟨saved.instances.map (InstanceSnapshot.restore catalog), saved.wires⟩

/-- The top of a netlist. -/
def Netlist.top (netlist : Netlist) : Scope := ⟨netlist.instances, netlist.wires, ∅⟩

namespace Simulator

/-- A simulator without a circuit. -/
def new (catalog : Catalog) (options : SimOptions) : Simulator := { catalog, options }

/-- The top of the circuit. -/
def top (sim : Simulator) : Scope := sim.netlist.top

/-- The simulator after some operations, one after the other. -/
def run (sim : Simulator) (commands : List Command) : Simulator :=
  commands.foldl Command.exec sim

end Simulator

theorem mem_top_of_instance? {sim : Simulator} {id : String} {i : Instance}
    (h : sim.instance? id = some i) : i ∈ sim.top.instances := List.mem_of_find?_eq_some h

theorem run_cons (sim : Simulator) (c : Command) (rest : List Command) :
    sim.run (c :: rest) = (c.exec sim).run rest := rfl

theorem run_concat (sim : Simulator) (commands : List Command) (c : Command) :
    sim.run (commands ++ [c]) = c.exec (sim.run commands) := by
  unfold Simulator.run
  rw [List.foldl_append]
  rfl

/-- **What every command of a run preserves holds after the run.** -/
theorem run_induct {P : Simulator → Prop} (commands : List Command) :
    ∀ sim : Simulator, (∀ s, ∀ c ∈ commands, P s → P (c.exec s)) → P sim →
      P (sim.run commands) := by
  induction commands with
  | nil => exact fun _ _ h => h
  | cons c rest ih =>
    intro sim hstep h
    refine ih (c.exec sim) (fun s d hd => hstep s d (List.mem_cons_of_mem c hd)) ?_
    exact hstep sim c List.mem_cons_self h

/-! ## What a command settles -/

/-- The netlist that an operation lays out and settles; nothing if it settles nothing. -/
def Command.netlist? (sim : Simulator) : Command → Option Netlist
  | .assemble text => some (.ofProgram sim.catalog (Program.parse text).program)
  | .assembleProgram program => some (.ofProgram sim.catalog program)
  | .toggle id =>
    ((sim.instance? id).filter Instance.isInput).map fun _ =>
      ⟨toggleInput sim.instances id, sim.wires⟩
  | .tick => some ⟨(commitAll sim.instances).1, sim.wires⟩
  | .settle => some sim.netlist
  | .expand _ _ => none
  | .restore saved => some (saved.netlist sim.catalog)

/-- How a settling leaves a netlist. -/
def Simulator.settled (sim : Simulator) (netlist : Netlist) : List Instance × SettleReport :=
  Breadboard.settle sim.catalog netlist.wires sim.options.maxPasses.toNat netlist.instances

/-- **An operation that settles**: its netlist, settled, and nothing else of the circuit. -/
theorem exec_of_netlist? {sim : Simulator} {c : Command} {netlist : Netlist}
    (h : c.netlist? sim = some netlist) :
    (c.exec sim).netlist = ⟨(sim.settled netlist).1, netlist.wires⟩ ∧
      (c.exec sim).lastReport = some (sim.settled netlist).2 := by
  cases c with
  | expand id expanded => exact absurd h (by simp [Command.netlist?])
  | toggle id =>
    obtain ⟨i, hi, rfl⟩ := Option.map_eq_some_iff.1 h
    have htoggle : toggleInput sim.instances id =
        updateInstance sim.instances id fun i => i.drive (!i.value) := toggleInput_of_some hi
    simp only [Command.exec, Simulator.toggle, hi, htoggle]
    exact ⟨rfl, rfl⟩
  | assemble | assembleProgram | tick | settle | restore =>
    cases h
    exact ⟨rfl, rfl⟩

theorem instances_of_netlist? {sim : Simulator} {c : Command} {netlist : Netlist}
    (h : c.netlist? sim = some netlist) : (c.exec sim).instances = (sim.settled netlist).1 :=
  congrArg Netlist.instances (exec_of_netlist? h).1

/-- What is settled has the shape of what was laid out. -/
theorem blankAll_of_netlist? {sim : Simulator} {c : Command} {netlist : Netlist}
    (h : c.netlist? sim = some netlist) :
    blankAll (c.exec sim).instances = blankAll netlist.instances := by
  rw [instances_of_netlist? h]
  exact blankAll_settle _ _

/-- What passes preserve, an operation preserves from its netlist on. -/
theorem throughout_of_netlist? {P : Instance → Prop} {sim : Simulator} {c : Command}
    {netlist : Netlist} (hpass : ∀ i inputs, P i → P (i.pass sim.catalog inputs).1)
    (h : c.netlist? sim = some netlist) (hlaid : Throughout P netlist.instances) :
    Throughout P (c.exec sim).instances := by
  rw [instances_of_netlist? h]
  exact settle_induct (fun _ => throughout_passAll hpass) _ hlaid

/-- A toggle of what is no switch only reports. -/
theorem exec_toggle_of_none {sim : Simulator} {id : String}
    (h : (sim.instance? id).filter Instance.isInput = none) :
    (Command.toggle id).exec sim = { sim with issues := .ofList [.notAnInput id] } := by
  simp only [Command.exec, Simulator.toggle, h]

/-- A toggle of a switch lays out the circuit with that switch flipped. -/
theorem netlist?_toggle_of_some {sim : Simulator} {id : String} {i : Instance}
    (h : (sim.instance? id).filter Instance.isInput = some i) :
    (Command.toggle id).netlist? sim = some ⟨toggleInput sim.instances id, sim.wires⟩ := by
  rw [Command.netlist?, h]
  rfl

/-- A program is laid out as its netlist. -/
theorem netlist?_of_program? {c : Command} {p : Program} (sim : Simulator)
    (h : c.program? = some p) : c.netlist? sim = some (.ofProgram sim.catalog p) := by
  cases c with
  | assemble | assembleProgram =>
    cases h
    rfl
  | toggle | tick | settle | expand | restore => exact absurd h (by simp [Command.program?])

/-- **An operation that settles nothing** only draws or reports. -/
theorem exec_of_not_netlist? {sim : Simulator} {c : Command} (h : c.netlist? sim = none) :
    ((c.exec sim).instances = sim.instances ∨ ∃ id expanded, (c.exec sim).instances =
      updateInstance sim.instances id fun i => { i with expanded }) ∧
      (c.exec sim).wires = sim.wires ∧ (c.exec sim).lastReport = sim.lastReport := by
  cases c with
  | expand id expanded => exact ⟨Or.inr ⟨id, expanded, rfl⟩, rfl, rfl⟩
  | toggle id =>
    have hi : (sim.instance? id).filter Instance.isInput = none := Option.map_eq_none_iff.1 h
    rw [exec_toggle_of_none hi]
    exact ⟨Or.inl rfl, rfl, rfl⟩
  | assemble | assembleProgram | tick | settle | restore =>
    exact absurd h (by simp [Command.netlist?])

/-- No operation changes the catalog or the options. -/
theorem exec_catalog (sim : Simulator) (c : Command) :
    (c.exec sim).catalog = sim.catalog ∧ (c.exec sim).options = sim.options := by
  cases c with
  | toggle id =>
    simp only [Command.exec, Simulator.toggle]
    split <;> exact ⟨rfl, rfl⟩
  | assemble | assembleProgram | tick | settle | expand | restore => exact ⟨rfl, rfl⟩

theorem run_catalog (sim : Simulator) (commands : List Command) :
    (sim.run commands).catalog = sim.catalog ∧ (sim.run commands).options = sim.options := by
  refine run_induct (P := fun s => s.catalog = sim.catalog ∧ s.options = sim.options) commands sim
    (fun s c _ h => ?_) ⟨rfl, rfl⟩
  obtain ⟨hcatalog, hoptions⟩ := exec_catalog s c
  exact ⟨hcatalog.trans h.1, hoptions.trans h.2⟩

/-! ## The shape of the circuit -/

/-- An operation that does not build the circuit anew lays it out in the shape it has. -/
theorem Command.netlist?_shape {sim : Simulator} {c : Command} {netlist : Netlist}
    (hc : c.rebuilds = false) (h : c.netlist? sim = some netlist) :
    blankAll netlist.instances = blankAll sim.instances ∧ netlist.wires = sim.wires := by
  cases c with
  | assemble | assembleProgram | restore => exact absurd hc (by simp [Command.rebuilds])
  | expand id expanded => exact absurd h (by simp [Command.netlist?])
  | toggle id =>
    obtain ⟨i, -, rfl⟩ := Option.map_eq_some_iff.1 h
    exact ⟨blankAll_toggleInput sim.instances id, rfl⟩
  | tick =>
    cases h
    exact ⟨blankAll_commitAll sim.instances, rfl⟩
  | settle =>
    cases h
    exact ⟨rfl, rfl⟩

/-- **One operation leaves the shape alone**, unless it builds the circuit anew. -/
theorem blankAll_exec (sim : Simulator) {c : Command} (hc : c.rebuilds = false) :
    blankAll (c.exec sim).instances = blankAll sim.instances ∧
      (c.exec sim).wires = sim.wires := by
  cases h : c.netlist? sim with
  | some netlist =>
    obtain ⟨hlaid, hwires⟩ := Command.netlist?_shape hc h
    refine ⟨(blankAll_of_netlist? h).trans hlaid, ?_⟩
    change (c.exec sim).netlist.wires = sim.wires
    rw [(exec_of_netlist? h).1, hwires]
  | none =>
    obtain ⟨hinstances, hwires, -⟩ := exec_of_not_netlist? h
    refine ⟨?_, hwires⟩
    rcases hinstances with heq | ⟨id, expanded, heq⟩
    · rw [heq]
    · rw [heq, blankAll_draw]

/-- **A run leaves the shape alone**, unless some operation builds the circuit anew. -/
theorem blankAll_run {sim : Simulator} {commands : List Command}
    (hc : ∀ c ∈ commands, c.rebuilds = false) :
    blankAll (sim.run commands).instances = blankAll sim.instances ∧
      (sim.run commands).wires = sim.wires := by
  refine run_induct (P := fun s => blankAll s.instances = blankAll sim.instances ∧
    s.wires = sim.wires) commands sim (fun s c hm h => ?_) ⟨rfl, rfl⟩
  obtain ⟨hblank, hwires⟩ := blankAll_exec s (hc c hm)
  exact ⟨hblank.trans h.1, hwires.trans h.2⟩

/-! ## What lasts -/

/-- What holds of every chip that is built anew and is never lost but by a restore. -/
structure Lasting (catalog : Catalog) (P : Instance → Prop) : Prop where
  fresh : ∀ part body, P { part, body }
  pass : ∀ i inputs, P i → P (i.pass catalog inputs).1
  drive : ∀ i bit, i.isInput = true → P i → P (i.drive bit)
  commit : ∀ i, P i → P i.commit.1
  draw : ∀ (i : Instance) expanded, P i → P { i with expanded }

theorem lasting_plain (catalog : Catalog) : Lasting catalog (Instance.Plain catalog) where
  fresh := plain_fresh
  pass := plain_pass
  drive := fun i bit hinput _ => plain_drive i bit hinput
  commit := plain_commit
  draw := fun _ _ h => h

theorem lasting_tidy (catalog : Catalog) : Lasting catalog Instance.Tidy where
  fresh := fun part body => ((lasting_plain catalog).fresh part body).tidy
  pass := fun i inputs _ => tidy_pass i inputs
  drive := fun i bit hinput _ => by
    have hplain : (i.drive bit).Plain catalog := plain_drive i bit hinput
    exact hplain.tidy
  commit := tidy_commit
  draw := fun _ _ h => h

theorem descendants_draw (i : Instance) (expanded : Bool) :
    Instance.descendants { i with expanded } = i.descendants := by
  obtain ⟨part, shown, s, body⟩ := i
  cases body with
  | composite parts wires => rw [Instance.descendants, Instance.descendants]
  | unknown | primitive => rfl

/-- Drawing the inside of a chip matters to no property that does not look at it. -/
theorem throughout_draw {P : Instance → Prop}
    (h : ∀ (i : Instance) expanded, P i → P { i with expanded }) {scope : List Instance}
    (id : String) (expanded : Bool) (hP : Throughout P scope) :
    Throughout P (updateInstance scope id fun i => { i with expanded }) := by
  refine throughout_iff.2 fun j hj => ?_
  rcases mem_updateInstance hj with hj | ⟨i, hi, -, rfl⟩
  · exact throughout_iff.1 hP j hj
  · obtain ⟨hown, hinside⟩ := throughout_iff.1 hP i hi
    refine ⟨h i expanded hown, ?_⟩
    rw [descendants_draw]
    exact hinside

section Lasting

variable {P : Instance → Prop} {catalog : Catalog}

/-- A lasting property holds throughout every netlist that an operation settles. -/
theorem Lasting.netlist? (hP : Lasting catalog P) {sim : Simulator} {c : Command}
    {netlist : Netlist} (hc : c.restores = false) (h : c.netlist? sim = some netlist)
    (hsim : Throughout P sim.instances) : Throughout P netlist.instances := by
  have hprogram : ∀ program, Throughout P (Netlist.ofProgram sim.catalog program).instances := by
    intro program
    exact (throughout_fresh hP.fresh sim.catalog program.parts).perm (ofProgram_perm _ _)
  cases c with
  | restore saved => exact absurd hc (by simp [Command.restores])
  | expand id expanded => exact absurd h (by simp [Command.netlist?])
  | toggle id =>
    obtain ⟨i, -, rfl⟩ := Option.map_eq_some_iff.1 h
    exact throughout_toggleInput hP.drive id hsim
  | tick =>
    cases h
    exact throughout_commitAll hP.commit hsim
  | settle =>
    cases h
    exact hsim
  | assemble | assembleProgram =>
    cases h
    exact hprogram _

/-- **A lasting property survives every operation but a restore.** -/
theorem Lasting.exec {sim : Simulator} (hP : Lasting sim.catalog P) {c : Command}
    (hc : c.restores = false) (hsim : Throughout P sim.instances) :
    Throughout P (c.exec sim).instances := by
  cases h : c.netlist? sim with
  | some netlist => exact throughout_of_netlist? hP.pass h (hP.netlist? hc h hsim)
  | none =>
    rcases (exec_of_not_netlist? h).1 with heq | ⟨id, expanded, heq⟩
    · rw [heq]
      exact hsim
    · rw [heq]
      exact throughout_draw hP.draw id expanded hsim

/-- **A lasting property holds throughout a circuit after every run without a restore.** -/
theorem Lasting.run {sim : Simulator} (hP : Lasting sim.catalog P) {commands : List Command}
    (hc : ∀ c ∈ commands, c.restores = false) (hsim : Throughout P sim.instances) :
    Throughout P (sim.run commands).instances := by
  have hrun := run_induct (P := fun s => s.catalog = sim.catalog ∧ Throughout P s.instances)
    commands sim (fun s c hm h => ?_) ⟨rfl, hsim⟩
  · exact hrun.2
  · obtain ⟨hcatalog, hs⟩ := h
    refine ⟨(exec_catalog s c).1.trans hcatalog, ?_⟩
    rw [← hcatalog] at hP
    exact hP.exec (hc c hm) hs

end Lasting

/-- A switch wired to an exclusive or. -/
def switchedXor : Program :=
  ⟨[.part ⟨"a", "INPUT", none⟩, .part ⟨"x", "XOR", none⟩, .wire ⟨"a", "x", .implicit⟩]⟩

end Breadboard
