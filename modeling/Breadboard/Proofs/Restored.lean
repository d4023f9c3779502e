import Breadboard.Proofs.Frame
import Breadboard.Proofs.Resettle
import Breadboard.Proofs.Saved

/-!
# A restored simulator behaves as the original

The circuit of a restored simulator is the original one, primed: flip-flops that were never clocked
drive their low bits. Nothing that is done later tells the two circuits apart.

* `Simulator.Mirrors`: one simulator holds the circuit of the other, primed. It lasts, and both give
  the same replies (`Simulator.Mirrors.exec`);
* `Simulator.LooksLike`: what a viewer can compare, at every place;
* **`restored_behaves_as_original`**: a circuit that was saved settled comes back settled, and after
  all later operations both simulators look alike and reply alike.
-/

namespace Breadboard

variable {catalog : Catalog}

/-! ## What an operation replies -/

/-- What an operation tells whoever asked for it. -/
inductive Reply where
  /-- How the circuit settled. -/
  | settled (report : SettleReport)
  /-- How the circuit settled, if a switch was toggled. -/
  | toggled (report : Option SettleReport)
  /-- Whether there is such an instance. -/
  | found (known : Bool)
deriving DecidableEq

/-- The reply to an operation. -/
def Command.reply (sim : Simulator) : Command → Reply
  | assemble text => .settled (sim.assemble text).2
  | assembleProgram program => .settled (sim.assembleProgram program).2
  | toggle id => .toggled (sim.toggle id).2
  | tick => .settled sim.tick.2
  | settle => .settled sim.settleAgain.2
  | expand id expanded => .found (sim.setExpanded id expanded).2
  | restore saved => .settled (sim.restore saved).2

/-! ## Mirrored simulators -/

/-- `b` holds the circuit of `a`, primed, which was never restored in `a`. -/
structure Simulator.Mirrors (a b : Simulator) : Prop where
  catalog : b.catalog = a.catalog
  options : b.options = a.options
  clock : b.clock = a.clock
  netlist : b.netlist = ⟨primedAll a.instances, a.wires⟩
  plain : Throughout (Instance.Plain a.catalog) a.instances

section Mirrors

variable {a b : Simulator}

/-- **Mirrored simulators settle alike.** -/
theorem Simulator.Mirrors.runSettle (h : a.Mirrors b) :
    a.runSettle.1.Mirrors b.runSettle.1 ∧ b.runSettle.2 = a.runSettle.2 := by
  obtain ⟨catalog, options, netlist, clock, issues, last⟩ := a
  obtain ⟨catalog', options', netlist', clock', issues', last'⟩ := b
  obtain ⟨hcatalog, hoptions, hclock, hnetlist, hplain⟩ := h
  simp only at hcatalog hoptions hclock hnetlist hplain
  subst hcatalog hoptions hclock hnetlist
  have hsettle :
      settle catalog' netlist.wires options'.maxPasses.toNat (primedAll netlist.instances) =
        (primedAll (settle catalog' netlist.wires options'.maxPasses.toNat netlist.instances).1,
          (settle catalog' netlist.wires options'.maxPasses.toNat netlist.instances).2) :=
    settle_primed options'.maxPasses.toNat hplain
  have hafter := congrArg (fun settled => Netlist.mk settled.1 netlist.wires) hsettle
  have hreport := congrArg Prod.snd hsettle
  exact ⟨⟨rfl, rfl, rfl, hafter, throughout_plain_settle _ hplain⟩, hreport⟩

theorem Simulator.Mirrors.instance? (h : a.Mirrors b) (id : String) :
    b.instance? id = (a.instance? id).map Instance.primed := by
  unfold Simulator.instance? Simulator.instances
  rw [h.netlist]
  exact findInstance?_primedAll a.instances id

theorem Simulator.Mirrors.switch? (h : a.Mirrors b) (id : String) :
    (b.instance? id).filter Instance.isInput =
      ((a.instance? id).filter Instance.isInput).map Instance.primed := by
  rw [h.instance? id]
  cases a.instance? id with
  | none => rfl
  | some i =>
    rw [Option.map_some, Option.filter_some, Option.filter_some, isInput_primed]
    split <;> rfl

theorem Simulator.Mirrors.tick (h : a.Mirrors b) :
    a.tick.1.Mirrors b.tick.1 ∧ b.tick.2 = a.tick.2 := by
  have hlaid : Simulator.Mirrors
      { a with
        netlist := ⟨(commitAll a.instances).1, a.wires⟩, clock := a.clock + 1, issues := ∅ }
      { b with
        netlist := ⟨(commitAll b.instances).1, b.wires⟩, clock := b.clock + 1, issues := ∅ } := by
    refine ⟨h.catalog, h.options, ?_, ?_, throughout_commitAll plain_commit h.plain⟩
    · exact congrArg (· + 1) h.clock
    · unfold Simulator.instances Simulator.wires
      rw [h.netlist]
      exact congrArg (Netlist.mk · a.wires) (commitAll_primed a.instances)
  exact hlaid.runSettle

theorem Simulator.Mirrors.settleAgain (h : a.Mirrors b) :
    a.settleAgain.1.Mirrors b.settleAgain.1 ∧ b.settleAgain.2 = a.settleAgain.2 := by
  have hlaid : Simulator.Mirrors { a with issues := ∅ } { b with issues := ∅ } :=
    ⟨h.catalog, h.options, h.clock, h.netlist, h.plain⟩
  exact hlaid.runSettle

theorem Simulator.Mirrors.setExpanded (h : a.Mirrors b) (id : String) (expanded : Bool) :
    (a.setExpanded id expanded).1.Mirrors (b.setExpanded id expanded).1 ∧
      (b.setExpanded id expanded).2 = (a.setExpanded id expanded).2 := by
  refine ⟨⟨h.catalog, h.options, h.clock, ?_,
    throughout_draw (fun _ _ hi => hi) id expanded h.plain⟩, ?_⟩
  · unfold Simulator.setExpanded Simulator.instances Simulator.wires
    rw [h.netlist]
    exact congrArg (Netlist.mk · a.wires)
      (updateInstance_primed (fun i => draw_primed i expanded) a.instances id)
  · change (b.instance? id).isSome = (a.instance? id).isSome
    rw [h.instance? id, Option.isSome_map]

theorem Simulator.Mirrors.toggle (h : a.Mirrors b) (id : String) :
    (a.toggle id).1.Mirrors (b.toggle id).1 ∧ (b.toggle id).2 = (a.toggle id).2 := by
  have hswitch := h.switch? id
  cases hi : (a.instance? id).filter Instance.isInput with
  | none =>
    rw [hi] at hswitch
    unfold Simulator.toggle
    rw [hi, hswitch]
    exact ⟨⟨h.catalog, h.options, h.clock, h.netlist, h.plain⟩, rfl⟩
  | some i =>
    rw [hi] at hswitch
    have hlaid : Simulator.Mirrors
        { a with
          netlist := ⟨updateInstance a.instances id fun i => i.drive (!i.value), a.wires⟩
          issues := ∅ }
        { b with
          netlist := ⟨updateInstance b.instances id fun i => i.drive (!i.value), b.wires⟩
          issues := ∅ } := by
      refine ⟨h.catalog, h.options, h.clock, ?_, ?_⟩
      · unfold Simulator.instances Simulator.wires
        rw [h.netlist]
        exact congrArg (Netlist.mk · a.wires) (updateInstance_primed flip_primed a.instances id)
      · have htoggle : toggleInput a.instances id =
            updateInstance a.instances id fun i => i.drive (!i.value) := toggleInput_of_some hi
        exact htoggle ▸ throughout_plain_toggleInput id h.plain
    unfold Simulator.toggle
    rw [hi, hswitch]
    exact ⟨hlaid.runSettle.1, congrArg some hlaid.runSettle.2⟩

/-- **Mirrored simulators stay mirrored and reply alike**, operation by operation. -/
theorem Simulator.Mirrors.exec (h : a.Mirrors b) {c : Command} (hc : c.rebuilds = false) :
    (c.exec a).Mirrors (c.exec b) ∧ c.reply b = c.reply a := by
  cases c with
  | assemble | assembleProgram | restore => exact absurd hc (by simp [Command.rebuilds])
  | toggle id => exact ⟨(h.toggle id).1, congrArg Reply.toggled (h.toggle id).2⟩
  | tick => exact ⟨h.tick.1, congrArg Reply.settled h.tick.2⟩
  | settle => exact ⟨h.settleAgain.1, congrArg Reply.settled h.settleAgain.2⟩
  | expand id expanded =>
    exact ⟨(h.setExpanded id expanded).1, congrArg Reply.found (h.setExpanded id expanded).2⟩

/-- **Mirrored simulators stay mirrored** over every run that builds no circuit anew. -/
theorem Simulator.Mirrors.run (commands : List Command) : ∀ {a b : Simulator}, a.Mirrors b →
    (∀ c ∈ commands, c.rebuilds = false) → (a.run commands).Mirrors (b.run commands) := by
  induction commands with
  | nil => exact fun h _ => h
  | cons c rest ih =>
    intro a b h hc
    have hstep := (h.exec (hc c List.mem_cons_self)).1
    exact ih hstep fun d hd => hc d (List.mem_cons_of_mem c hd)

end Mirrors

/-! ## What a viewer sees -/

/-- The instances are one and the same to a viewer: only a flip-flop may have an output that the
other has not, and then it is low. -/
structure Instance.LooksLike (i j : Instance) : Prop where
  part : j.part = i.part
  expanded : j.expanded = i.expanded
  body : j.body.hollow = i.body.hollow
  value : j.value = i.value
  next : j.next = i.next
  inputs : j.signals.inputs = i.signals.inputs
  output : ∀ pin, j.output pin = i.output pin

/-- The circuits look alike at every place, and the clocks show the same. -/
structure Simulator.LooksLike (a b : Simulator) : Prop where
  clock : b.clock = a.clock
  wires : b.wires = a.wires
  instances : ∀ path k,
    Option.Rel Instance.LooksLike (a.top.instanceAt? path k) (b.top.instanceAt? path k)

theorem looksLike_primed {i : Instance} (h : i.Plain catalog) : i.LooksLike i.primed := by
  have hnext : i.primed.next = i.next := by
    unfold Instance.next
    rcases primed_signals i with hsame | ⟨-, hprimed⟩
    · rw [hsame]
    · rw [hprimed, Signals.primed_next]
  have hinputs : i.primed.signals.inputs = i.signals.inputs := by
    rcases primed_signals i with hsame | ⟨-, hprimed⟩
    · rw [hsame]
    · rw [hprimed, Signals.primed_inputs]
  have hbody : i.primed.body.hollow = i.body.hollow := by
    obtain ⟨part, expanded, s, body⟩ := i
    cases body with
    | unknown => rfl
    | primitive kind => cases kind <;> rfl
    | composite => rw [primed_composite]; rfl
  exact ⟨primed_part i, primed_expanded i, hbody, primed_value i, hnext, hinputs,
    fun pin => h.read_primed (some pin)⟩

/-- **A primed circuit looks like the circuit itself**, at every place. -/
theorem instanceAt?_primedAll {s t : Scope} (hs : Throughout (Instance.Plain catalog) s.instances)
    (ht : t.instances = primedAll s.instances) (path : List Nat) (k : Nat) :
    Option.Rel Instance.LooksLike (s.instanceAt? path k) (t.instanceAt? path k) := by
  have hseats : ∀ u v : Scope, Throughout (Instance.Plain catalog) u.instances ∧
      v.instances = primedAll u.instances → ∀ k : Nat, Option.Rel
        (fun i j : Instance => i.Throughout (Instance.Plain catalog) ∧ j = i.primed)
        (u.instances[k]?) (v.instances[k]?) := by
    rintro u v ⟨hplain, hprimed⟩ k
    rw [hprimed, primedAll_eq_map, List.getElem?_map]
    cases hi : u.instances[k]? with
    | none => exact .none
    | some i => exact .some ⟨throughout_iff.1 hplain i (List.mem_of_getElem? hi), rfl⟩
  refine Scope.instanceAt?_rel (S := fun u v => Throughout (Instance.Plain catalog) u.instances ∧
    v.instances = primedAll u.instances) (fun u v huv k => ?_) (fun u v huv k => ?_) ⟨hs, ht⟩ path k
  · exact rel_imp (fun i j hij => hij.2 ▸ looksLike_primed hij.1.1) (hseats u v huv k)
  · refine rel_bind (fun i j hij => ?_) (hseats u v huv k)
    obtain ⟨hplain, rfl⟩ := hij
    obtain ⟨part, expanded, signals, body⟩ := i
    cases body with
    | unknown => exact .none
    | primitive kind => cases kind <;> exact .none
    | composite parts inner =>
      rw [primed_composite]
      exact .some ⟨(Instance.throughout_composite.1 hplain).2, rfl⟩

theorem Simulator.Mirrors.looksLike {a b : Simulator} (h : a.Mirrors b) : a.LooksLike b := by
  have hwires := congrArg Netlist.wires h.netlist
  have hinstances := congrArg Netlist.instances h.netlist
  exact ⟨h.clock, hwires, fun path k =>
    instanceAt?_primedAll (s := a.top) (t := b.top) h.plain hinstances path k⟩

/-! ## Restoring a settled circuit -/

/-- **A restored circuit mirrors the original** and comes back settled. -/
theorem mirrors_restore {sim : Simulator} (hdistinct : sim.catalog.PartsDistinct)
    (hplain : Throughout (Instance.Plain sim.catalog) sim.instances)
    (hbuilt : Built sim.catalog sim.instances) (hrest : sim.top.AtRest sim.catalog) :
    ((Simulator.new sim.catalog sim.options).restore sim.snapshot).2 = ⟨1, true⟩ ∧
      sim.Mirrors ((Simulator.new sim.catalog sim.options).restore sim.snapshot).1 := by
  have hlaid := netlist_snapshot hdistinct hbuilt hrest
  have hprimed : Scope.AtRest sim.catalog ⟨primedAll sim.instances, sim.wires, ∅⟩ :=
    Scope.AtRest.primed hrest hplain
  have hsettled : settle sim.catalog (sim.snapshot.netlist sim.catalog).wires
      sim.options.maxPasses.toNat (sim.snapshot.netlist sim.catalog).instances =
        (primedAll sim.instances, ⟨1, true⟩) := by
    rw [hlaid]
    exact settle_eq_self_iff.2 hprimed
  have hreport := congrArg Prod.snd hsettled
  have hafter := congrArg (fun settled => Netlist.mk settled.1 sim.wires) hsettled
  exact ⟨hreport, rfl, rfl, rfl, hafter, hplain⟩

/-- **A restored simulator behaves as the original.** Take a catalog in which no composite has two
parts of one id, and a circuit after any run without a restore whose last settling converged. Its
snapshot, restored into a new simulator, settles in one pass; and after any further toggles, clock
edges, settlings and drawing, the two simulators look alike and give the same reply to one more. -/
theorem restored_behaves_as_original (catalog : Catalog) (hdistinct : catalog.PartsDistinct)
    (options : SimOptions) (commands : List Command) (hc : ∀ c ∈ commands, c.restores = false)
    (report : SettleReport)
    (h : ((Simulator.new catalog options).run commands).lastReport = some report)
    (hconverged : report.converged = true) (later : List Command)
    (hlater : ∀ c ∈ later, c.rebuilds = false) :
    let sim := (Simulator.new catalog options).run commands
    let twin := (Simulator.new catalog options).restore sim.snapshot
    twin.2 = ⟨1, true⟩ ∧ (sim.run later).LooksLike (twin.1.run later) ∧
      ∀ c : Command, c.rebuilds = false → c.reply (twin.1.run later) = c.reply (sim.run later) := by
  intro sim twin
  obtain ⟨hcatalog, hoptions⟩ := run_catalog (Simulator.new catalog options) commands
  change sim.catalog = catalog at hcatalog
  change sim.options = options at hoptions
  have hrest := staysSettled_iff.1
    (stays_settled_of_not_restored catalog options commands hc report h hconverged)
  have hplain : Throughout (Instance.Plain catalog) sim.instances :=
    (lasting_plain catalog).run hc throughout_nil
  have hbuilt : Built catalog sim.instances := by
    refine built_run commands fun i hi => absurd hi ?_
    simp [Simulator.new, Simulator.instances]
  have hdistinct' : sim.catalog.PartsDistinct := hcatalog.symm ▸ hdistinct
  obtain ⟨hreport, hmirrors⟩ := mirrors_restore hdistinct' (hcatalog.symm ▸ hplain)
    (hcatalog.symm ▸ hbuilt) hrest
  rw [hcatalog, hoptions] at hreport hmirrors
  have hrun := hmirrors.run later hlater
  exact ⟨hreport, hrun.looksLike, fun c hcommand => (hrun.exec hcommand).2⟩

/-- No composite of the standard catalog has two parts of one id. -/
theorem standard_partsDistinct : Standard.catalog.PartsDistinct := by
  intro chip d hget
  have hall : ∀ e ∈ Standard.catalog.chips.entries,
      (e.2.composite?.all fun d => decide (d.parts.map Part.id).Nodup) = true := by decide +kernel
  have hd := hall _ (NameMap.get?_eq_some_iff.1 hget)
  simpa [ChipType.composite?] using hd

/-- A shift register saved before the first clock edge: in the twin its flip-flops drive their low
bits, and both go on alike. -/
theorem restored_behaves_as_original_shiftRegister :
    let sim := (Simulator.new Standard.catalog {}).run [.assembleProgram shiftRegister, .toggle "a"]
    let twin := (Simulator.new Standard.catalog {}).restore sim.snapshot
    sim.lastReport = some ⟨2, true⟩ ∧ twin.2 = ⟨1, true⟩ ∧
      (sim.instance? "d").map (fun i => i.signals.outputs.size) = some 0 ∧
      (twin.1.instance? "d").map (fun i => i.signals.outputs.size) = some 1 ∧
      (sim.run [.tick]).LooksLike (twin.1.run [.tick]) ∧
      Command.tick.reply (twin.1.run [.tick]) = Command.tick.reply (sim.run [.tick]) := by
  intro sim twin
  have h : sim.lastReport = some ⟨2, true⟩ := by decide +kernel
  obtain ⟨hreport, hlooks, hreply⟩ := restored_behaves_as_original Standard.catalog
    standard_partsDistinct {} [.assembleProgram shiftRegister, .toggle "a"] (by decide) _ h rfl
    [.tick] (by decide)
  exact ⟨h, hreport, by decide +kernel, by decide +kernel, hlooks, hreply .tick rfl⟩

end Breadboard
