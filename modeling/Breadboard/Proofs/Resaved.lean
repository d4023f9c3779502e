import Breadboard.Proofs.Restored
import Breadboard.Proofs.Uniqueness

/-!
# Saving again what was restored

A circuit that is saved and restored is the original one, primed, and so is what is saved then. The
two snapshots are the same but for the flip-flops that were never clocked since they were built:
those were saved without outputs, and come back driving their bit.

* `Instance.Ticked`: the instance is no such flip-flop. A clock edge makes every instance ticked
  (`throughout_ticked_tick`), and it stays so until the circuit is built anew
  (`throughout_ticked_run`);
* `agree_primed_iff`: a primed instance agrees with the original iff all of it is ticked;
* `agreeSaved_saveAll`: snapshots of circuits of one shape agree iff the circuits do;
* `restore_of_ticked`: a ticked circuit comes back as it was;
* **`saved_again_but_for_unticked`**: what is saved, restored and saved again.
-/

namespace Breadboard

variable {catalog : Catalog}

/-! ## Flip-flops that were clocked -/

/-- The instance is no flip-flop without outputs. -/
def Instance.Ticked (i : Instance) : Prop :=
  i.body = .primitive .dff → i.signals.outputs.isEmpty = false

/-- A flip-flop without outputs is low. -/
def Instance.LowUntilTicked (i : Instance) : Prop :=
  i.body = .primitive .dff → i.signals.outputs.isEmpty = true → i.value = false

theorem Instance.Plain.lowUntilTicked {i : Instance} (h : i.Plain catalog) : i.LowUntilTicked := by
  intro hflip hempty
  unfold Instance.Plain at h
  rw [hflip] at h
  rcases h with ⟨-, hlow⟩ | hdriven
  · exact hlow
  · rw [hdriven] at hempty
    exact absurd hempty (by simp [NameMap.isEmpty])

theorem ticked_pass (i : Instance) (inputs : Pins) (h : i.Ticked) :
    (i.pass catalog inputs).1.Ticked := by
  obtain ⟨part, expanded, s, body⟩ := i
  cases body with
  | unknown =>
    rw [pass_unknown]
    exact fun hflip => absurd hflip (by simp)
  | composite parts inner =>
    rw [pass_composite]
    exact fun hflip => absurd hflip (by simp)
  | primitive kind =>
    rw [pass_primitive]
    intro hflip
    cases hflip
    change (s.receive inputs).outputs.isEmpty = false
    rw [Signals.receive_outputs]
    exact h rfl

/-- What is driven has an output. -/
theorem ticked_drive (i : Instance) (bit : Bool) : (i.drive bit).Ticked := fun _ => rfl

/-- **A clock edge makes an instance ticked**, whatever it was before. -/
theorem ticked_commit (i : Instance) : i.commit.1.Ticked := by
  by_cases hflip : i.body = .primitive .dff
  · obtain ⟨part, expanded, s, body⟩ := i
    cases hflip
    rw [commit_flipFlop]
    exact fun _ => rfl
  · by_cases hleaf : i.isComposite = true
    · obtain ⟨part, expanded, s, body⟩ := i
      cases body with
      | composite parts inner =>
        rw [commit_composite]
        exact fun h => absurd h (by simp)
      | unknown | primitive => exact absurd hleaf (by simp [Instance.isComposite])
    · rw [Bool.not_eq_true] at hleaf
      rw [commit_leaf hleaf hflip]
      exact fun h => absurd h hflip

theorem throughout_ticked_settle {wires : List Wire} {scope : List Instance} (limit : Nat)
    (h : Throughout Instance.Ticked scope) :
    Throughout Instance.Ticked (settle catalog wires limit scope).1 :=
  settle_induct (fun _ hs => throughout_passAll ticked_pass hs) limit h

theorem throughout_ticked_tick (sim : Simulator) :
    Throughout Instance.Ticked sim.tick.1.instances := by
  have hedge : Throughout Instance.Ticked (commitAll sim.instances).1 :=
    throughout_commitAll (P := fun _ => True) (fun i _ => ticked_commit i) fun _ _ => trivial
  exact throughout_ticked_settle sim.options.maxPasses.toNat hedge

/-- Ticked instances stay so, unless the circuit is built anew. -/
theorem throughout_ticked_exec {sim : Simulator} {c : Command} (hc : c.rebuilds = false)
    (h : Throughout Instance.Ticked sim.instances) :
    Throughout Instance.Ticked (c.exec sim).instances := by
  cases c with
  | assemble | assembleProgram | restore => exact absurd hc (by simp [Command.rebuilds])
  | tick => exact throughout_ticked_tick sim
  | settle => exact throughout_ticked_settle sim.options.maxPasses.toNat h
  | expand id expanded => exact throughout_draw (fun _ _ hi => hi) id expanded h
  | toggle id =>
    cases hlaid : (Command.toggle id).netlist? sim with
    | none =>
      rw [exec_toggle_of_none (Option.map_eq_none_iff.1 hlaid)]
      exact h
    | some netlist =>
      refine throughout_of_netlist? ticked_pass hlaid ?_
      obtain ⟨-, -, rfl⟩ := Option.map_eq_some_iff.1 hlaid
      exact throughout_toggleInput (fun i bit _ _ => ticked_drive i bit) id h

/-- **After a clock edge every instance is ticked**, until the circuit is built anew. -/
theorem throughout_ticked_run (sim : Simulator) (earlier : List Command) {later : List Command}
    (hlater : ∀ c ∈ later, c.rebuilds = false) :
    Throughout Instance.Ticked (sim.run (earlier ++ .tick :: later)).instances := by
  have hrun : sim.run (earlier ++ .tick :: later) = (sim.run earlier).tick.1.run later := by
    unfold Simulator.run
    rw [List.foldl_append, List.foldl_cons]
    rfl
  rw [hrun]
  exact run_induct (P := fun s => Throughout Instance.Ticked s.instances) later _
    (fun s c hm hs => throughout_ticked_exec (hlater c hm) hs) (throughout_ticked_tick _)

/-! ## What priming changes -/

theorem Signals.isEmpty_primed (s : Signals) : s.primed.outputs.isEmpty = false := by
  cases hempty : s.outputs.isEmpty with
  | true =>
    rw [primed_of_isEmpty hempty]
    rfl
  | false =>
    rw [primed_of_not_isEmpty hempty]
    exact hempty

theorem primedAll_eq_self {scope : List Instance} (h : ∀ i ∈ scope, i.primed = i) :
    primedAll scope = scope := by
  rw [primedAll_eq_map]
  exact (List.map_congr_left h).trans (List.map_id scope)

/-- Priming changes nothing where all is ticked. -/
theorem primed_of_ticked (i : Instance) : i.Throughout Instance.Ticked → i.primed = i := by
  induction i using Instance.induct with
  | leaf i hleaf =>
    intro h
    by_cases hflip : i.body = .primitive .dff
    · have houtputs := (Instance.throughout_leaf hleaf).1 h hflip
      obtain ⟨part, expanded, s, body⟩ := i
      cases hflip
      rw [primed_flipFlop, Signals.primed_of_not_isEmpty houtputs]
    · exact primed_leaf hleaf hflip
  | composite part expanded s parts inner ih =>
    intro h
    have hinside := throughout_iff.1 (Instance.throughout_composite.1 h).2
    rw [primed_composite, primedAll_eq_self fun i hi => ih i hi (hinside i hi)]

theorem primedAll_of_ticked {scope : List Instance} (h : Throughout Instance.Ticked scope) :
    primedAll scope = scope :=
  primedAll_eq_self fun i hi => primed_of_ticked i (throughout_iff.1 h i hi)

theorem throughout_primedAll {P : Instance → Prop} {scope : List Instance} :
    Throughout P (primedAll scope) ↔ ∀ i ∈ scope, i.primed.Throughout P := by
  rw [throughout_iff, primedAll_eq_map, List.forall_mem_map]

/-- **A primed circuit is ticked**, at every depth. -/
theorem throughout_ticked_primed (i : Instance) : i.primed.Throughout Instance.Ticked := by
  induction i using Instance.induct with
  | leaf i hleaf =>
    refine (Instance.throughout_leaf (isComposite_of_blank (blank_primed i) ▸ hleaf)).2 ?_
    by_cases hflip : i.body = .primitive .dff
    · obtain ⟨part, expanded, s, body⟩ := i
      cases hflip
      rw [primed_flipFlop]
      exact fun _ => s.isEmpty_primed
    · rw [primed_leaf hleaf hflip]
      exact fun h => absurd h hflip
  | composite part expanded s parts inner ih =>
    rw [primed_composite]
    exact Instance.throughout_composite.2 ⟨fun h => absurd h (by simp), throughout_primedAll.2 ih⟩

theorem throughout_ticked_primedAll (scope : List Instance) :
    Throughout Instance.Ticked (primedAll scope) :=
  throughout_primedAll.2 fun i _ => throughout_ticked_primed i

/-! ## What a comparison sees of it -/

theorem Signals.agree_refl (s : Signals) : s.agree s = true :=
  Signals.agree_iff.2 ⟨rfl, rfl, fun _ => rfl, fun _ => rfl⟩

theorem Instance.agree_refl (i : Instance) : i.agree i = true := by
  induction i using Instance.induct with
  | leaf i hleaf =>
    obtain ⟨part, expanded, s, body⟩ := i
    cases body with
    | composite => exact absurd hleaf (by simp [isComposite])
    | unknown => exact agree_unknown.2 s.agree_refl
    | primitive kind => exact agree_primitive.2 s.agree_refl
  | composite part expanded s parts inner ih =>
    refine agree_composite.2 ⟨s.agree_refl, agreeAll_iff.2 ⟨rfl, fun k i j hi hj => ?_⟩⟩
    rw [hi] at hj
    cases hj
    exact ih i (List.mem_of_getElem? hi)

/-- The output that priming adds is seen. -/
theorem Signals.not_isEmpty_of_agree_primed {s : Signals} (h : s.primed.agree s = true) :
    s.outputs.isEmpty = false := by
  cases hempty : s.outputs.isEmpty with
  | false => rfl
  | true =>
    have hout := (agree_iff.1 h).2.2.2 outPin
    rw [primed_of_isEmpty hempty, drive_outputs, get?_outOnly, if_pos rfl,
      NameMap.isEmpty_iff.1 hempty] at hout
    exact absurd hout (by simp)

theorem agreeAll_primedAll (scope : List Instance) :
    agreeAll (primedAll scope) scope = true ↔ ∀ i ∈ scope, i.primed.agree i = true := by
  induction scope with
  | nil => simp [primedAll, agreeAll]
  | cons i rest ih => rw [primedAll, agreeAll, Bool.and_eq_true, ih, List.forall_mem_cons]

/-- **A primed instance agrees with the original** iff all of it is ticked. -/
theorem agree_primed_iff (i : Instance) :
    i.primed.agree i = true ↔ i.Throughout Instance.Ticked := by
  refine ⟨?_, fun h => (primed_of_ticked i h).symm ▸ i.agree_refl⟩
  induction i using Instance.induct with
  | leaf i hleaf =>
    intro h
    refine (Instance.throughout_leaf hleaf).2 fun hflip => ?_
    obtain ⟨part, expanded, s, body⟩ := i
    cases hflip
    rw [primed_flipFlop] at h
    exact Signals.not_isEmpty_of_agree_primed (agree_primitive.1 h)
  | composite part expanded s parts inner ih =>
    intro h
    rw [primed_composite, agree_composite, agreeAll_primedAll] at h
    refine Instance.throughout_composite.2 ⟨fun hflip => absurd hflip (by simp), ?_⟩
    exact throughout_iff.2 fun i hi => ih i hi (h.2 i hi)

theorem agreeAll_primedAll_iff (scope : List Instance) :
    agreeAll (primedAll scope) scope = true ↔ Throughout Instance.Ticked scope := by
  rw [agreeAll_primedAll, throughout_iff]
  exact forall₂_congr fun i _ => agree_primed_iff i

/-! ## What a comparison sees of snapshots -/

theorem agreeSaved_saveAll_of {scope : List Instance}
    (h : ∀ i ∈ scope, ∀ j : Instance, j.blank = i.blank → j.save.agree i.save = j.agree i) :
    ∀ scope' : List Instance, blankAll scope' = blankAll scope →
      agreeSaved (saveAll scope') (saveAll scope) = agreeAll scope' scope := by
  induction scope with
  | nil =>
    intro scope' hblank
    cases scope' with
    | nil => rw [saveAll, agreeSaved, agreeAll]
    | cons => exact absurd hblank (by simp [blankAll])
  | cons i rest ih =>
    intro scope' hblank
    cases scope' with
    | nil => exact absurd hblank (by simp [blankAll])
    | cons j rest' =>
      rw [blankAll, blankAll, List.cons.injEq] at hblank
      rw [saveAll, saveAll, agreeSaved, agreeAll, h i List.mem_cons_self j hblank.1,
        ih (fun k hk => h k (List.mem_cons_of_mem i hk)) rest' hblank.2]

/-- **Two instances of one shape agree** iff their saved states do. -/
theorem agree_save (i : Instance) :
    ∀ j : Instance, j.blank = i.blank → j.save.agree i.save = j.agree i := by
  induction i using Instance.induct with
  | leaf i hleaf =>
    intro j hblank
    obtain ⟨part, expanded, s, body⟩ := i
    cases body with
    | composite => exact absurd hleaf (by simp [Instance.isComposite])
    | unknown =>
      obtain ⟨expanded', s', rfl⟩ := blank_eq_unknown hblank
      simp [Instance.save, InstanceSnapshot.agree, agreeSaved, Instance.agree]
    | primitive kind =>
      obtain ⟨expanded', s', rfl⟩ := blank_eq_primitive hblank
      simp [Instance.save, InstanceSnapshot.agree, agreeSaved, Instance.agree]
  | composite part expanded s parts inner ih =>
    intro j hblank
    obtain ⟨expanded', s', parts', rfl, hparts⟩ := blank_eq_composite hblank
    have hinside := agreeSaved_saveAll_of ih parts' hparts
    simp [Instance.save, InstanceSnapshot.agree, Instance.agree, hinside]

theorem agreeSaved_saveAll {scope scope' : List Instance}
    (h : blankAll scope' = blankAll scope) :
    agreeSaved (saveAll scope') (saveAll scope) = agreeAll scope' scope :=
  agreeSaved_saveAll_of (fun i _ => agree_save i) scope' h

theorem blankAll_primedAll (scope : List Instance) :
    blankAll (primedAll scope) = blankAll scope := by
  rw [blankAll_eq_map, blankAll_eq_map, primedAll_eq_map, List.map_map]
  exact List.map_congr_left fun i _ => blank_primed i

/-! ## Restoring and saving -/

section Mirrors

variable {a b : Simulator}

theorem Simulator.Mirrors.instances (h : a.Mirrors b) : b.instances = primedAll a.instances :=
  congrArg Netlist.instances h.netlist

theorem Simulator.Mirrors.wires (h : a.Mirrors b) : b.wires = a.wires :=
  (congrArg Netlist.wires h.netlist).trans rfl

/-- What is saved of a mirrored circuit. -/
theorem Simulator.Mirrors.snapshot (h : a.Mirrors b) :
    b.snapshot = { a.snapshot with instances := saveAll (primedAll a.instances) } := by
  unfold Simulator.snapshot
  rw [h.clock, h.instances, h.wires]

/-- **Two mirrored circuits agree** iff the one is ticked. -/
theorem Simulator.Mirrors.agree_iff (h : a.Mirrors b) :
    (b.snapshot.agree a.snapshot = true ↔ Throughout Instance.Ticked a.instances) ∧
      (agreeAll b.instances a.instances = true ↔ Throughout Instance.Ticked a.instances) := by
  have hinstances := agreeAll_primedAll_iff a.instances
  have hsaved := agreeSaved_saveAll (blankAll_primedAll a.instances)
  rw [h.snapshot, h.instances]
  refine ⟨?_, hinstances⟩
  unfold Snapshot.agree Simulator.snapshot
  simp only [beq_self_eq_true, Bool.true_and, Bool.and_true]
  rw [hsaved]
  exact hinstances

/-- A mirrored circuit is made of the same chips. -/
theorem Simulator.Mirrors.built (h : a.Mirrors b) (hbuilt : Built a.catalog a.instances) :
    Built b.catalog b.instances := by
  rw [h.catalog, h.instances]
  exact hbuilt.of_blankAll (blankAll_primedAll a.instances)

/-- A mirrored circuit is at rest with the original. -/
theorem Simulator.Mirrors.atRest (h : a.Mirrors b) (hrest : a.top.AtRest a.catalog) :
    b.top.AtRest b.catalog := by
  unfold Simulator.top Netlist.top
  rw [h.catalog, h.netlist]
  exact Scope.AtRest.primed hrest h.plain

end Mirrors

/-- **A ticked circuit comes back as it was.** -/
theorem restore_of_ticked {sim : Simulator} (hdistinct : sim.catalog.PartsDistinct)
    (hbuilt : Built sim.catalog sim.instances) (hrest : sim.top.AtRest sim.catalog)
    (hticked : Throughout Instance.Ticked sim.instances) :
    ((Simulator.new sim.catalog sim.options).restore sim.snapshot).1.netlist = sim.netlist := by
  have hlaid : sim.snapshot.netlist sim.catalog = sim.netlist := by
    rw [netlist_snapshot hdistinct hbuilt hrest, primedAll_of_ticked hticked]
    rfl
  have hsettled : settle sim.catalog (sim.snapshot.netlist sim.catalog).wires
      sim.options.maxPasses.toNat (sim.snapshot.netlist sim.catalog).instances =
        (sim.instances, ⟨1, true⟩) := by
    rw [hlaid]
    exact settle_eq_self_iff.2 hrest
  exact congrArg (fun settled => Netlist.mk settled.1 sim.wires) hsettled

/-- **What is saved, restored and saved again.** Take a catalog in which no composite has two parts
of one id, and a circuit after any run without a restore whose last settling converged. Restored
from its snapshot it is the same circuit, and its second snapshot the same snapshot, in every field
at every depth, but that flip-flops without outputs, which are low, now drive their bit. So both
comparisons succeed iff there is no such flip-flop, and there is none if there was a clock edge
since the circuit was built. Saving and restoring once more changes nothing at all. -/
theorem saved_again_but_for_unticked (catalog : Catalog) (hdistinct : catalog.PartsDistinct)
    (options : SimOptions) (commands : List Command) (hc : ∀ c ∈ commands, c.restores = false)
    (report : SettleReport)
    (h : ((Simulator.new catalog options).run commands).lastReport = some report)
    (hconverged : report.converged = true) :
    let sim := (Simulator.new catalog options).run commands
    let twin := ((Simulator.new catalog options).restore sim.snapshot).1
    let third := ((Simulator.new catalog options).restore twin.snapshot).1
    twin.instances = primedAll sim.instances ∧
      twin.snapshot = { sim.snapshot with instances := saveAll (primedAll sim.instances) } ∧
      Throughout Instance.LowUntilTicked sim.instances ∧
      (twin.snapshot.agree sim.snapshot = true ↔ Throughout Instance.Ticked sim.instances) ∧
      (agreeAll twin.instances sim.instances = true ↔
        Throughout Instance.Ticked sim.instances) ∧
      (Throughout Instance.Ticked sim.instances →
        twin.snapshot = sim.snapshot ∧ twin.instances = sim.instances) ∧
      (∀ earlier later, commands = earlier ++ .tick :: later →
        (∀ c ∈ later, c.rebuilds = false) → Throughout Instance.Ticked sim.instances) ∧
      third.snapshot = twin.snapshot ∧ third.instances = twin.instances := by
  intro sim twin third
  obtain ⟨hcatalog, hoptions⟩ := run_catalog (Simulator.new catalog options) commands
  change sim.catalog = catalog at hcatalog
  change sim.options = options at hoptions
  have hrest := staysSettled_iff.1
    (stays_settled_of_not_restored catalog options commands hc report h hconverged)
  have hplain : Throughout (Instance.Plain catalog) sim.instances :=
    (lasting_plain catalog).run hc throughout_nil
  have hbuilt : Built catalog sim.instances := by
    refine built_run commands fun i hi => absurd hi ?_
    simp [Simulator.new, Simulator.instances]
  have hdistinct' : sim.catalog.PartsDistinct := hcatalog.symm ▸ hdistinct
  have hmirrors := (mirrors_restore hdistinct' (hcatalog.symm ▸ hplain)
    (hcatalog.symm ▸ hbuilt) hrest).2
  rw [hcatalog, hoptions] at hmirrors
  obtain ⟨hsnapshots, hinstances⟩ := hmirrors.agree_iff
  refine ⟨hmirrors.instances, hmirrors.snapshot, hplain.mono fun i hi => hi.lowUntilTicked,
    hsnapshots, hinstances, fun hticked => ?_, ?_, ?_⟩
  · have hsame := primedAll_of_ticked hticked
    exact ⟨hmirrors.snapshot.trans (by rw [hsame]; rfl), hmirrors.instances.trans hsame⟩
  · rintro earlier later rfl hlater
    exact throughout_ticked_run _ earlier hlater
  · -- the twin is primed, so it comes back as it is
    have hticked : Throughout Instance.Ticked twin.instances :=
      hmirrors.instances ▸ throughout_ticked_primedAll sim.instances
    have hagain : third.netlist = twin.netlist :=
      restore_of_ticked hdistinct (hmirrors.built (hcatalog.symm ▸ hbuilt)) (hmirrors.atRest hrest)
        hticked
    have hsaved : third.snapshot = twin.snapshot :=
      congrArg (fun n : Netlist => Snapshot.mk twin.clock (saveAll n.instances) n.wires) hagain
    exact ⟨hsaved, congrArg Netlist.instances hagain⟩

/-- A shift register saved after a clock edge comes back as it was, and is saved as it was. -/
theorem saved_again_but_for_unticked_shiftRegister :
    let sim := (Simulator.new Standard.catalog {}).run
      [.assembleProgram shiftRegister, .toggle "a", .tick]
    let twin := ((Simulator.new Standard.catalog {}).restore sim.snapshot).1
    sim.lastReport = some ⟨2, true⟩ ∧ sim.value? "d" = some true ∧
      twin.snapshot = sim.snapshot ∧ twin.instances = sim.instances := by
  intro sim twin
  have h : sim.lastReport = some ⟨2, true⟩ := by decide +kernel
  obtain ⟨-, -, -, -, -, hsame, hticked, -⟩ := saved_again_but_for_unticked Standard.catalog
    standard_partsDistinct {} [.assembleProgram shiftRegister, .toggle "a", .tick] (by decide) _ h
    rfl
  have hall := hticked [.assembleProgram shiftRegister, .toggle "a"] [] rfl (by decide)
  exact ⟨h, by decide +kernel, hsame hall⟩

/-- A flip-flop alone. -/
def loneFlipFlop : Program := ⟨[.part ⟨"d", "DFF", none⟩]⟩

/-- **Saved before the first clock edge it is saved differently a second time**: with an output. -/
theorem unticked_flipFlop_saved_differently :
    let sim := (Simulator.new Standard.catalog {}).run [.assembleProgram loneFlipFlop]
    let twin := ((Simulator.new Standard.catalog {}).restore sim.snapshot).1
    Standard.catalog.PartsDistinct ∧ sim.lastReport = some ⟨1, true⟩ ∧
      (sim.instance? "d").map (fun i => i.signals.outputs.entries) = some [] ∧
      (twin.instance? "d").map (fun i => i.signals.outputs.entries) = some [("OUT", false)] ∧
      twin.snapshot.agree sim.snapshot = false ∧
      agreeAll twin.instances sim.instances = false := by
  intro sim twin
  exact ⟨standard_partsDistinct, by decide +kernel, by decide +kernel, by decide +kernel,
    by decide +kernel, by decide +kernel⟩

end Breadboard
