import Breadboard.Proofs.Order
import Breadboard.Proofs.Stored

/-!
# No hidden state

However two runs of one program of acyclic scopes came about, if both end settled and every switch
and flip-flop has the same bit in both, then every instance is in the same state, as far as it can
be read: primed, the two circuits keep the same, and a circuit has but one state at rest.

* `Simulator.RunOf`: what lasts over a run of one program (`Simulator.RunOf.exec`,
  `Simulator.RunOf.run`);
* `Simulator.RunOf.sameState`: settled runs of one program that store the same are in one state;
* `keptAll_toggle_toggle`: two toggles leave of what is kept what two flips do;
* **`no_hidden_state`**: the state is a function of what is stored, a toggle made twice restores it,
  and toggles commute.
-/

namespace Breadboard

variable {catalog : Catalog}

/-! ## Stimuli -/

/-- What passes, toggles and clock edges preserve, a stimulus preserves. -/
theorem throughout_exec_of_stimulates {P : Instance → Prop} {sim : Simulator}
    (hpass : ∀ i inputs, P i → P (i.pass sim.catalog inputs).1)
    (hdrive : ∀ i bit, i.isInput = true → P i → P (i.drive bit))
    (hcommit : ∀ i, P i → P i.commit.1) {c : Command} (hc : c.stimulates = true)
    (h : Throughout P sim.instances) : Throughout P (c.exec sim).instances := by
  cases c with
  | assemble | assembleProgram | expand | restore => exact absurd hc (by simp [Command.stimulates])
  | settle => exact throughout_of_netlist? hpass rfl h
  | tick => exact throughout_of_netlist? hpass rfl (throughout_commitAll hcommit h)
  | toggle id =>
    cases hi : (sim.instance? id).filter Instance.isInput with
    | none =>
      rw [exec_toggle_of_none hi]
      exact h
    | some i =>
      have hflipped := throughout_toggleInput hdrive id h
      exact throughout_of_netlist? hpass (netlist?_toggle_of_some hi) hflipped

/-! ## Runs of one program -/

/-- What holds of a simulator over `catalog` that laid out `n` and was only stimulated since. -/
structure Simulator.RunOf (catalog : Catalog) (n : Netlist) (sim : Simulator) : Prop where
  catalog_eq : sim.catalog = catalog
  shape : blankAll sim.instances = blankAll n.instances
  wires : sim.wires = n.wires
  grown : Throughout (Instance.Grown catalog) sim.instances
  rest : sim.convergedLast = true → sim.top.AtRest catalog

/-- What is built anew is grown, and a pass leaves it so. -/
theorem grown_pass (i : Instance) (inputs : Pins) (h : i.Grown catalog) :
    (i.pass catalog inputs).1.Grown catalog :=
  ⟨plain_pass i inputs h.1, h.2.of_kept (kept_pass i inputs)⟩

/-- **A program is laid out.** -/
theorem runOf_of_program? {c : Command} {p : Program} (sim : Simulator)
    (hc : c.program? = some p) :
    (c.exec sim).RunOf sim.catalog (.ofProgram sim.catalog p) := by
  have hlaid := netlist?_of_program? sim hc
  have hwires : (c.exec sim).wires = (Netlist.ofProgram sim.catalog p).wires := by
    rw [Simulator.wires, (exec_of_netlist? hlaid).1]
  have hfresh : Throughout (Instance.Grown sim.catalog)
      (Netlist.ofProgram sim.catalog p).instances := by
    refine (throughout_fresh (fun part body => ?_) sim.catalog p.parts).perm (ofProgram_perm _ _)
    exact ⟨plain_fresh part body, rfl, fun _ => rfl⟩
  exact ⟨(exec_catalog sim c).1, blankAll_of_netlist? hlaid, hwires,
    throughout_of_netlist? grown_pass hlaid hfresh,
    atRest_of_convergedLast hlaid (hfresh.mono fun _ h => h.1)⟩

/-- **One stimulus more.** -/
theorem Simulator.RunOf.exec {sim : Simulator} {n : Netlist} (h : sim.RunOf catalog n) {c : Command}
    (hc : c.stimulates = true) : (c.exec sim).RunOf catalog n := by
  obtain ⟨rfl, hshape, hwires, hgrown, hrest⟩ := h
  obtain ⟨hblank, hsame⟩ := blankAll_exec sim (rebuilds_of_stimulates hc)
  have hcatalog := (exec_catalog sim c).1
  refine ⟨hcatalog, hblank.trans hshape, hsame.trans hwires, ?_, fun hconverged => ?_⟩
  · refine throughout_exec_of_stimulates grown_pass (fun i bit hinput hi => ?_) (fun i hi => ?_) hc
      hgrown
    · exact ⟨plain_drive i bit hinput, hi.2.expanded, hi.2.next⟩
    · exact ⟨plain_commit i hi.1, untouched_commit i hi.2⟩
  · cases hlaid : c.netlist? sim with
    | some laid =>
      have hplain := (lasting_plain sim.catalog).netlist? (restores_of_stimulates hc) hlaid
        (hgrown.mono fun _ h => h.1)
      exact atRest_of_convergedLast hlaid hplain hconverged
    | none =>
      cases c with
      | assemble | assembleProgram | expand | restore | tick | settle =>
        exact absurd hlaid (by simp_all [Command.netlist?, Command.stimulates])
      | toggle id =>
        have hnone : (sim.instance? id).filter Instance.isInput = none :=
          Option.map_eq_none_iff.1 hlaid
        rw [exec_toggle_of_none hnone] at hconverged ⊢
        exact hrest hconverged

theorem Simulator.RunOf.run {sim : Simulator} {n : Netlist} (h : sim.RunOf catalog n)
    {commands : List Command} (hc : ∀ c ∈ commands, c.stimulates = true) :
    (sim.run commands).RunOf catalog n :=
  run_induct commands sim (fun _ c hm hs => hs.exec (hc c hm)) h

/-- **Settled runs of one program that store the same are in the same state.** -/
theorem Simulator.RunOf.sameState {a b : Simulator} {n : Netlist} (ha : a.RunOf catalog n)
    (hb : b.RunOf catalog n) (hacyclic : n.top.AcyclicInside) (hconverged : a.convergedLast = true)
    (hconverged' : b.convergedLast = true) (hstored : a.top.SameStored b.top) :
    a.top.SameState b.top := by
  have hplain : Throughout (Instance.Plain catalog) a.instances := ha.grown.mono fun _ h => h.1
  have hplain' : Throughout (Instance.Plain catalog) b.instances := hb.grown.mono fun _ h => h.1
  have hprimed : ∀ {scope : List Instance}, Throughout (Instance.Plain catalog) scope →
      Throughout (Instance.Plain catalog) (primedAll scope) := fun h =>
    throughout_primedAll.2 fun i hi => throughout_plain_primed i (throughout_iff.1 h i hi)
  have hkept : keptAll (primedAll a.instances) = keptAll (primedAll b.instances) :=
    keptAll_primedAll_of (s := a.top) (t := b.top) (ha.shape.trans hb.shape.symm) ha.grown hb.grown
      hstored fun i _ => keepsStored i
  have hinside : Scope.AcyclicInside ⟨primedAll a.instances, a.wires, ∅⟩ :=
    hacyclic.of_blankAll (ha.shape.symm.trans (blankAll_primedAll a.instances).symm) ha.wires.symm
  have hagree : agreeAll (primedAll a.instances) (primedAll b.instances) = true := by
    refine agreeAll_of_atRest (s := ⟨primedAll a.instances, a.wires, ∅⟩)
      (t := ⟨primedAll b.instances, b.wires, ∅⟩) hinside hkept (fun target => ?_) (fun _ => rfl)
      (hprimed hplain) (hprimed hplain') ?_ ?_
    · rw [ha.wires, hb.wires]
    · exact Scope.AtRest.primed (ha.rest hconverged) hplain
    · exact Scope.AtRest.primed (hb.rest hconverged') hplain'
  intro path k
  -- from the one circuit to the primed one, over to the other primed one, and back
  have hto := instanceAt?_primedAll (s := a.top)
    (t := ⟨primedAll a.instances, a.wires, ∅⟩) hplain rfl path k
  have hback := instanceAt?_primedAll (s := b.top)
    (t := ⟨primedAll b.instances, b.wires, ∅⟩) hplain' rfl path k
  have hover := instanceAt?_of_agreeAll (s := ⟨primedAll a.instances, a.wires, ∅⟩)
    (t := ⟨primedAll b.instances, b.wires, ∅⟩) hagree path k
  refine rel_trans (fun i i' j hi hij => ?_) hto
    (rel_trans (R := fun i' j' => i'.agree j' = true) (T := fun i' j => ∃ j', i'.agree j' = true ∧
      j.LooksLike j') (fun i' j' j hij hj => ⟨j', hij, hj⟩) hover (rel_symm hback))
  obtain ⟨j', hij, hj⟩ := hij
  have hsame := sameState_of_agree hij
  exact ⟨hi.part.symm.trans (hsame.part.trans hj.part),
    hi.value.symm.trans (hsame.value.trans hj.value), hi.next.symm.trans (hsame.next.trans hj.next),
    fun pin => by rw [← hi.inputs, hsame.inputs, hj.inputs],
    fun pin => by rw [← hi.output, hsame.output, hj.output]⟩

/-! ## Toggles -/

theorem flipped_flipped_kept (id : String) (i : Instance) :
    (Instance.flipped id (Instance.flipped id i)).kept = i.kept := by
  unfold Instance.flipped
  by_cases h : i.id = id ∧ i.isInput = true
  · have hstill : (i.drive (!i.value)).id = id ∧ (i.drive (!i.value)).isInput = true := h
    rw [if_pos h, if_pos hstill]
    obtain ⟨part, expanded, s, body⟩ := i
    cases body_of_isInput h.2
    change Instance.kept
      ⟨part, expanded, (s.drive (!s.value)).drive (!!s.value), .primitive .input⟩ = _
    rw [kept_primitive, kept_primitive, Bool.not_not]
    rfl
  · rw [if_neg h, if_neg h]

theorem flipped_comm (x y : String) (i : Instance) :
    Instance.flipped y (Instance.flipped x i) = Instance.flipped x (Instance.flipped y i) := by
  have hid : ∀ z : String, (Instance.flipped z i).id = i.id ∧
      (Instance.flipped z i).isInput = i.isInput := by
    intro z
    unfold Instance.flipped
    split <;> exact ⟨rfl, rfl⟩
  by_cases hx : i.id = x ∧ i.isInput = true
  · by_cases hy : i.id = y ∧ i.isInput = true
    · rw [← hx.1, ← hy.1]
    · have hkeep : ∀ j : Instance, j.id = i.id ∧ j.isInput = i.isInput →
          Instance.flipped y j = j := fun j hj => if_neg (by rwa [hj.1, hj.2])
      rw [hkeep _ (hid x), hkeep i ⟨rfl, rfl⟩]
  · have hkeep : ∀ j : Instance, j.id = i.id ∧ j.isInput = i.isInput →
        Instance.flipped x j = j := fun j hj => if_neg (by rwa [hj.1, hj.2])
    rw [hkeep _ (hid y), hkeep i ⟨rfl, rfl⟩]

/-- A toggle leaves of what is kept what the flip does. -/
theorem keptAll_exec_toggle {sim : Simulator} (hnodup : (sim.instances.map Instance.id).Nodup)
    (id : String) : keptAll ((Command.toggle id).exec sim).instances =
      keptAll (sim.instances.map (Instance.flipped id)) := by
  rw [← toggleInput_eq_map hnodup]
  cases hi : (sim.instance? id).filter Instance.isInput with
  | none =>
    rw [exec_toggle_of_none hi]
    unfold toggleInput
    rw [show (findInstance? sim.instances id).filter Instance.isInput = none from hi]
    rfl
  | some i =>
    rw [instances_of_netlist? (netlist?_toggle_of_some hi)]
    exact keptAll_settle _ _

/-- **Two toggles leave of what is kept what two flips do.** -/
theorem keptAll_toggle_toggle {sim : Simulator} (hnodup : (sim.instances.map Instance.id).Nodup)
    (x y : String) : keptAll (sim.run [.toggle x, .toggle y]).instances =
      keptAll (sim.instances.map fun i => Instance.flipped y (Instance.flipped x i)) := by
  have hfirst := keptAll_exec_toggle hnodup x
  have hids : ((Command.toggle x).exec sim).instances.map Instance.id =
      sim.instances.map Instance.id :=
    map_id_of_blankAll (blankAll_exec sim (c := .toggle x) rfl).1
  have hsecond := keptAll_exec_toggle (hids ▸ hnodup) y
  have hflips := keptAll_map_congr hfirst fun _ _ _ _ _ hij => kept_flipped hij y
  rw [List.map_map] at hflips
  exact hsecond.trans hflips

theorem clock_exec_toggle (sim : Simulator) (id : String) :
    ((Command.toggle id).exec sim).clock = sim.clock := by
  simp only [Command.exec, Simulator.toggle]
  split <;> rfl

/-! ## The theorem -/

/-- **No hidden state.** Take a program with distinct ids whose scopes are all acyclic, and two runs
of it by toggles, clock edges and settlings, of any length, that both end settled. If every switch
and every flip-flop, at every depth, has the same bit in both, then every instance is in the same
state in both. So a toggle made twice restores the state, and toggles commute, if the circuit is
settled before and after. -/
theorem no_hidden_state (a b : Simulator) (p : Program) (c d : Command)
    (commands others : List Command) (hcatalog : b.catalog = a.catalog)
    (hc : c.program? = some p) (hd : d.program? = some p) (hnodup : (p.parts.map Part.id).Nodup)
    (hacyclic : ∀ s, (Netlist.ofProgram a.catalog p).top.Holds s → s.Acyclic)
    (hcommands : ∀ e ∈ commands, e.stimulates = true)
    (hothers : ∀ e ∈ others, e.stimulates = true) :
    let sim := a.run (c :: commands)
    let other := b.run (d :: others)
    (sim.convergedLast = true → other.convergedLast = true → sim.top.SameStored other.top →
        sim.top.SameState other.top) ∧
      (∀ x, sim.convergedLast = true → (sim.run [.toggle x, .toggle x]).convergedLast = true →
        (sim.run [.toggle x, .toggle x]).top.SameState sim.top ∧
          (sim.run [.toggle x, .toggle x]).clock = sim.clock) ∧
      ∀ x y, (sim.run [.toggle x, .toggle y]).convergedLast = true →
        (sim.run [.toggle y, .toggle x]).convergedLast = true →
          (sim.run [.toggle x, .toggle y]).top.SameState (sim.run [.toggle y, .toggle x]).top ∧
            (sim.run [.toggle x, .toggle y]).clock = (sim.run [.toggle y, .toggle x]).clock := by
  intro sim other
  have hsim : sim.RunOf a.catalog (.ofProgram a.catalog p) := (runOf_of_program? a hc).run hcommands
  have hother : other.RunOf a.catalog (.ofProgram a.catalog p) :=
    hcatalog ▸ (runOf_of_program? b hd).run hothers
  have htoggles : ∀ x y,
      (sim.run [.toggle x, .toggle y]).RunOf a.catalog (.ofProgram a.catalog p) :=
    fun x y => hsim.run (by simp [Command.stimulates])
  have hids : (sim.instances.map Instance.id).Nodup := by
    have hlaid := (ofProgram_perm a.catalog p).map Instance.id
    rw [map_id_fresh] at hlaid
    rw [map_id_of_blankAll hsim.shape]
    exact hlaid.nodup_iff.2 hnodup
  have hclock : ∀ x y, (sim.run [.toggle x, .toggle y]).clock = sim.clock := fun x y =>
    (clock_exec_toggle _ y).trans (clock_exec_toggle sim x)
  refine ⟨fun h h' hstored => hsim.sameState hother hacyclic h h' hstored, fun x h h' => ?_,
    fun x y h h' => ?_⟩
  · have hkept : keptAll (sim.run [.toggle x, .toggle x]).instances = keptAll sim.instances := by
      rw [keptAll_toggle_toggle hids, keptAll_eq_map, keptAll_eq_map, List.map_map]
      exact List.map_congr_left fun i _ => flipped_flipped_kept x i
    exact ⟨(htoggles x x).sameState hsim hacyclic h' h (sameStored_of_keptAll hkept), hclock x x⟩
  · have hkept : keptAll (sim.run [.toggle x, .toggle y]).instances =
        keptAll (sim.run [.toggle y, .toggle x]).instances := by
      rw [keptAll_toggle_toggle hids, keptAll_toggle_toggle hids]
      exact congrArg keptAll (List.map_congr_left fun i _ => flipped_comm x y i)
    exact ⟨(htoggles x y).sameState (htoggles y x) hacyclic h h' (sameStored_of_keptAll hkept),
      (hclock x y).trans (hclock y x).symm⟩

/-- Two switches, one of them latched, and a gate of both. -/
def latchedAnd : Program :=
  ⟨[.part ⟨"a", "INPUT", none⟩, .part ⟨"b", "INPUT", none⟩, .part ⟨"d", "DFF", none⟩,
    .part ⟨"g", "AND", none⟩, .wire ⟨"a", "d", .implicit⟩, .wire ⟨"d", "g", .implicit⟩,
    .wire ⟨"b", "g", .implicit⟩]⟩

/-- A flip-flop that was never clocked, and one that was clocked until it was low again: only the
latter has an output, and the circuits are in the same state. -/
theorem no_hidden_state_latchedAnd :
    let sim := (Simulator.new Standard.catalog {}).run [.assembleProgram latchedAnd, .toggle "b"]
    let other := (Simulator.new Standard.catalog {}).run
      [.assembleProgram latchedAnd, .toggle "a", .tick, .toggle "b", .toggle "a", .tick]
    (sim.instance? "d").map (fun i => i.signals.outputs.size) = some 0 ∧
      (other.instance? "d").map (fun i => i.signals.outputs.size) = some 1 ∧
      sim.top.SameState other.top ∧
      (sim.run [.toggle "a", .toggle "a"]).top.SameState sim.top ∧
      (sim.run [.toggle "a", .toggle "b"]).top.SameState
        (sim.run [.toggle "b", .toggle "a"]).top := by
  intro sim other
  have hforward : (Netlist.ofProgram Standard.catalog latchedAnd).top.listedForward = true := by
    decide +kernel
  obtain ⟨hstate, htwice, hcomm⟩ := no_hidden_state (Simulator.new Standard.catalog {})
    (Simulator.new Standard.catalog {}) latchedAnd (.assembleProgram latchedAnd)
    (.assembleProgram latchedAnd) [.toggle "b"]
    [.toggle "a", .tick, .toggle "b", .toggle "a", .tick] rfl rfl rfl (by decide)
    (acyclicInside_of_listedForward hforward) (by decide) (by decide)
  -- there are no insides, so that only the seats at the top matter
  have hleaf : ∀ i ∈ sim.instances, i.inside?.isNone = true := by decide +kernel
  have hvalues : sim.instances.map Instance.value = other.instances.map Instance.value := by
    decide +kernel
  have hstored : sim.top.SameStored other.top := by
    intro path k i j hi hj _
    cases path with
    | nil => exact eq_of_map_eq hvalues hi hj
    | cons m path =>
      have hnone : sim.top.inside? m = none := by
        unfold Scope.inside?
        cases hm : sim.top.instances[m]? with
        | none => rfl
        | some i => exact Option.isNone_iff_eq_none.1 (hleaf i (List.mem_of_getElem? hm))
      unfold Scope.instanceAt? Scope.at? at hi
      rw [hnone] at hi
      exact absurd hi (by simp)
  exact ⟨by decide +kernel, by decide +kernel,
    hstate (by decide +kernel) (by decide +kernel) hstored,
    (htwice "a" (by decide +kernel) (by decide +kernel)).1,
    (hcomm "a" "b" (by decide +kernel) (by decide +kernel)).1⟩

end Breadboard
