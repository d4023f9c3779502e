import Breadboard.Proofs.Frame
import Breadboard.Proofs.Overlay

/-!
# The pin `OUT` and the value of a primitive

A primitive has its bit twice, as its value and on its pin `OUT`. Every pass drives both for a gate
or a switch. For a flip-flop only a clock edge does: whatever else happens, the two stay as they
are, so all depends on how they were laid out. A program lays out flip-flops that are low on both.
A snapshot can say anything of both, and is believed: only a record without outputs is completed.

* `throughout_showsValue_settle`: after a settling, every gate and switch shows its value on `OUT`;
* `throughout_exec_iff`: what one operation makes of the flip-flops;
* **`out_shows_value_iff`**: after every run, all primitives show their values iff the flip-flops of
  the snapshot that was restored last did, unless they were clocked or built anew since;
* `split_flipFlop`: a flip-flop that never shows its value until the clock ticks.
-/

namespace Breadboard

variable {catalog : Catalog}

/-- If the instance is a primitive of one of these kinds, its pin `OUT` carries its value. -/
def Instance.ShowsValue (kinds : PrimitiveKind → Prop) (i : Instance) : Prop :=
  ∀ kind, i.body = .primitive kind → kinds kind → i.output outPin = i.value

variable {kinds : PrimitiveKind → Prop} {i j : Instance}

theorem Signals.output_drive (s : Signals) (bit : Bool) : (s.drive bit).output outPin = bit := by
  simp [Signals.output]

theorem showsValue_of_body (h : ∀ kind, i.body = .primitive kind → ¬kinds kind) :
    i.ShowsValue kinds :=
  fun kind hkind hk => absurd hk (h kind hkind)

/-! ## Gates and switches -/

/-- A pass drives every gate and switch. -/
theorem showsValue_pass (i : Instance) (inputs : Pins) :
    (i.pass catalog inputs).1.ShowsValue (· ≠ .dff) := by
  obtain ⟨part, expanded, s, body⟩ := i
  cases body with
  | unknown =>
    rw [pass_unknown]
    exact showsValue_of_body fun kind hkind => absurd hkind (by simp)
  | composite parts inner =>
    rw [pass_composite]
    exact showsValue_of_body fun kind hkind => absurd hkind (by simp)
  | primitive kind =>
    rw [pass_primitive]
    intro kind' hkind hk
    cases hkind
    rw [compute_gate hk]
    exact Signals.output_drive _ _

/-- **After a settling every gate and switch shows its value on `OUT`**, at every depth. -/
theorem throughout_showsValue_settle (wires : List Wire) (limit : Nat) (scope : List Instance) :
    Throughout (Instance.ShowsValue (· ≠ .dff)) (settle catalog wires limit scope).1 := by
  unfold settle
  obtain ⟨earlier, h⟩ : ∃ earlier, (settleFrom catalog wires 0 (limit - 1) scope).1 =
      (passAll catalog wires ∅ earlier).1 := settleFrom_eq_passAll (limit - 1) 0 scope
  rw [h]
  exact throughout_passAll (P := fun _ => True) (fun i inputs _ => showsValue_pass i inputs)
    fun _ _ => trivial

/-! ## Flip-flops -/

/-- Whether a flip-flop shows its value is a matter of what no pass changes. -/
theorem showsValue_of_kept (h : i.kept = j.kept) (hi : i.ShowsValue (· = .dff)) :
    j.ShowsValue (· = .dff) := by
  rintro kind hbody rfl
  have hflip : j.isFlipFlop = true := by
    unfold Instance.isFlipFlop
    rw [hbody]
  obtain ⟨-, -, hhollow, hsame, -⟩ := sameButSettled_of_kept h
  obtain ⟨hvalue, houtputs⟩ := hsame hflip
  have hout := hi .dff (body_of_isFlipFlop ((isFlipFlop_of_hollow hhollow).trans hflip)) rfl
  unfold Instance.output Signals.output at hout ⊢
  rw [← houtputs, ← hvalue]
  exact hout

/-- A settling neither makes nor breaks it. -/
theorem throughout_settle_iff (wires : List Wire) (limit : Nat) (scope : List Instance) :
    Throughout (Instance.ShowsValue (· = .dff)) (settle catalog wires limit scope).1 ↔
      Throughout (Instance.ShowsValue (· = .dff)) scope :=
  ⟨throughout_of_keptAll (fun _ _ => showsValue_of_kept) (keptAll_settle limit scope),
    throughout_of_keptAll (fun _ _ => showsValue_of_kept) (keptAll_settle limit scope).symm⟩

/-- A clock edge drives every flip-flop. -/
theorem showsValue_commit (i : Instance) : i.commit.1.ShowsValue (· = .dff) := by
  by_cases hk : i.body = .primitive .dff
  · obtain ⟨part, expanded, s, body⟩ := i
    cases hk
    rw [commit_flipFlop]
    exact fun _ _ _ => Signals.output_drive _ _
  · have hbody : i.commit.1.body ≠ .primitive .dff := by
      obtain ⟨part, expanded, s, body⟩ := i
      cases body with
      | composite parts inner =>
        rw [commit_composite]
        simp
      | unknown | primitive =>
        rw [commit_leaf rfl hk]
        exact hk
    exact showsValue_of_body fun kind hkind hdff => hbody (hdff ▸ hkind)

theorem throughout_showsValue_ofProgram (catalog : Catalog) (program : Program) :
    Throughout (Instance.ShowsValue (· = .dff)) (Netlist.ofProgram catalog program).instances :=
  (throughout_fresh (fun _ _ _ _ _ => rfl) catalog program.parts).perm (ofProgram_perm _ _)

/-- A toggle neither makes nor breaks it: a switch is no flip-flop. -/
theorem throughout_toggleInput_iff (scope : List Instance) (id : String) :
    Throughout (Instance.ShowsValue (· = .dff)) (toggleInput scope id) ↔
      Throughout (Instance.ShowsValue (· = .dff)) scope := by
  unfold toggleInput
  split
  · rename_i found hfound
    obtain ⟨hfind, hinput⟩ := Option.filter_eq_some_iff.1 hfound
    refine throughout_updateInstance_iff fun i hi => ?_
    obtain rfl : found = i := Option.some.inj (hfind.symm.trans hi)
    have hbody := body_of_isInput hinput
    have hswitch : ∀ j : Instance, j.body = .primitive .input →
        j.Throughout (Instance.ShowsValue (· = .dff)) := by
      intro j hj
      refine (Instance.throughout_leaf (by unfold Instance.isComposite; rw [hj])).2 ?_
      rintro kind hkind rfl
      rw [hj] at hkind
      cases hkind
    exact iff_of_true (hswitch _ hbody) (hswitch _ hbody)
  · rfl

/-- Drawing neither makes nor breaks it. -/
theorem throughout_draw_iff (scope : List Instance) (id : String) (expanded : Bool) :
    Throughout (Instance.ShowsValue (· = .dff))
        (updateInstance scope id fun i => { i with expanded }) ↔
      Throughout (Instance.ShowsValue (· = .dff)) scope := by
  refine throughout_updateInstance_iff fun i _ => ?_
  unfold Instance.Throughout
  rw [descendants_draw]
  rfl

/-! ## Runs -/

/-- Of the snapshots restored so far, the one that the flip-flops still hold: the last one, unless
the clock has ticked or a program has been laid out since. -/
def Command.held (last : Option Snapshot) : Command → Option Snapshot
  | assemble _ | assembleProgram _ | tick => none
  | toggle _ | settle | expand _ _ => last
  | restore saved => some saved

/-- The snapshot that the flip-flops hold after a run. -/
def heldSnapshot? (commands : List Command) : Option Snapshot := commands.foldl Command.held none

/-- The flip-flops show their values iff those that were laid out from a held snapshot did. -/
def Simulator.ShowsHeld (sim : Simulator) (last : Option Snapshot) : Prop :=
  Throughout (Instance.ShowsValue (· = .dff)) sim.instances ↔
    ∀ saved, last = some saved →
      Throughout (Instance.ShowsValue (· = .dff)) (saved.netlist sim.catalog).instances

/-- **What one operation makes of the flip-flops.** -/
theorem throughout_exec_iff {sim : Simulator} {last : Option Snapshot} (h : sim.ShowsHeld last)
    (c : Command) : (c.exec sim).ShowsHeld (c.held last) := by
  have hsettled : ∀ netlist, c.netlist? sim = some netlist →
      (Throughout (Instance.ShowsValue (· = .dff)) (c.exec sim).instances ↔
        Throughout (Instance.ShowsValue (· = .dff)) netlist.instances) := by
    intro netlist hlaid
    rw [instances_of_netlist? hlaid]
    exact throughout_settle_iff _ _ _
  unfold Simulator.ShowsHeld at h ⊢
  rw [(exec_catalog sim c).1]
  cases c with
  | assemble | assembleProgram =>
    rw [hsettled _ rfl]
    exact iff_of_true (throughout_showsValue_ofProgram _ _) fun _ hnone => absurd hnone (by
      simp [Command.held])
  | tick =>
    rw [hsettled _ rfl]
    refine iff_of_true ?_ fun _ hnone => absurd hnone (by simp [Command.held])
    exact throughout_commitAll (P := fun _ => True) (fun i _ => showsValue_commit i)
      fun _ _ => trivial
  | restore saved =>
    rw [hsettled _ rfl]
    simp [Command.held]
  | settle =>
    rw [hsettled _ rfl]
    exact h
  | expand id expanded => exact (throughout_draw_iff sim.instances id expanded).trans h
  | toggle id =>
    cases hi : (sim.instance? id).filter Instance.isInput with
    | none =>
      rw [exec_toggle_of_none hi]
      exact h
    | some i =>
      rw [hsettled _ (netlist?_toggle_of_some hi)]
      exact (throughout_toggleInput_iff sim.instances id).trans h

theorem showsHeld_run (commands : List Command) : ∀ (sim : Simulator) (last : Option Snapshot),
    sim.ShowsHeld last → (sim.run commands).ShowsHeld (commands.foldl Command.held last) := by
  induction commands with
  | nil => exact fun _ _ h => h
  | cons c rest ih =>
    exact fun sim last h => ih (c.exec sim) (c.held last) (throughout_exec_iff h c)

/-- After every run, gates and switches show their values. -/
theorem throughout_showsValue_run (sim : Simulator) (commands : List Command)
    (hsim : Throughout (Instance.ShowsValue (· ≠ .dff)) sim.instances) :
    Throughout (Instance.ShowsValue (· ≠ .dff)) (sim.run commands).instances := by
  refine run_induct (P := fun s => Throughout (Instance.ShowsValue (· ≠ .dff)) s.instances)
    commands sim (fun s c _ h => ?_) hsim
  cases hlaid : c.netlist? s with
  | some netlist =>
    rw [instances_of_netlist? hlaid]
    exact throughout_showsValue_settle _ _ _
  | none =>
    rcases (exec_of_not_netlist? hlaid).1 with heq | ⟨id, expanded, heq⟩
    · rw [heq]
      exact h
    · rw [heq]
      exact throughout_draw (fun _ _ h => h) id expanded h

/-- A record lays out a flip-flop that shows its value iff it has no outputs, or its `OUT` is its
value. -/
theorem showsValue_overlay_iff (saved : InstanceSnapshot) (hi : i.body = .primitive .dff) :
    (saved.overlay i).ShowsValue (· = .dff) ↔
      (saved.signals.outputs.isEmpty = true ∨
        saved.signals.output outPin = saved.signals.value) := by
  obtain ⟨part, expanded, s, body⟩ := i
  cases hi
  rw [overlay_primitive]
  by_cases hempty : saved.signals.outputs.isEmpty = true
  · rw [if_pos hempty]
    exact iff_of_true (fun _ _ _ => Signals.output_drive _ _) (Or.inl hempty)
  · rw [if_neg hempty]
    constructor
    · intro h
      exact Or.inr (h .dff rfl rfl)
    · intro h kind _ _
      exact h.resolve_left hempty

/-- **When `OUT` carries the value.** After any operations, one after the other, it does for every
gate and every switch at every depth. For every primitive it does iff it did for the flip-flops that
the last restored snapshot laid out, unless the clock has ticked or a program has been laid out
since; and it did for those if each record that was laid over a flip-flop has no outputs at all, or
an `OUT` with its value. -/
theorem out_shows_value_iff (catalog : Catalog) (options : SimOptions) (commands : List Command) :
    let sim := (Simulator.new catalog options).run commands
    Throughout (Instance.ShowsValue (· ≠ .dff)) sim.instances ∧
    (Throughout (Instance.ShowsValue fun _ => True) sim.instances ↔
      ∀ saved, heldSnapshot? commands = some saved →
        Throughout (Instance.ShowsValue (· = .dff)) (saved.netlist catalog).instances) ∧
    ∀ saved : Snapshot,
      (∀ m ∈ saved.meetings catalog, m.2.body = .primitive .dff →
        m.1.signals.outputs.isEmpty = true ∨ m.1.signals.output outPin = m.1.signals.value) →
      Throughout (Instance.ShowsValue (· = .dff)) (saved.netlist catalog).instances := by
  intro sim
  have hgates : Throughout (Instance.ShowsValue (· ≠ .dff)) sim.instances :=
    throughout_showsValue_run _ commands throughout_nil
  have hcatalog : sim.catalog = catalog := (run_catalog (Simulator.new catalog options) commands).1
  have hflips : sim.ShowsHeld (heldSnapshot? commands) :=
    showsHeld_run commands (Simulator.new catalog options) none
      (iff_of_true throughout_nil fun _ h => absurd h (by simp))
  unfold Simulator.ShowsHeld at hflips
  rw [hcatalog] at hflips
  refine ⟨hgates, Iff.trans ⟨fun h => ?_, fun h i hi => ?_⟩ hflips, fun saved hmet => ?_⟩
  · exact h.mono fun i hi kind hkind _ => hi kind hkind trivial
  · intro kind hkind _
    by_cases hk : kind = .dff
    · exact h i hi kind hkind hk
    · exact hgates i hi kind hkind hk
  · refine throughout_restored (fun part => throughout_bodyOf (fun _ _ _ _ _ => rfl) catalog _ _)
      fun m hm => ?_
    by_cases hk : m.2.body = .primitive .dff
    · exact (showsValue_overlay_iff m.1 hk).2 (hmet m hm hk)
    · refine showsValue_of_body fun kind hkind hdff => hk ?_
      subst hdff
      exact overlay_body_primitive_iff.1 hkind

/-- A switch, a flip-flop that it feeds, and a negation that reads the flip-flop's `OUT`: saved in
the middle of a count by someone who writes no outputs. -/
def sparseFlipFlop : Snapshot where
  instances := [
    { part := ⟨"a", "INPUT", none⟩ },
    { part := ⟨"q", "DFF", none⟩, signals := { value := true } },
    { part := ⟨"n", "NOT", none⟩, signals := { outputs := .ofList [("OUT", true)] } }]
  wires := [Standard.feed "a" "q", Standard.outOf "q" outPin "n"]

/-- The flip-flop comes back with its bit on `OUT`. -/
theorem out_shows_value_sparseFlipFlop :
    let sim := (Simulator.new Standard.catalog {}).run [.restore sparseFlipFlop, .toggle "a"]
    heldSnapshot? [.restore sparseFlipFlop, .toggle "a"] = some sparseFlipFlop ∧
      sim.output? "q" outPin = some true ∧ sim.value? "n" = some false ∧
      Throughout (Instance.ShowsValue fun _ => True) sim.instances := by
  intro sim
  obtain ⟨-, hiff, hrecords⟩ :=
    out_shows_value_iff Standard.catalog {} [.restore sparseFlipFlop, .toggle "a"]
  refine ⟨rfl, by decide +kernel, by decide +kernel, hiff.2 fun saved hheld => ?_⟩
  obtain rfl : sparseFlipFlop = saved := Option.some.inj hheld
  refine hrecords _ fun m hm hflip => ?_
  -- the one record that has outputs is not laid over a flip-flop
  have hcheck : (sparseFlipFlop.meetings Standard.catalog).all
      (fun m => !m.2.isFlipFlop || m.1.signals.outputs.isEmpty) = true := by decide +kernel
  have hown := List.all_eq_true.1 hcheck m hm
  rw [show m.2.isFlipFlop = true by unfold Instance.isFlipFlop; rw [hflip]] at hown
  exact Or.inl (by simpa using hown)

/-- A high flip-flop saved with a low `OUT`, and a negation that reads that pin. -/
def splitFlipFlop : Snapshot where
  instances := [
    { part := ⟨"q", "DFF", none⟩
      signals := { value := true, outputs := .ofList [("OUT", false)] } },
    { part := ⟨"n", "NOT", none⟩ }]
  wires := [Standard.outOf "q" outPin "n"]

/-- **A flip-flop that does not show its value on `OUT`**, in a circuit that settled. -/
theorem splitFlipFlop_hides_value :
    let sim := (Simulator.new Standard.catalog {}).run [.restore splitFlipFlop]
    sim.lastReport = some ⟨2, true⟩ ∧ sim.value? "q" = some true ∧
      sim.output? "q" outPin = some false ∧ sim.value? "n" = some true ∧
      ¬Throughout (Instance.ShowsValue fun _ => True) sim.instances := by
  intro sim
  refine ⟨by decide +kernel, by decide +kernel, by decide +kernel, by decide +kernel, fun h => ?_⟩
  have hsplit :
      sim.instances.any (fun i => i.isFlipFlop && i.value && !i.output outPin) = true := by
    decide +kernel
  obtain ⟨i, hi, hbits⟩ := List.any_eq_true.1 hsplit
  simp only [Bool.and_eq_true, Bool.not_eq_true'] at hbits
  have hshows := (throughout_iff.1 h i hi).1 .dff (body_of_isFlipFlop hbits.1.1) trivial
  rw [hbits.1.2, hbits.2] at hshows
  exact absurd hshows (by decide)

end Breadboard
