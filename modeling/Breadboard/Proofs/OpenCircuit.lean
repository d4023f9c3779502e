import Breadboard.Proofs.Reported
import Breadboard.Proofs.Upstream

/-!
# Unknown chips are open circuits

An instance of which nothing is known has low outputs from the moment it is built. A wire from it
reads what a wire from nowhere reads, whether it names a pin or not, and takes the same pin of its
target; so such an instance can be severed from the others, wherever its wires lead. It may still
cost passes, since it takes down its own inputs.

* `severable_unknown`: what is unknown and low can be severed, with all wires left where they are;
* `Simulator.Sheds`: one simulator holds what the other one holds, but for unknown instances
  (`Simulator.Sheds.exec`, `Simulator.Sheds.run`);
* **`unknown_is_open_circuit`**: a circuit evolves as it does without an unknown instance.
-/

namespace Breadboard

variable {catalog : Catalog} {wires : List Wire} {keep : String → Bool}

theorem isUnknown_of_blank {i j : Instance} (h : i.blank = j.blank) :
    i.isUnknown = j.isUnknown := by
  rw [← isUnknown_blank, h, isUnknown_blank]

/-- Nothing is known of any instance that is left out. -/
def OmitsUnknown (keep : String → Bool) (scope : List Instance) : Prop :=
  ∀ i ∈ scope, keep i.id = false → i.isUnknown = true

theorem OmitsUnknown.of_blankAll {scope scope' : List Instance} (h : OmitsUnknown keep scope)
    (hblank : blankAll scope' = blankAll scope) : OmitsUnknown keep scope' := by
  intro i hi hkeep
  obtain ⟨k, hk⟩ := List.mem_iff_getElem?.1 hi
  obtain ⟨j, hj, hij⟩ := getElem?_of_blankAll hblank hk
  rw [← isUnknown_of_blank hij]
  exact h j (List.mem_of_getElem? hj) (id_of_blank hij ▸ hkeep)

/-! ## Severing -/

/-- **A wire reads the same without the instances that are unknown**, if their outputs are low: it
reads low from them, and from where nothing is. -/
theorem read_restrictAll_of_low {scope : List Instance} (hunknown : OmitsUnknown keep scope)
    (hlow : ∀ i ∈ scope, i.LowIfUnknown) (wire : Wire) :
    wire.read (restrictAll keep scope) ∅ = wire.read scope ∅ := by
  unfold Wire.read
  cases hkeep : keep wire.source with
  | true => rw [findInstance?_restrictAll hkeep]
  | false =>
    rw [findInstance?_restrictAll_of_not_keep hkeep]
    cases hfind : findInstance? scope wire.source with
    | none => rfl
    | some i =>
      have hi : i ∈ scope := List.mem_of_find?_eq_some hfind
      have hid : i.id = wire.source := by simpa using List.find?_some hfind
      obtain ⟨hvalue, houtput⟩ := hlow i hi (hunknown i hi (hid.symm ▸ hkeep))
      cases hpin : wire.sourcePin with
      | none => exact hvalue.symm
      | some pin => exact (houtput pin).symm

/-- **Unknown instances can be severed** from the others, with all wires left where they are. -/
theorem severable_unknown : Severable catalog keep wires wires ∅
    fun scope => OmitsUnknown keep scope ∧ ∀ i ∈ scope, i.LowIfUnknown where
  into := fun _ _ => rfl
  read := fun _ h wire _ _ => read_restrictAll_of_low h.1 h.2 wire
  pass := by
    rintro visited i rest inputs ⟨hunknown, hlow⟩
    have hmem : i ∈ visited ++ i :: rest := List.mem_append_right visited List.mem_cons_self
    have hold : ∀ j, j ∈ visited ++ (i.pass catalog inputs).1 :: rest →
        j = (i.pass catalog inputs).1 ∨ j ∈ visited ++ i :: rest := by
      intro j hj
      simp only [List.mem_append, List.mem_cons] at hj ⊢
      tauto
    have hblank : (i.pass catalog inputs).1.blank = i.blank := blank_of_kept (kept_pass i inputs)
    constructor
    · intro j hj hkeep
      rcases hold j hj with rfl | hj
      · rw [isUnknown_of_blank hblank]
        exact hunknown i hmem (id_of_blank hblank ▸ hkeep)
      · exact hunknown j hj hkeep
    · intro j hj
      rcases hold j hj with rfl | hj
      · exact (lasting_lowIfUnknown catalog).pass i inputs (hlow i hmem)
      · exact hlow j hj

/-! ## Simulators -/

/-- A settling that converged, in at most as many passes as the other one. -/
def SettleReport.NoLater (report report' : SettleReport) : Prop :=
  report'.converged = true ∧ report'.passes ≤ report.passes

/-- `part` holds what `whole` holds, but for unknown instances, whose outputs are low. Both have
settled last, `part` no later. -/
structure Simulator.Sheds (keep : String → Bool) (whole part : Simulator) : Prop where
  catalog : part.catalog = whole.catalog
  options : part.options = whole.options
  instances : part.instances = restrictAll keep whole.instances
  wires : part.wires = whole.wires
  unknown : OmitsUnknown keep whole.instances
  low : Throughout Instance.LowIfUnknown whole.instances
  tidy : Throughout Instance.Tidy whole.instances
  settled : Option.Rel SettleReport.NoLater whole.lastReport part.lastReport

/-- A toggle is the same operation on the part: what is left out is no switch. -/
theorem OmitsUnknown.within_eq {scope : List Instance} (h : OmitsUnknown keep scope)
    (c : Command) : c.within keep (isSwitch scope) = c := by
  cases c with
  | assemble | assembleProgram | tick | settle | expand | restore => rfl
  | toggle id =>
    rw [Command.within, if_neg]
    intro hboth
    obtain ⟨hswitch, hkeep⟩ := Bool.and_eq_true_iff.1 hboth
    obtain ⟨i, hi⟩ := Option.isSome_iff_exists.1 hswitch
    obtain ⟨hfind, hinput⟩ := Option.filter_eq_some_iff.1 hi
    have hid : i.id = id := by simpa using List.find?_some hfind
    have hunknown := h i (List.mem_of_find?_eq_some hfind) (by simpa [hid] using hkeep)
    exact absurd ((isUnknown_iff.1 hunknown).symm.trans (body_of_isInput hinput)) (by simp)

section Sheds

variable {whole part : Simulator}

/-- **One operation more.** -/
theorem Simulator.Sheds.exec (h : whole.Sheds keep part) {c : Command} (hc : c.stimulates = true)
    (hconverged : (c.exec whole).convergedLast = true) :
    (c.exec whole).Sheds keep (c.exec part) := by
  have hlaid := netlist?_within h.instances (fun _ => rfl) hc
  rw [h.unknown.within_eq] at hlaid
  cases hn : c.netlist? whole with
  | none =>
    rw [hn] at hlaid
    obtain ⟨issues, heq⟩ := exec_of_stimulates_none hc hn
    obtain ⟨issues', heq'⟩ := exec_of_stimulates_none hc hlaid
    rw [heq, heq']
    exact ⟨h.catalog, h.options, h.instances, h.wires, h.unknown, h.low, h.tidy, h.settled⟩
  | some n =>
    rw [hn, Option.map_some] at hlaid
    have hstays := restores_of_stimulates hc
    obtain ⟨hblank, hwires⟩ := Command.netlist?_shape (rebuilds_of_stimulates hc) hn
    have hunknown := h.unknown.of_blankAll hblank
    have hlow := (lasting_lowIfUnknown whole.catalog).netlist? hstays hn h.low
    have htidy := (lasting_tidy whole.catalog).netlist? hstays hn h.tidy
    obtain ⟨hwhole, hreport⟩ := exec_of_netlist? hn
    obtain ⟨hpart, hreport'⟩ := exec_of_netlist? hlaid
    have hsettled := converged_of_convergedLast hn hconverged
    have hsame : part.settled ⟨restrictAll keep n.instances, part.wires⟩ =
        settle whole.catalog n.wires whole.options.maxPasses.toNat
          (restrictAll keep n.instances) := by
      unfold Simulator.settled
      rw [h.catalog, h.options, h.wires, hwires]
    obtain ⟨hinstances, hnoLater⟩ := severable_unknown.restrict_settle
      ⟨hunknown, fun i hi => (throughout_iff.1 hlow i hi).1⟩ htidy hsettled
    have hover := exec_catalog whole c
    have hover' := exec_catalog part c
    constructor
    · rw [hover.1, hover'.1, h.catalog]
    · rw [hover.2, hover'.2, h.options]
    · rw [instances_of_netlist? hlaid, instances_of_netlist? hn, hsame, hinstances]
      rfl
    · exact (congrArg Netlist.wires hpart).trans
        (h.wires.trans (hwires.symm.trans (congrArg Netlist.wires hwhole).symm))
    · exact hunknown.of_blankAll (blankAll_of_netlist? hn)
    · exact (lasting_lowIfUnknown whole.catalog).exec hstays h.low
    · exact (lasting_tidy whole.catalog).exec hstays h.tidy
    · rw [hreport, hreport', hsame]
      exact .some hnoLater

/-- **The circuit without unknown instances follows the one with them**, as long as that settles. -/
theorem Simulator.Sheds.run (h : whole.Sheds keep part) {commands : List Command}
    (hc : ∀ c ∈ commands, c.stimulates = true) (hconverges : whole.converges commands = true) :
    (whole.run commands).Sheds keep (part.run commands) := by
  have hrun := run_related (R := Simulator.Sheds keep) (f := id)
    (fun h hc hconverged => h.exec hc hconverged) commands h hc hconverges
  rwa [List.map_id] at hrun

end Sheds

/-- New chips, and the same without some of which nothing is known. -/
theorem sheds_fresh (options : SimOptions) (wires : List Wire) {parts : List Part}
    (hunknown : OmitsUnknown keep (parts.map (Instance.fresh catalog))) :
    (Simulator.fresh catalog options parts wires).Sheds keep
      (.fresh catalog options (parts.filter fun part => keep part.id) wires) where
  catalog := rfl
  options := rfl
  instances := (restrictAll_fresh catalog keep parts).symm
  wires := rfl
  unknown := hunknown
  low := throughout_fresh (lasting_lowIfUnknown catalog).fresh catalog parts
  tidy := throughout_fresh (lasting_tidy catalog).fresh catalog parts
  settled := .none

/-! ## The theorem -/

/-- **An unknown chip is an open circuit.** Take new chips for some parts with distinct ids, one of
them of a type that nothing is known of, and the same without that one, so that its wires lead
nowhere and come from nowhere. Run both by the same toggles, clock edges and settlings. As long as
the circuit with the unknown chip settles, the one without it settles in at most as many passes, and
after each operation every other chip is the same in both, at every depth. -/
theorem unknown_is_open_circuit (catalog : Catalog) (options : SimOptions) (parts : List Part)
    (wires : List Wire) (hids : (parts.map Part.id).Nodup) {u : Part} (hu : u ∈ parts)
    (hunknown : (Instance.fresh catalog u).body = .unknown) (commands : List Command)
    (hcommands : ∀ c ∈ commands, c.stimulates = true)
    (hconverges : (Simulator.fresh catalog options parts wires).converges commands = true)
    (n : Nat) :
    let others := parts.filter fun part => part.id != u.id
    let whole := (Simulator.fresh catalog options parts wires).run (commands.take n)
    let part := (Simulator.fresh catalog options others wires).run (commands.take n)
    part.instances = whole.instances.filter (fun i => i.id != u.id) ∧
      Option.Rel SettleReport.NoLater whole.lastReport part.lastReport := by
  have homits : OmitsUnknown (fun id => id != u.id) (parts.map (Instance.fresh catalog)) := by
    intro i hi hkeep
    obtain ⟨other, hother, rfl⟩ := List.mem_map.1 hi
    have hid : other.id = u.id := (bne_eq_false_iff_eq).1 hkeep
    rw [List.inj_on_of_nodup_map hids hother hu hid]
    exact isUnknown_iff.2 hunknown
  have h := (sheds_fresh options wires homits).run
    (fun c hc => hcommands c (List.mem_of_mem_take hc)) (converges_take commands n hconverges)
  exact ⟨h.instances, h.settled⟩

/-- A chip of a type that nobody knows between some others. It is read by the order of the pins, by
the name of a pin, and around a loop. -/
def strangerParts : List Part :=
  [⟨"u", "FOO", none⟩, ⟨"a", "INPUT", none⟩, ⟨"n", "NOT", none⟩, ⟨"g", "OR", none⟩,
    ⟨"h", "XOR", none⟩, ⟨"d", "DFF", none⟩]

def strangerWires : List Wire :=
  [{ source := "a", target := "n" }, { source := "n", target := "u" },
    { source := "u", target := "g" }, { source := "d", target := "g" },
    { source := "g", target := "u" },
    { source := "u", sourcePin := some "Q", target := "h", targetPin := some "A" },
    { source := "n", target := "h" }, { source := "h", target := "d" }]

/-- The others evolve as they do without it, and need a pass less to settle. -/
theorem unknown_is_open_circuit_stranger :
    let commands := [.settle, .tick, .toggle "a", .toggle "u"]
    let whole := (Simulator.fresh Standard.catalog {} strangerParts strangerWires).run commands
    let part := (Simulator.fresh Standard.catalog {}
      (strangerParts.filter fun part => part.id != "u") strangerWires).run commands
    whole.instances.map (fun i => (i.id, i.value)) =
        [("u", false), ("a", true), ("n", false), ("g", true), ("h", false), ("d", true)] ∧
      whole.lastReport = some ⟨3, true⟩ ∧ part.lastReport = some ⟨2, true⟩ ∧
      part.instances = whole.instances.filter fun i => i.id != "u" := by
  intro commands whole part
  have hunknown : (Instance.fresh Standard.catalog ⟨"u", "FOO", none⟩).body = .unknown :=
    isUnknown_iff.1 (by decide +kernel)
  have hconverges : (Simulator.fresh Standard.catalog {} strangerParts strangerWires).converges
      commands = true := by decide +kernel
  have h := unknown_is_open_circuit Standard.catalog {} strangerParts strangerWires (by decide)
    (u := ⟨"u", "FOO", none⟩) List.mem_cons_self hunknown commands (by decide) hconverges 4
  exact ⟨by decide +kernel, by decide +kernel, by decide +kernel, h.1⟩

end Breadboard
