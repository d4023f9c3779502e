import Breadboard.Proofs.Drivers
import Breadboard.Proofs.OutputPins
import Breadboard.Proofs.Resettle
import Breadboard.Proofs.WellFormed

/-!
# Loose ends

A wire inside a composite is loose if it comes from no part and from no declared input of the
composite. The check of the catalog reports it and says that it reads low. It does, unless a wire
outside names that very pin of the composite: such a wire drives a pin that is not declared, and the
loose wire finds it there.

* `lastWire?_of_not_declared`: only wires that name it drive a pin that is not declared;
* `Scope.Routed`, `routed_run`: so nothing else is on such a pin, after every run;
* **`loose_wire_reads_named_pin`**: what a loose wire reads;
* `loose_wire_is_high`: one that is high.
-/

namespace Breadboard

variable {catalog : Catalog} {s t : Scope}

/-! ## Pins that are named -/

/-- The last of the wires into `target` that names the pin. -/
def lastNaming? (wires : List Wire) (target pin : String) : Option Wire :=
  ((wiresInto wires target).filter fun wire => wire.targetPin == some pin).getLast?

theorem lastNaming?_eq_none_iff {wires : List Wire} {target pin : String} :
    lastNaming? wires target pin = none ↔
      ∀ wire ∈ wires, wire.target = target → wire.targetPin ≠ some pin := by
  simp only [lastNaming?, wiresInto, List.getLast?_eq_none_iff, List.filter_eq_nil_iff,
    List.mem_filter, beq_iff_eq, and_imp, ne_eq]

/-- Of the drivers of a chip, those on a pin that is not declared are those that name it. -/
theorem filter_assignFrom_of_not_declared {declared : List String} {pin : String}
    (h : pin ∉ declared) (wires : List Wire) : ∀ taken : List String,
    (assignFrom declared taken wires).filter (fun e => e.2 == pin) =
      (wires.filter fun wire => wire.targetPin == some pin).map fun wire => (wire, pin) := by
  induction wires with
  | nil => exact fun _ => rfl
  | cons wire rest ih =>
    intro taken
    rw [assignFrom, List.filter_cons]
    cases hnamed : wire.targetPin with
    | some p =>
      rw [pinFor_named hnamed]
      by_cases hp : p = pin
      · subst hp
        simp [ih]
      · simp [hp, ih]
    | none =>
      cases hpin : pinFor declared taken wire with
      | none => simpa using ih taken
      | some p =>
        have hne : p ≠ pin := fun heq => h (heq ▸ (pinFor_open hnamed hpin).1)
        simp [hne, ih]

/-- **Only wires that name it drive a pin that is not declared.** -/
theorem lastWire?_of_not_declared {declared : List String} {pin : String} (h : pin ∉ declared)
    (wires : List Wire) (target : String) :
    lastWire? (assignPins declared wires target) pin = lastNaming? wires target pin := by
  rw [lastWire?, assignPins, filter_assignFrom_of_not_declared h, List.getLast?_map, Option.map_map]
  exact congrFun Option.map_id_fun' _

/-! ## What is on a pin that is not declared -/

/-- Nothing is on a pin that an instance does not declare unless a wire into it names the pin. -/
def Scope.Routed (catalog : Catalog) (s : Scope) : Prop :=
  ∀ i ∈ s.instances, ∀ pin, pin ∉ catalog.inputsOf i.chip →
    lastNaming? s.wires i.id pin = none → i.signals.inputs.get? pin = none

/-- The instances of the scope are as a pass has left them. -/
def Scope.JustPassed (catalog : Catalog) (s : Scope) : Prop :=
  ∃ inherited earlier, s.instances = (passAll catalog s.wires inherited earlier).1

/-- What a pass leaves, it leaves at every depth. -/
theorem Scope.JustPassed.holds (hst : s.Holds t) : s.JustPassed catalog → t.JustPassed catalog := by
  induction hst with
  | refl => exact fun h => h
  | inside hi _ ih =>
    rintro ⟨inherited, earlier, hs⟩
    rw [hs] at hi
    obtain ⟨i, -, inputs, heq⟩ := mem_passAll hi
    obtain ⟨part, expanded, signals, body⟩ := i
    cases body with
    | unknown =>
      rw [pass_unknown] at heq
      cases heq
    | primitive kind =>
      rw [pass_primitive] at heq
      cases heq
    | composite parts inner =>
      rw [pass_composite] at heq
      cases heq
      exact ih ⟨_, parts, rfl⟩

/-- After a pass over an instance it has the inputs that the pass brought. -/
theorem agree_pass (i : Instance) (inputs : Pins) :
    (i.pass catalog inputs).1.signals.inputs.agree inputs = true := by
  obtain ⟨part, expanded, signals, body⟩ := i
  cases body with
  | unknown =>
    rw [pass_unknown]
    exact Signals.agree_receive signals inputs
  | primitive kind =>
    rw [pass_primitive]
    cases kind <;> exact Signals.agree_receive signals inputs
  | composite parts inner =>
    rw [pass_composite]
    exact Signals.agree_receive signals inputs

/-- **A pass brings nothing else** to a pin that is not declared. -/
theorem Scope.JustPassed.routed (h : s.JustPassed catalog) : s.Routed catalog := by
  obtain ⟨inherited, earlier, hs⟩ := h
  intro i hi pin hpin hnone
  rw [hs] at hi
  obtain ⟨k, hk⟩ := List.mem_iff_getElem?.1 hi
  have hlt : k < earlier.length := by
    have hout := (List.getElem?_eq_some_iff.1 hk).1
    rwa [length_passAll] at hout
  rw [passAll_spec (List.getElem?_eq_getElem hlt), Instance.passIn, Option.some.injEq] at hk
  have hpart : i.part = earlier[k].part := by rw [← hk, pass_part]
  rw [← hk, NameMap.agree_iff_get?.1 (agree_pass _ _), get?_resolveInputs, ← hpart]
  change Option.map _ (lastWire? (assignPins (catalog.inputsOf i.chip) s.wires i.id) pin) = none
  rw [lastWire?_of_not_declared hpin, hnone]
  rfl

/-- Drawing the inside of a chip changes no scope inside. -/
theorem Scope.Holds.of_draw {id : String} {expanded : Bool} {drawn : List Instance}
    (hdrawn : drawn = updateInstance s.instances id fun i => { i with expanded })
    (h : Scope.Holds ⟨drawn, s.wires, s.inherited⟩ t) :
    t = ⟨drawn, s.wires, s.inherited⟩ ∨ s.Holds t := by
  subst hdrawn
  cases h with
  | refl => exact Or.inl rfl
  | inside hi ht =>
    refine Or.inr ?_
    rcases mem_updateInstance hi with hmem | ⟨i, hmem, -, heq⟩
    · exact .inside hmem ht
    · obtain ⟨part, shown, signals, body⟩ := i
      cases heq
      exact .inside hmem ht

/-- Nothing but what wires name is on undeclared pins, at every depth. -/
def Simulator.Routed (sim : Simulator) : Prop := ∀ t, sim.top.Holds t → t.Routed sim.catalog

theorem routed_exec {sim : Simulator} (c : Command) (h : sim.Routed) : (c.exec sim).Routed := by
  intro t ht
  rw [(exec_catalog sim c).1]
  cases hlaid : c.netlist? sim with
  | some netlist =>
    have htop : (c.exec sim).top = ⟨(sim.settled netlist).1, netlist.wires, ∅⟩ :=
      congrArg Netlist.top (exec_of_netlist? hlaid).1
    rw [htop] at ht
    exact (Scope.JustPassed.holds ht ⟨∅, settleFrom_eq_passAll _ _ _⟩).routed
  | none =>
    obtain ⟨hinstances, hwires, -⟩ := exec_of_not_netlist? hlaid
    have htop : (c.exec sim).top = ⟨(c.exec sim).instances, (c.exec sim).wires, ∅⟩ := rfl
    rw [htop, hwires] at ht
    rcases hinstances with heq | ⟨id, expanded, heq⟩
    · rw [heq] at ht
      exact h t ht
    · rw [heq] at ht
      rcases Scope.Holds.of_draw (s := sim.top) rfl ht with rfl | ht
      · intro i hi
        rcases mem_updateInstance hi with hmem | ⟨i, hmem, -, rfl⟩
        · exact h sim.top (.refl _) i hmem
        · exact h sim.top (.refl _) i hmem
      · exact h t ht

/-- **After every run** nothing but what wires name is on undeclared pins. -/
theorem routed_run (catalog : Catalog) (options : SimOptions) (commands : List Command) :
    ((Simulator.new catalog options).run commands).Routed := by
  refine run_induct commands _ (fun _ c _ h => routed_exec c h) fun t ht => ?_
  cases ht with
  | refl => exact fun i hi => absurd hi List.not_mem_nil
  | inside hi => exact absurd hi List.not_mem_nil

/-! ## Loose wires -/

/-- The source of the wire is no part of the composite and no input that it declares. -/
def Composite.IsLoose (d : Composite) (wire : Wire) : Prop :=
  wire ∈ d.wires ∧ wire.source ∉ d.ids ∧ wire.source ∉ d.inputs

instance (d : Composite) (wire : Wire) : Decidable (d.IsLoose wire) :=
  inferInstanceAs (Decidable (_ ∧ _ ∧ _))

/-- **A loose wire is reported.** -/
theorem mem_check_of_isLoose {chip : String} {d : Composite}
    (hget : catalog.get? chip = some (.composite d)) {wire : Wire} (h : d.IsLoose wire) :
    ⟨.unknownWireEndpoint chip wire.source, .warning⟩ ∈ catalog.check.issues := by
  obtain ⟨hmem, hids, hinputs⟩ := h
  rw [show catalog.check.issues = catalog.issues from IssueSet.issues_ofList _, mem_issues_iff]
  refine Or.inl ⟨chip, d, hget, ?_⟩
  simp only [Catalog.compositeIssues, Catalog.wireIssues, List.mem_append, List.mem_flatMap]
  refine Or.inl (Or.inr ⟨wire, hmem, Or.inl ?_⟩)
  rw [if_neg]
  · exact List.mem_singleton_self _
  · simpa [Composite.ids] using And.intro hids hinputs

/-- **A loose wire reads the pin that it names**, and only a wire outside that names the pin, too,
brings anything there. Whatever was done to a circuit, in an instance of a composite at any depth
each loose wire of the blueprint is there and is reported by the check of the catalog; it reads the
input of its name, and is low if no wire into the instance names that pin. If nothing was restored
and the circuit has settled, it reads what the last wire into the instance reads that names the
pin. -/
theorem loose_wire_reads_named_pin (catalog : Catalog) (options : SimOptions)
    (commands : List Command) {s : Scope}
    (hs : ((Simulator.new catalog options).run commands).top.Holds s) {i : Instance}
    (hi : i ∈ s.instances) {d : Composite} (hget : catalog.get? i.chip = some (.composite d))
    {parts : List Instance} {inner : List Wire} (hbody : i.body = .composite parts inner)
    {wire : Wire} (hloose : d.IsLoose wire) :
    ⟨.unknownWireEndpoint i.chip wire.source, .warning⟩ ∈ catalog.check.issues ∧ wire ∈ inner ∧
    wire.read parts i.signals.inputs = (i.signals.inputs.get? wire.source).getD false ∧
    ((∀ outer ∈ s.wires, outer.target = i.id → outer.targetPin ≠ some wire.source) →
      wire.read parts i.signals.inputs = false) ∧
    ((∀ c ∈ commands, c.restores = false) → ∀ report,
      ((Simulator.new catalog options).run commands).lastReport = some report →
      report.converged = true → wire.read parts i.signals.inputs =
        ((lastNaming? s.wires i.id wire.source).map (Wire.read s.instances s.inherited)).getD
          false) := by
  have hcatalog := (run_catalog (Simulator.new catalog options) commands).1
  have hbuilt : Built catalog ((Simulator.new catalog options).run commands).instances :=
    built_run commands fun _ h => absurd h List.not_mem_nil
  obtain ⟨d', hget', hwires, hparts⟩ := hbuilt.blueprint hs hi hbody
  rw [hget] at hget'
  cases hget'
  have hids : parts.map Instance.id = d.ids := by
    rw [Composite.ids, ← hparts, List.map_map]
    rfl
  have hdeclared : wire.source ∉ catalog.inputsOf i.chip := by
    rw [Catalog.inputsOf, hget]
    exact hloose.2.2
  have hread : wire.read parts i.signals.inputs =
      (i.signals.inputs.get? wire.source).getD false := by
    have hnone : findInstance? parts wire.source = none := by
      rw [findInstance?_eq_none_iff, hids]
      exact hloose.2.1
    rw [Wire.read, hnone]
  refine ⟨mem_check_of_isLoose hget hloose, hwires ▸ hloose.1, hread, fun hnone => ?_,
    fun hcommands report hreport hconverged => ?_⟩
  · have hrouted := routed_run catalog options commands s hs
    rw [hcatalog] at hrouted
    rw [hread, hrouted i hi _ hdeclared (lastNaming?_eq_none_iff.2 hnone)]
    rfl
  · have hrest := (atRest_of_not_restored catalog options commands hcommands report hreport
      hconverged).holds hs
    have hinputs := NameMap.agree_iff_get?.1 (Scope.atRest_iff.1 hrest i hi).agree wire.source
    rw [hread, hinputs, Scope.inputsFor, get?_resolveInputs]
    change (Option.map _ (lastWire? (assignPins (catalog.inputsOf i.chip) s.wires i.id) _)).getD _ =
      _
    rw [lastWire?_of_not_declared hdeclared]

/-- A negation that takes its input from a pin `Z`, which the chip around it does not declare. -/
def looseNot : Composite where
  inputs := ["A"]
  parts := [⟨"n", "NOT", none⟩]
  wires := [Standard.into "Z" "n" "In"]
  pinMap := { main := some "n" }

/-- The standard catalog with that chip. -/
def looseCatalog : Catalog := Standard.catalog.insert "L" (.composite looseNot)

/-- A high switch is wired to one such chip on the pin that it declares, and to another on `Z`. -/
def looseEnds : List Command :=
  [.assemble "INPUT a\nL c\nL e\nWIRE a c A\nWIRE a e OUT Z\n", .toggle "a"]

/-- The loose wire is low in the first chip and high in the second. -/
theorem loose_wire_reads_named_pin_twice :
    let sim := (Simulator.new looseCatalog {}).run looseEnds
    let loose := Standard.into "Z" "n" "In"
    looseNot.IsLoose loose ∧ ∃ c e, sim.instance? "c" = some c ∧ sim.instance? "e" = some e ∧
      loose.read c.parts c.signals.inputs = false ∧ loose.read e.parts e.signals.inputs = true := by
  intro sim loose
  have hloose : looseNot.IsLoose loose := by decide +kernel
  have hget : looseCatalog.get? "L" = some (.composite looseNot) := by decide +kernel
  have hreport : sim.lastReport = some ⟨2, true⟩ := by decide +kernel
  have hread : ∀ i ∈ sim.top.instances, i.chip = "L" → i.isComposite = true →
      ((∀ outer ∈ sim.top.wires, outer.target = i.id → outer.targetPin ≠ some "Z") →
        loose.read i.parts i.signals.inputs = false) ∧
      loose.read i.parts i.signals.inputs =
        ((lastNaming? sim.top.wires i.id "Z").map
          (Wire.read sim.top.instances sim.top.inherited)).getD false := by
    rintro ⟨part, expanded, signals, body⟩ hi hchip hcomposite
    cases body with
    | unknown | primitive => exact absurd hcomposite (by simp [Instance.isComposite])
    | composite parts inner =>
      obtain ⟨-, -, -, hlow, hnamed⟩ := loose_wire_reads_named_pin looseCatalog {} looseEnds
        (.refl _) hi (hchip ▸ hget) rfl hloose
      exact ⟨hlow, hnamed (by decide) _ hreport rfl⟩
  have hother : ∀ outer ∈ sim.top.wires, outer.target = "c" → outer.targetPin ≠ some "Z" := by
    decide +kernel
  have hhigh : ((lastNaming? sim.top.wires "e" "Z").map
      (Wire.read sim.top.instances sim.top.inherited)).getD false = true := by decide +kernel
  have hchips : (sim.instance? "c").map (fun c => (c.chip, c.isComposite)) = some ("L", true) ∧
      (sim.instance? "e").map (fun e => (e.chip, e.isComposite)) = some ("L", true) := by
    decide +kernel
  obtain ⟨c, hc, hcpair⟩ := Option.map_eq_some_iff.1 hchips.1
  obtain ⟨e, he, hepair⟩ := Option.map_eq_some_iff.1 hchips.2
  obtain ⟨hcchip, hccomposite⟩ := Prod.mk.inj hcpair
  obtain ⟨hechip, hecomposite⟩ := Prod.mk.inj hepair
  have hcid : c.id = "c" := by simpa using List.find?_some hc
  have heid : e.id = "e" := by simpa using List.find?_some he
  refine ⟨hloose, c, e, hc, he, ?_, ?_⟩
  · exact (hread c (mem_top_of_instance? hc) hcchip hccomposite).1 (hcid ▸ hother)
  · exact (hread e (mem_top_of_instance? he) hechip hecomposite).2.trans (heid ▸ hhigh)

/-- **The check says low, and the wire is high.** -/
theorem loose_wire_is_high :
    let sim := (Simulator.new looseCatalog {}).run looseEnds
    ⟨.unknownWireEndpoint "L" "Z", .warning⟩ ∈ looseCatalog.check.issues ∧
      sim.lastReport = some ⟨2, true⟩ ∧
      (Instance.atPath? sim.instances ["e", "n"]).map (fun n => n.signals.inputs.get? "In") =
        some (some true) := by
  decide +kernel

end Breadboard
