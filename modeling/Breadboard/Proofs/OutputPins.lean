import Breadboard.Proofs.Blueprint
import Breadboard.Proofs.Flatten
import Breadboard.Proofs.Saved

/-!
# Declared outputs and main outputs

A chip with one declared output can be read in two ways: by the name of that pin, and as a whole, by
its main output. A primitive drives both at once. A composite takes either of them from its pin map,
so that they agree if the map gives the pin the main output of the main part. The composites `XOR`
and `MUX` of the standard catalog declare `OUT` and name a main part, but their maps do not name
`OUT`, which therefore is always low.

* `Built.holds`: in a circuit that was never restored, every chip at every depth is what the catalog
  says, if no type contains itself;
* `Built.blueprint`: in any case its composites have the wires and parts of their blueprints;
* `ChipType.ties`, `ChipType.leavesOut`: a pin is driven together with the main output, or never;
* `lasting_readsTied`: tied pins read like the main output as long as nothing is restored;
* `Instance.drives`, `output_of_not_drives`: the pins that a chip drives, and what the others read;
* `output_of_ties`, `output_of_leavesOut`: what a declared output reads, for any catalog;
* **`single_output_reads_main_iff`**: a single declared output of a standard chip reads the main
  one, except on a high `XOR` or `MUX`.
-/

namespace Breadboard

variable {catalog : Catalog}

/-! ## Chips built from a catalog -/

/-- **What is built from a catalog without cycles is built from it throughout.** -/
theorem Built.holds (h : catalog.NoCycle) {s t : Scope} (hs : Built catalog s.instances)
    (hst : s.Holds t) : Built catalog t.instances := by
  induction hst with
  | refl => exact hs
  | @inside s t part expanded signals parts inner hi _ ih =>
    refine ih fun j hj => ?_
    obtain ⟨expanded', signals', parts', hfresh, hparts⟩ := blank_eq_composite (hs _ hi).symm
    obtain ⟨k, hk⟩ := List.mem_iff_getElem?.1 hj
    obtain ⟨j', hj', hblank⟩ := getElem?_of_blankAll hparts.symm hk
    have hinside : j' ∈ (Instance.fresh catalog part).parts := by
      rw [show Instance.fresh catalog part = _ from hfresh]
      exact List.mem_of_getElem? hj'
    obtain ⟨part', rfl⟩ := (Instance.Encloses.inside hinside (.refl j')).fresh h
    have hpart : j.part = part'.fold := by
      rw [← blank_part j, ← hblank, blank_part]
      rfl
    rw [hpart, Instance.fresh_fold, hblank]

/-- **A composite has the wires and the parts of its blueprint**, at every depth of a circuit that
was built from the catalog, with cycles or without. -/
theorem Built.blueprint {s t : Scope} (hbuilt : Built catalog s.instances) (h : s.Holds t)
    {i : Instance} (hi : i ∈ t.instances) {parts : List Instance} {inner : List Wire}
    (hbody : i.body = .composite parts inner) :
    ∃ d, catalog.get? i.chip = some (.composite d) ∧ inner = d.wires ∧
      parts.map Instance.part = d.parts := by
  -- the same circuit, built anew
  let anew : Scope := ⟨s.instances.map fun i => Instance.fresh catalog i.part, s.wires, ∅⟩
  have hblank : blankAll anew.instances = blankAll s.instances := by
    rw [blankAll_eq_map, blankAll_eq_map, List.map_map]
    exact List.map_congr_left fun i hi => (hbuilt i hi).symm
  obtain ⟨u, hu, hsame, -⟩ := h.of_blank hblank rfl
  obtain ⟨k, hk⟩ := List.mem_iff_getElem?.1 hi
  obtain ⟨j, hj, hshape⟩ := getElem?_of_blankAll hsame.symm hk
  have hall : ∀ i ∈ anew.instances, ∃ path, i.AnewBelow catalog path := by
    intro i hi
    obtain ⟨i, -, rfl⟩ := List.mem_map.1 hi
    exact ⟨[], .fresh catalog i.part⟩
  obtain ⟨path, hanew⟩ := exists_anewBelow_of_holds hu hall j (List.mem_of_getElem? hj)
  obtain ⟨part, expanded, signals, body⟩ := i
  cases hbody
  obtain ⟨expanded', signals', parts', rfl, hparts⟩ := blank_eq_composite hshape
  obtain ⟨d, hget, hwires, hown⟩ := hanew.mirrors.composite rfl
  exact ⟨d, hget, hwires, (map_part_of_blankAll hparts.symm).trans hown⟩

/-- A switch is no composite, whatever the catalog says. Any other chip is one iff its type is. -/
theorem isComposite_of_built {scope : List Instance} (hbuilt : Built catalog scope) {i : Instance}
    (hi : i ∈ scope) {d : ChipType} (hget : catalog.get? i.chip = some d) :
    i.isComposite = (i.chip != inputType && d.isComposite) := by
  have hblank := hbuilt i hi
  have hchip : i.part.fold.chip = i.chip := by
    have hpart := congrArg Instance.part hblank
    rw [blank_part, blank_part] at hpart
    exact (congrArg Part.chip hpart).symm
  rw [isComposite_of_blank hblank]
  unfold Instance.isComposite Instance.fresh
  simp only [hchip]
  by_cases hinput : i.chip = inputType
  · rw [hinput, bodyOf_input]
    rfl
  · rw [bne_iff_ne.2 hinput, Bool.true_and]
    cases d with
    | primitive d => rw [bodyOf_primitive hinput hget]; rfl
    | composite d => rw [bodyOf_composite hinput hget]; rfl

/-! ## What is driven together -/

/-- The map gives the pin the main output of the main part. -/
def PinMap.ties (pinMap : PinMap) (pin : String) : Bool :=
  pinMap.main.any fun id => decide (pinMap.outputs.get? pin = some { id })

theorem PinMap.ties_iff {pinMap : PinMap} {pin : String} :
    pinMap.ties pin = true ↔
      ∃ id, pinMap.main = some id ∧ pinMap.outputs.get? pin = some { id } := by
  unfold ties
  rw [Option.any_eq_true]
  simp only [decide_eq_true_eq]

theorem Signals.output_publish_of_ties {pinMap : PinMap} {pin : String}
    (h : pinMap.ties pin = true) (parts : List Instance) (s : Signals) :
    (s.publish pinMap parts).output pin = (s.publish pinMap parts).value := by
  obtain ⟨id, hmain, hpin⟩ := PinMap.ties_iff.1 h
  unfold Signals.output
  rw [Signals.get?_publish, hpin]
  simp [Signals.publish, hmain, Tap.read, mainOutput]

/-- The pin is driven together with the main output. -/
def ChipType.ties (d : ChipType) (pin : String) : Bool :=
  match d with
  | primitive _ => pin == outPin
  | composite d => d.pinMap.ties pin

/-- Nothing drives the pin. -/
def ChipType.leavesOut (d : ChipType) (pin : String) : Bool :=
  match d with
  | primitive _ => pin != outPin
  | composite d => !d.pinMap.outputs.contains pin

theorem pinMapOf_composite {chip : String} {d : Composite}
    (hget : catalog.get? chip = some (.composite d)) : catalog.pinMapOf chip = d.pinMap := by
  unfold Catalog.pinMapOf Catalog.composite?
  rw [hget]
  rfl

/-- The tied pins of a composite read like its main output. -/
def Instance.ReadsTied (catalog : Catalog) (i : Instance) : Prop :=
  i.isComposite = true → ∀ pin, (catalog.pinMapOf i.chip).ties pin = true → i.output pin = i.value

/-- **What is tied is published together.** -/
theorem readsTied_pass (i : Instance) (inputs : Pins) :
    (i.pass catalog inputs).1.ReadsTied catalog := by
  obtain ⟨part, expanded, s, body⟩ := i
  intro hcomposite pin hties
  cases body with
  | unknown =>
    rw [pass_unknown] at hcomposite
    exact absurd hcomposite (by simp [Instance.isComposite])
  | primitive =>
    rw [pass_primitive] at hcomposite
    exact absurd hcomposite (by simp [Instance.isComposite])
  | composite parts inner =>
    rw [pass_composite] at hties ⊢
    exact Signals.output_publish_of_ties hties _ _

/-- **Tied pins read like the main output** as long as nothing is restored. -/
theorem lasting_readsTied (catalog : Catalog) : Lasting catalog (Instance.ReadsTied catalog) where
  fresh := fun _ _ _ _ _ => rfl
  pass := fun i inputs _ => readsTied_pass i inputs
  drive := fun i bit hinput _ hcomposite => by
    have hleaf : (i.drive bit).isComposite = false := by
      unfold Instance.isComposite Instance.drive
      rw [body_of_isInput hinput]
    exact absurd hcomposite (by simp [hleaf])
  commit := fun i h => commit_of (P := Instance.ReadsTied catalog)
    (fun _ _ _ _ hcomposite => absurd hcomposite (by simp [Instance.isComposite]))
    (fun _ _ _ _ _ _ h _ => h rfl) i h
  draw := fun _ _ h => h

/-! ## What a declared output reads -/

/-- The pin is one that the instance drives: `OUT`, or of a composite what its pin map names. -/
def Instance.drives (catalog : Catalog) (i : Instance) (pin : String) : Bool :=
  if i.isComposite then (catalog.pinMapOf i.chip).outputs.contains pin else pin == outPin

section Output

variable {i : Instance} {d : ChipType} {pin : String}

/-- **A tied output reads the main one.** -/
theorem output_of_ties (hplain : i.Plain catalog) (htied : i.ReadsTied catalog)
    (hget : catalog.get? i.chip = some d) (hkind : i.isComposite = d.isComposite)
    (h : d.ties pin = true) : i.output pin = i.value := by
  cases d with
  | primitive d => rw [hplain.output hkind, if_pos (beq_iff_eq.1 h)]
  | composite d =>
    refine htied hkind pin ?_
    rw [pinMapOf_composite hget]
    exact h

/-- **A pin that is not driven is low.** -/
theorem output_of_not_drives (hplain : i.Plain catalog) (h : i.drives catalog pin = false) :
    i.output pin = false := by
  unfold Instance.drives at h
  split at h
  · rename_i hcomposite
    have hnone : (catalog.pinMapOf i.chip).outputs.get? pin = none := by
      simpa [NameMap.contains] using h
    rw [Instance.output, Signals.output, hplain.unmapped hcomposite hnone]
    rfl
  · rename_i hleaf
    rw [hplain.output (by simpa using hleaf), if_neg (by simpa using h)]

/-- A chip that is of the kind of its type drives what the type drives. -/
theorem drives_eq (hget : catalog.get? i.chip = some d) (hkind : i.isComposite = d.isComposite) :
    i.drives catalog pin = !d.leavesOut pin := by
  unfold Instance.drives
  rw [hkind]
  cases d with
  | primitive d => exact (Bool.not_not _).symm
  | composite d =>
    rw [pinMapOf_composite hget]
    exact (Bool.not_not _).symm

/-- **An output that nothing drives is low.** -/
theorem output_of_leavesOut (hplain : i.Plain catalog) (hget : catalog.get? i.chip = some d)
    (hkind : i.isComposite = d.isComposite) (h : d.leavesOut pin = true) :
    i.output pin = false :=
  output_of_not_drives hplain (by rw [drives_eq hget hkind, h, Bool.not_true])

end Output

/-! ## The standard catalog -/

/-- A standard type with one output drives it together with the main output, but for `XOR` and
`MUX`. -/
theorem standard_single_output {chip pin : String} {d : ChipType}
    (hget : Standard.catalog.get? chip = some d) (hout : d.outputs = [pin]) :
    if chip = "XOR" ∨ chip = "MUX" then d.leavesOut pin = true else d.ties pin = true := by
  have hall : ∀ e ∈ Standard.catalog.chips.entries, ∀ pin ∈ e.2.outputs, e.2.outputs = [pin] →
      if e.1 = "XOR" ∨ e.1 = "MUX" then e.2.leavesOut pin = true else e.2.ties pin = true := by
    decide +kernel
  exact hall _ (NameMap.get?_eq_some_iff.1 hget) pin (by simp [hout]) hout

/-- A chip is a composite iff its standard type is. -/
theorem isComposite_of_standard {scope : List Instance} (hbuilt : Built Standard.catalog scope)
    {i : Instance} (hi : i ∈ scope) {d : ChipType} (hget : Standard.catalog.get? i.chip = some d) :
    i.isComposite = d.isComposite := by
  rw [isComposite_of_built hbuilt hi hget]
  by_cases hinput : i.chip = inputType
  · have hswitch : (Standard.catalog.get? inputType).all (fun d => !d.isComposite) = true := by
      decide +kernel
    rw [hinput] at hget
    simpa [hget, hinput] using hswitch
  · rw [bne_iff_ne.2 hinput, Bool.true_and]

/-- **A single declared output reads the main one, except on a high `XOR` or `MUX`.** Load programs
on the standard catalog, and stimulate them in any way, without restoring a saved circuit. Whether
the circuit settles or not, the only output that a chip declares, at any depth, has the value of the
chip, and a wire that names the pin carries the same as one that does not, exactly if the chip is
not a high `XOR` or `MUX`. -/
theorem single_output_reads_main_iff (options : SimOptions) (commands : List Command)
    (hcommands : ∀ c ∈ commands, c.restores = false) {s : Scope}
    (hs : ((Simulator.new Standard.catalog options).run commands).top.Holds s) {i : Instance}
    (hi : i ∈ s.instances) {d : ChipType} (hget : Standard.catalog.get? i.chip = some d)
    {pin : String} (hout : d.outputs = [pin]) :
    (i.output pin = i.value ↔ (i.chip = "XOR" ∨ i.chip = "MUX" → i.value = false)) ∧
      ∀ wire : Wire, findInstance? s.instances wire.source = some i →
        (Wire.read s.instances s.inherited { wire with sourcePin := some pin } =
            Wire.read s.instances s.inherited { wire with sourcePin := none } ↔
          (i.chip = "XOR" ∨ i.chip = "MUX" → i.value = false)) := by
  have hplain : i.Plain Standard.catalog :=
    (throughout_iff.1 (((lasting_plain Standard.catalog).run hcommands throughout_nil).holds hs) i
      hi).1
  have htied : i.ReadsTied Standard.catalog :=
    (throughout_iff.1 (((lasting_readsTied Standard.catalog).run hcommands throughout_nil).holds hs)
      i hi).1
  have hbuilt : Built Standard.catalog s.instances :=
    (built_run commands (fun _ h => absurd h List.not_mem_nil)).holds standard_noCycle hs
  have hkind := isComposite_of_standard hbuilt hi hget
  have hreads : i.output pin = i.value ↔ (i.chip = "XOR" ∨ i.chip = "MUX" → i.value = false) := by
    have hdeclared := standard_single_output hget hout
    by_cases hchip : i.chip = "XOR" ∨ i.chip = "MUX"
    · rw [if_pos hchip] at hdeclared
      rw [output_of_leavesOut hplain hget hkind hdeclared]
      exact ⟨fun h _ => h.symm, fun h => (h hchip).symm⟩
    · rw [if_neg hchip] at hdeclared
      exact ⟨fun _ h => absurd h hchip, fun _ => output_of_ties hplain htied hget hkind hdeclared⟩
  refine ⟨hreads, fun wire hsource => ?_⟩
  unfold Wire.read
  rw [hsource]
  exact hreads

/-- A register with a high bit reads it on its output pin too. The multiplexer inside is high, and
low on its own output pin. -/
theorem single_output_reads_main_iff_latch :
    let sim := (Simulator.new Standard.catalog {}).run
      [.assembleProgram latch, .toggle "in", .toggle "load", .tick]
    (∃ b, sim.instance? "b" = some b ∧ b.value = true ∧ b.output "Out" = true) ∧
      ∃ s mux, sim.top.Holds s ∧ mux ∈ s.instances ∧ mux.chip = "MUX" ∧ mux.value = true ∧
        mux.output "OUT" ≠ mux.value := by
  intro sim
  have hreads := fun (s : Scope) (hs : sim.top.Holds s) i hi d pin hget hout =>
    (@single_output_reads_main_iff {} _ (by decide) s hs i hi d hget pin hout).1
  have hb : (sim.instance? "b").map (fun i => (i.chip, i.value)) = some ("BIT", true) := by
    decide +kernel
  have hmux : (Instance.atPath? sim.instances ["b", "mux"]).map (fun i => (i.chip, i.value)) =
      some ("MUX", true) := by decide +kernel
  obtain ⟨b, hfound, hpair⟩ := Option.map_eq_some_iff.1 hb
  obtain ⟨hchip, hvalue⟩ := Prod.mk.inj hpair
  obtain ⟨mux, hat, hpair'⟩ := Option.map_eq_some_iff.1 hmux
  obtain ⟨hchip', hvalue'⟩ := Prod.mk.inj hpair'
  have hbmem : b ∈ sim.instances := (mem_of_findInstance? hfound).1
  refine ⟨⟨b, hfound, hvalue, ?_⟩, ?_⟩
  · rw [← hvalue]
    refine (hreads _ (.refl _) b hbmem (.composite Standard.bit) "Out" ?_ rfl).2 ?_
    · rw [hchip]
      decide +kernel
    · rw [hchip]
      exact fun h => absurd h (by decide)
  · obtain ⟨b', hfound', hinner⟩ := Option.bind_eq_some_iff.1 hat
    obtain ⟨s, hs, hmem⟩ := Scope.exists_holds_of_mem_parts (s := sim.top)
      (mem_of_findInstance? hfound').1 (mem_of_findInstance? hinner).1
    refine ⟨s, mux, hs, hmem, hchip', hvalue', fun hsame => ?_⟩
    have hlow := (hreads s hs mux hmem (.composite Standard.mux) "OUT" (by
      rw [hchip']
      decide +kernel) rfl).1 hsame (Or.inr hchip')
    exact Bool.false_ne_true (hlow.symm.trans hvalue')

/-- An exclusive or of a switch and nothing, negated twice: read through its output pin, and read as
a whole. -/
def readTwice : Program :=
  ⟨[.part ⟨"a", "INPUT", none⟩, .part ⟨"x", "XOR", none⟩, .part ⟨"n", "NOT", none⟩,
    .part ⟨"m", "NOT", none⟩, .wire ⟨"a", "x", .ambiguous "A"⟩,
    .wire ⟨"x", "n", .both "OUT" "In"⟩, .wire ⟨"x", "m", .ambiguous "In"⟩]⟩

/-- When the circuit has settled, the exclusive or is high and its only declared output is low: the
two negations differ. -/
theorem declared_output_of_xor_is_low :
    let sim := (Simulator.new Standard.catalog {}).run [.assembleProgram readTwice, .toggle "a"]
    sim.convergedLast = true ∧
      (Standard.catalog.get? "XOR").map ChipType.outputs = some ["OUT"] ∧
      sim.value? "x" = some true ∧ sim.output? "x" "OUT" = some false ∧
      sim.value? "n" = some true ∧ sim.value? "m" = some false := by
  decide +kernel

end Breadboard
