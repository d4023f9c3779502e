import Breadboard.Proofs.Order
import Breadboard.Proofs.OutputPins
import Breadboard.Proofs.Resettle

/-!
# Chips in a circuit at rest

What a chip makes of its inputs does not depend on the circuit around it. In a circuit that came to
rest every scope solves its equations and every chip is what the catalog says. So the inside of a
chip can be read off its blueprint: where the bit on a pin of a part comes from, and which part an
output gives. The chip itself may stand anywhere.

* `Simulator.Unrestored.works`: a circuit that was never restored works as soon as its last settling
  converges;
* `Catalog.source?`, `Instance.Works.input_within`: what is on a pin of a part;
* `Instance.Works.output_main`, `Instance.Works.output_pin`, `Instance.Works.value_main`: what a
  composite shows;
* `Instance.Works.gate`, `Instance.Works.next_flipFlop`: what a primitive computes;
* `Instance.Works.within`: the parts of a chip that works are chips that work.
-/

namespace Breadboard

variable {catalog : Catalog}

/-! ## Circuits at rest -/

/-- In the scope and in all inside it the equations hold and every chip is as the catalog has it. -/
def Scope.Works (catalog : Catalog) (s : Scope) : Prop :=
  ∀ t, s.Holds t → t.Solved catalog ∧ Built catalog t.instances

theorem Scope.Holds.trans {s t u : Scope} (h : s.Holds t) (h' : t.Holds u) : s.Holds u := by
  induction h with
  | refl => exact h'
  | inside hi _ ih => exact .inside hi (ih h')

theorem Scope.Works.holds {s t : Scope} (h : s.Works catalog) (hst : s.Holds t) :
    t.Works catalog :=
  fun u hu => h u (hst.trans hu)

theorem Scope.Works.inside {s : Scope} (h : s.Works catalog) {i : Instance}
    (hi : i ∈ s.instances) {parts : List Instance} {wires : List Wire}
    (hbody : i.body = .composite parts wires) :
    Scope.Works catalog ⟨parts, wires, i.signals.inputs⟩ := by
  obtain ⟨part, expanded, signals, body⟩ := i
  subst hbody
  exact h.holds (.inside hi (.refl _))

/-- What lasts of a simulator over `catalog` as long as nothing is restored. -/
structure Simulator.Unrestored (catalog : Catalog) (sim : Simulator) : Prop where
  catalog_eq : sim.catalog = catalog
  plain : Throughout (Instance.Plain catalog) sim.instances
  built : Built catalog sim.instances
  rest : sim.convergedLast = true → sim.top.AtRest catalog

namespace Simulator.Unrestored

theorem new (catalog : Catalog) (options : SimOptions) :
    (Simulator.new catalog options).Unrestored catalog :=
  ⟨rfl, throughout_nil, fun _ h => absurd h List.not_mem_nil, fun _ => rfl⟩

/-- **One operation more.** -/
theorem exec {sim : Simulator} (h : sim.Unrestored catalog) {c : Command}
    (hc : c.restores = false) : (c.exec sim).Unrestored catalog := by
  obtain ⟨rfl, hplain, hbuilt, hrest⟩ := h
  refine ⟨(exec_catalog sim c).1, (lasting_plain _).exec hc hplain, built_exec c hbuilt,
    fun hlast => ?_⟩
  cases hlaid : c.netlist? sim with
  | some laid =>
    exact atRest_of_convergedLast hlaid ((lasting_plain _).netlist? hc hlaid hplain) hlast
  | none =>
    refine (atRest_exec_of_not_netlist? hlaid).2 (hrest ?_)
    unfold convergedLast at hlast ⊢
    rwa [(exec_of_not_netlist? hlaid).2.2] at hlast

theorem run {sim : Simulator} (h : sim.Unrestored catalog) {commands : List Command}
    (hc : ∀ c ∈ commands, c.restores = false) : (sim.run commands).Unrestored catalog :=
  run_induct commands sim (fun _ c hm hs => hs.exec (hc c hm)) h

/-- **A circuit that was never restored works** if its last settling converged. -/
theorem works {sim : Simulator} (h : sim.Unrestored catalog) (hno : catalog.NoCycle)
    (hlast : sim.convergedLast = true) : sim.top.Works catalog :=
  fun _ ht => ⟨((h.rest hlast).holds ht).solved (h.plain.holds ht), h.built.holds hno ht⟩

end Simulator.Unrestored

/-! ## Blueprints -/

/-- Where a bit inside a composite comes from. -/
inductive Source where
  /-- An input pin of the composite. -/
  | input (pin : String)
  /-- An output pin of a part, or its main output. -/
  | output (id : String) (pin : Option String)
deriving DecidableEq

namespace Catalog

/-- The part of a composite with the given id. -/
def part? (catalog : Catalog) (chip id : String) : Option Part :=
  (catalog.composite? chip).bind fun d => d.parts.find? fun part => part.id == id

/-- Where the bit on a pin of a part comes from, if the pin is driven. -/
def source? (catalog : Catalog) (chip id pin : String) : Option Source := do
  let d ← catalog.composite? chip
  let part ← catalog.part? chip id
  let wire ← lastWire? (assignPins (catalog.inputsOf part.chip) d.wires id) pin
  return if (catalog.part? chip wire.source).isSome then .output wire.source wire.sourcePin
    else .input wire.source

end Catalog

namespace Instance

/-- The bit on an input pin; one that is not driven is low. -/
def input (i : Instance) (pin : String) : Bool := (i.signals.inputs.get? pin).getD false

/-- The part with the given id. -/
def within (i : Instance) (id : String) : Instance := (findInstance? i.parts id).getD default

/-- The bit that comes from somewhere inside a composite; nowhere it is low. -/
def sees (i : Instance) : Option Source → Bool
  | none => false
  | some (.input pin) => i.input pin
  | some (.output id pin) => (i.within id).read pin

/-- The instance is a chip of the given type, no switch, and stands in a scope that works. -/
structure Works (catalog : Catalog) (chip : String) (i : Instance) : Prop where
  noCycle : catalog.NoCycle
  notSwitch : chip ≠ inputType
  chip_eq : i.chip = chip
  placed : ∃ s : Scope, s.Works catalog ∧ i ∈ s.instances

/-- What is known of a composite that works. -/
structure Assembled (catalog : Catalog) (chip : String) (d : Composite) (i : Instance) : Prop where
  body : i.body = .composite i.parts d.wires
  parts : i.parts.map Instance.part = d.parts
  works : Scope.Works catalog ⟨i.parts, d.wires, i.signals.inputs⟩
  outputs : ∀ pin, i.signals.outputs.get? pin =
    ((catalog.pinMapOf chip).outputs.get? pin).map (Tap.read i.parts)
  value : i.value = match (catalog.pinMapOf chip).main with
    | some id => mainOutput i.parts id
    | none => false

end Instance

/-! ## A chip that works -/

namespace Instance.Works

variable {i : Instance} {chip : String}

/-- A chip that works has the shape of a fresh one. -/
theorem blank_eq (h : i.Works catalog chip) :
    i.blank = Instance.blank ⟨i.part, false, {}, bodyOf catalog chip⟩ := by
  obtain ⟨s, hs, hi⟩ := h.placed
  have hblank := (hs s (.refl s)).2 i hi
  have hpart : i.part = i.part.fold := by
    have hparts := congrArg Instance.part hblank
    rwa [blank_part, blank_part] at hparts
  rw [hblank, Instance.fresh, ← hpart, ← h.chip_eq]
  rfl

/-- **A composite that works** has the inside of its blueprint. -/
theorem assembled (h : i.Works catalog chip) {d : Composite}
    (hget : catalog.composite? chip = some d) : i.Assembled catalog chip d := by
  have hblank := h.blank_eq
  obtain ⟨hno, hne, hchip, s, hs, hi⟩ := h
  obtain ⟨t, ht, hcomposite⟩ := Option.bind_eq_some_iff.1 hget
  have hgetd : catalog.get? chip = some (.composite d) := by
    cases t with
    | primitive => cases hcomposite
    | composite => cases hcomposite; exact ht
  rw [bodyOf_eq_fresh hno hne hgetd] at hblank
  obtain ⟨expanded, signals, parts, heq, hparts⟩ := blank_eq_composite hblank
  have hsolved := (hs s (.refl s)).1.composite i hi parts d.wires (by rw [heq])
  rw [hchip] at hsolved
  have hinside : i.parts = parts := by rw [heq]; rfl
  refine ⟨by rw [hinside, heq], ?_, ?_, ?_, ?_⟩
  · rw [hinside]
    have hpart := congrArg (List.map Instance.part) hparts
    rw [blankAll_eq_map, blankAll_eq_map, List.map_map, List.map_map, List.map_map] at hpart
    refine Eq.trans ?_ (hpart.trans ((List.map_congr_left fun part hmem => ?_).trans
      (List.map_id d.parts)))
    · exact List.map_congr_left fun j _ => (blank_part j).symm
    · exact (blank_part _).trans (fold_of_mem_parts hgetd hmem)
  · rw [hinside]
    exact hs.inside hi (by rw [heq])
  · rw [hinside]
    exact hsolved.1
  · rw [hinside]
    exact hsolved.2

/-! ### Parts -/

section Parts

variable {id pin : String}

theorem parts_of_not_composite (h : i.Works catalog chip) (hget : catalog.composite? chip = none) :
    i.parts = [] := by
  have hblank := h.blank_eq
  cases ht : catalog.get? chip with
  | none =>
    rw [bodyOf_unknown h.notSwitch ht] at hblank
    obtain ⟨_, _, heq⟩ := blank_eq_unknown hblank
    rw [heq]
    rfl
  | some t =>
    cases t with
    | primitive d =>
      rw [bodyOf_primitive h.notSwitch ht] at hblank
      obtain ⟨_, _, heq⟩ := blank_eq_primitive hblank
      rw [heq]
      rfl
    | composite d =>
      unfold Catalog.composite? at hget
      rw [ht] at hget
      cases hget

/-- An id finds a part as the blueprint has it. -/
theorem part?_eq (h : i.Works catalog chip) (id : String) :
    catalog.part? chip id = (findInstance? i.parts id).map Instance.part := by
  unfold Catalog.part?
  cases hget : catalog.composite? chip with
  | none =>
    rw [h.parts_of_not_composite hget]
    rfl
  | some d =>
    rw [Option.bind_some, ← (h.assembled hget).parts, List.find?_map]
    rfl

/-- What an id of the blueprint finds. -/
theorem exists_of_part? (h : i.Works catalog chip) {part : Part}
    (hpart : catalog.part? chip id = some part) :
    ∃ d j, catalog.composite? chip = some d ∧ findInstance? i.parts id = some j ∧ j.part = part ∧
      i.within id = j := by
  obtain ⟨d, hget, -⟩ := Option.bind_eq_some_iff.1 hpart
  rw [h.part?_eq] at hpart
  obtain ⟨j, hj, hjpart⟩ := Option.map_eq_some_iff.1 hpart
  refine ⟨d, j, hget, hj, hjpart, ?_⟩
  rw [Instance.within, hj]
  rfl

/-- **The parts of a chip that works** are chips that work. -/
theorem within (h : i.Works catalog chip) {part : Part} (hpart : catalog.part? chip id = some part)
    (hne : part.chip ≠ inputType) : (i.within id).Works catalog part.chip := by
  obtain ⟨d, j, hget, hj, rfl, hwithin⟩ := h.exists_of_part? hpart
  rw [hwithin]
  exact ⟨h.noCycle, hne, rfl, _, (h.assembled hget).works, (mem_of_findInstance? hj).1⟩

/-- A wire inside a chip that works reads what its end in the blueprint shows. -/
theorem read_wire (h : i.Works catalog chip) (wire : Wire) :
    wire.read i.parts i.signals.inputs =
      i.sees (some (if (catalog.part? chip wire.source).isSome then
        .output wire.source wire.sourcePin else .input wire.source)) := by
  unfold Wire.read
  rw [h.part?_eq, Option.isSome_map]
  cases hfound : findInstance? i.parts wire.source with
  | none => rfl
  | some j => simp [Instance.sees, Instance.within, hfound]

/-- **What is on a pin of a part** comes from where the blueprint says. -/
theorem input_within (h : i.Works catalog chip) (id pin : String) :
    (i.within id).input pin = i.sees (catalog.source? chip id pin) := by
  cases hpart : catalog.part? chip id with
  | none =>
    have hsource : catalog.source? chip id pin = none := by
      unfold Catalog.source?
      rw [hpart]
      cases catalog.composite? chip <;> rfl
    rw [h.part?_eq, Option.map_eq_none_iff] at hpart
    rw [hsource, Instance.within, hpart]
    rfl
  | some part =>
    obtain ⟨d, j, hget, hj, rfl, hwithin⟩ := h.exists_of_part? hpart
    obtain ⟨hmem, hid⟩ := mem_of_findInstance? hj
    have hinputs := ((h.assembled hget).works _ (.refl _)).1.inputs j hmem pin
    unfold Catalog.source?
    rw [hwithin, Instance.input, hinputs, hget, hpart, hid]
    change (Option.map _ (lastWire? (assignPins (catalog.inputsOf j.chip) d.wires id) pin)).getD
      false = i.sees ((lastWire? (assignPins (catalog.inputsOf j.chip) d.wires id) pin).bind _)
    cases lastWire? (assignPins (catalog.inputsOf j.chip) d.wires id) pin with
    | none => rfl
    | some wire => exact h.read_wire wire

end Parts

/-! ### Outputs -/

section Outputs

variable {id pin : String}

/-- A composite is what has a pin map. -/
theorem exists_composite (h : i.Works catalog chip) (hmap : catalog.pinMapOf chip ≠ {}) :
    ∃ d, i.Assembled catalog chip d := by
  cases hget : catalog.composite? chip with
  | some d => exact ⟨d, h.assembled hget⟩
  | none =>
    refine absurd ?_ hmap
    unfold Catalog.pinMapOf
    rw [hget]

/-- A tap reads the part of its id. -/
theorem read_tap (i : Instance) (tap : Tap) : tap.read i.parts =
    (tap.pin.bind (i.within tap.id).signals.outputs.get?).getD (i.within tap.id).value := by
  unfold Tap.read Instance.within
  cases findInstance? i.parts tap.id with
  | none => cases tap.pin <;> rfl
  | some j => rfl

/-- A pin that the pin map names is driven. -/
theorem get?_outputs (h : i.Works catalog chip) {tap : Tap}
    (htap : (catalog.pinMapOf chip).outputs.get? pin = some tap) :
    i.signals.outputs.get? pin = some (tap.read i.parts) := by
  obtain ⟨d, hd⟩ := h.exists_composite fun hmap => by rw [hmap] at htap; cases htap
  rw [hd.outputs, htap]
  rfl

/-- **An output that gives a part** shows its main output. -/
theorem output_main (h : i.Works catalog chip)
    (htap : (catalog.pinMapOf chip).outputs.get? pin = some { id }) :
    i.output pin = (i.within id).value := by
  rw [Instance.output, Signals.output, h.get?_outputs htap, read_tap]
  rfl

/-- **An output that gives an output of a part** shows that, if the part drives it. -/
theorem output_pin (h : i.Works catalog chip) {inner : String} {part : Part}
    (htap : (catalog.pinMapOf chip).outputs.get? pin = some { id, pin := some inner })
    (hpart : catalog.part? chip id = some part) (hne : part.chip ≠ inputType)
    (hinner : (catalog.pinMapOf part.chip).outputs.contains inner = true) :
    i.output pin = (i.within id).output inner := by
  obtain ⟨tap, hdriven⟩ := Option.isSome_iff_exists.1 hinner
  have hget := (h.within hpart hne).get?_outputs hdriven
  rw [Instance.output, Instance.output, Signals.output, Signals.output, h.get?_outputs htap,
    read_tap, Option.bind_some, hget]
  rfl

/-- **The main output** is that of the main part. -/
theorem value_main (h : i.Works catalog chip) (hmain : (catalog.pinMapOf chip).main = some id) :
    i.value = (i.within id).value := by
  obtain ⟨d, hd⟩ := h.exists_composite fun hmap => by rw [hmap] at hmain; cases hmain
  rw [hd.value, hmain]
  exact read_tap i { id }

end Outputs

/-! ### Primitives -/

section Primitives

variable {d : Primitive}

theorem body_primitive (h : i.Works catalog chip) (hget : catalog.get? chip = some (.primitive d)) :
    i.body = .primitive d.kind := by
  have hblank := h.blank_eq
  rw [bodyOf_primitive h.notSwitch hget] at hblank
  obtain ⟨_, _, heq⟩ := blank_eq_primitive hblank
  rw [heq]

theorem inputsOf_primitive (h : i.Works catalog chip)
    (hget : catalog.get? chip = some (.primitive d)) : catalog.inputsOf i.chip = d.inputs := by
  unfold Catalog.inputsOf
  rw [h.chip_eq, hget]
  rfl

/-- **A gate computes its function.** -/
theorem gate (h : i.Works catalog chip) (hget : catalog.get? chip = some (.primitive d))
    (hi : d.kind ≠ .input) (hd : d.kind ≠ .dff) :
    i.value = d.kind.evaluate (i.signals.bit d.inputs 0) (i.signals.bit d.inputs 1) false := by
  have hbody := h.body_primitive hget
  have hinputs := h.inputsOf_primitive hget
  obtain ⟨s, hs, hmem⟩ := h.placed
  rw [((hs s (.refl s)).1.gate i hmem d.kind hbody hi hd).1 false, hinputs]

/-- **A flip-flop** has taken down its first input. -/
theorem next_flipFlop (h : i.Works catalog chip) (hget : catalog.get? chip = some (.primitive d))
    (hd : d.kind = .dff) : i.next = i.signals.bit d.inputs 0 := by
  have hbody := h.body_primitive hget
  have hinputs := h.inputsOf_primitive hget
  obtain ⟨s, hs, hmem⟩ := h.placed
  rw [hd] at hbody
  rw [(hs s (.refl s)).1.flipFlop i hmem hbody, hinputs]

end Primitives

end Instance.Works

end Breadboard
