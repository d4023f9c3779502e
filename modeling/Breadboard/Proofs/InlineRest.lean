import Breadboard.Proofs.Inline

/-!
# A circuit at rest stays at rest when a composite is inlined

At rest, a composite adds nothing to its parts: its inputs have the bits of the wires into it, and
its outputs those of the parts that its pin map names. So every wire of the inlined netlist carries
the bit of the wire that it comes from, every chip gets the inputs that it had, and nothing moves.

* `resolveInputs_map`: a chip gets the same inputs from wires that were re-sourced one by one, if
  each still carries its bit;
* `Inlining.Resting.read_outer`, `Inlining.Resting.read_inner`: the re-sourced wires carry the bits
  that they carried;
* **`Inlining.Resting.inlined`**: the inlined circuit is at rest.
-/

namespace Breadboard

variable {catalog : Catalog}

/-! ## Wires that are re-sourced -/

/-- Pins are given by the pins that the wires name, wherever they come from. -/
theorem assignFrom_map {f : Wire → Wire} (hpin : ∀ wire, (f wire).targetPin = wire.targetPin)
    (declared : List String) (wires : List Wire) : ∀ taken,
      assignFrom declared taken (wires.map f) =
        (assignFrom declared taken wires).map fun e => (f e.1, e.2) := by
  induction wires with
  | nil => exact fun _ => rfl
  | cons wire rest ih =>
    intro taken
    have hfor : pinFor declared taken (f wire) = pinFor declared taken wire := by
      unfold pinFor
      rw [hpin]
    rw [List.map_cons, assignFrom, assignFrom, hfor]
    cases pinFor declared taken wire with
    | none => exact ih taken
    | some pin => exact congrArg ((f wire, pin) :: ·) (ih (pin :: taken))

/-- **An instance gets the same inputs** from wires that were re-sourced one by one, if each carries
the bit that it carried. -/
theorem resolveInputs_map {f : Wire → Wire} {scope scope' : List Instance}
    {wires wires' : List Wire} {inherited inherited' : Pins} {target target' : Part}
    (hchip : target'.chip = target.chip) (hpin : ∀ wire, (f wire).targetPin = wire.targetPin)
    (hwires : (wires'.filter fun wire => wire.target == target'.id) =
      (wires.filter fun wire => wire.target == target.id).map f)
    (hread : ∀ wire ∈ wires, wire.target = target.id →
      (f wire).read scope' inherited' = wire.read scope inherited) :
    resolveInputs catalog scope' wires' inherited' target' =
      resolveInputs catalog scope wires inherited target := by
  unfold resolveInputs
  have hassign : assignPins (catalog.inputsOf target'.chip) wires' target'.id =
      (assignPins (catalog.inputsOf target.chip) wires target.id).map fun e => (f e.1, e.2) := by
    unfold assignPins
    rw [hwires, hchip, assignFrom_map hpin]
  rw [hassign, List.map_map]
  refine congrArg NameMap.ofList (List.map_congr_left fun e he => ?_)
  obtain ⟨hm, ht⟩ := mem_assignPins he
  exact Prod.ext rfl (hread e.1 hm ht)

/-- Rest is no matter of the id. -/
theorem atRest_renamed {naming : String → String} {inputs : Pins} {i : Instance} :
    (i.renamed naming).AtRest catalog inputs ↔ i.AtRest catalog inputs := by
  obtain ⟨part, expanded, s, body⟩ := i
  cases body with
  | unknown =>
    change Instance.AtRest catalog inputs ⟨part.renamed naming, expanded, s, .unknown⟩ ↔ _
    rw [atRest_unknown, atRest_unknown]
  | composite parts inner =>
    change Instance.AtRest catalog inputs
      ⟨part.renamed naming, expanded, s, .composite parts inner⟩ ↔ _
    rw [atRest_composite, atRest_composite]
    exact Iff.rfl
  | primitive kind =>
    change Instance.AtRest catalog inputs ⟨part.renamed naming, expanded, s, .primitive kind⟩ ↔ _
    by_cases hk : kind = .dff
    · subst hk
      rw [atRest_flipFlop, atRest_flipFlop]
      exact Iff.rfl
    · rw [atRest_gate hk, atRest_gate hk]
      exact Iff.rfl

/-! ## Taps -/

/-- What a tap gives: the pin, if the part is a composite that maps it, and else the main output. -/
theorem read_tapped {i : Instance} {inputs : Pins} (hrest : i.AtRest catalog inputs)
    (hplain : i.Plain catalog) (pin : Option String) :
    (pin.bind i.signals.outputs.get?).getD i.value =
      i.read (pin.filter fun pin =>
        i.isComposite && (catalog.pinMapOf i.chip).outputs.contains pin) := by
  cases pin with
  | none => rfl
  | some pin =>
    rw [Option.bind_some, Option.filter_some]
    obtain ⟨part, expanded, s, body⟩ := i
    cases body with
    | unknown | primitive =>
      simpa [Instance.isComposite, Instance.read] using hplain.fallback rfl pin
    | composite parts inner =>
      cases hpin : (catalog.pinMapOf part.chip).outputs.get? pin with
      | none =>
        have hcontains : (catalog.pinMapOf part.chip).outputs.contains pin = false := by
          unfold NameMap.contains
          rw [hpin]
          rfl
        have hnone : s.outputs.get? pin = none := hplain.1 pin hpin
        simp [Instance.chip, Instance.isComposite, hcontains, hnone, Instance.read]
      | some tap =>
        have hcontains : (catalog.pinMapOf part.chip).outputs.contains pin = true := by
          unfold NameMap.contains
          rw [hpin]
          rfl
        have hsome : s.outputs.get? pin = some (tap.read parts) := by
          rw [get?_outputs_of_atRest hrest hplain, hpin]
          rfl
        simp [Instance.chip, Instance.isComposite, hcontains, hsome, Instance.read,
          Instance.output, Signals.output]

/-- Without double ids the only part of an id says whether it maps a pin. -/
theorem Composite.maps_eq {d : Composite} (hnodup : (d.parts.map Part.id).Nodup) {part : Part}
    (hpart : part ∈ d.parts) (pin : String) :
    d.maps catalog part.id pin =
      (part.chip != inputType && (catalog.pinMapOf part.chip).outputs.contains pin) := by
  unfold maps
  rw [Bool.eq_iff_iff, List.any_eq_true]
  constructor
  · rintro ⟨part', hpart', hmaps⟩
    simp only [Bool.and_eq_true, beq_iff_eq] at hmaps
    have hsame : part' = part := List.inj_on_of_nodup_map hnodup hpart' hpart hmaps.1.1
    rw [← hsame, Bool.and_eq_true]
    exact ⟨hmaps.1.2, hmaps.2⟩
  · intro hmaps
    rw [Bool.and_eq_true] at hmaps
    refine ⟨part, hpart, ?_⟩
    rw [Bool.and_eq_true, Bool.and_eq_true, beq_iff_eq]
    exact ⟨⟨rfl, hmaps.1⟩, hmaps.2⟩

/-- A type whose pin map names output pins is a composite. -/
theorem exists_composite_of_contains {chip pin : String}
    (h : (catalog.pinMapOf chip).outputs.contains pin = true) :
    ∃ d, catalog.get? chip = some (.composite d) := by
  unfold Catalog.pinMapOf Catalog.composite? at h
  cases hget : catalog.get? chip with
  | none => simp [hget, NameMap.contains] at h
  | some d =>
    cases d with
    | primitive d => simp [hget, ChipType.composite?, NameMap.contains] at h
    | composite d => exact ⟨d, rfl⟩

namespace Inlining

variable {x : Inlining catalog} {scope parts : List Instance} {s : Signals}

/-- What the pin map of a part says is told from its instance. -/
theorem Opens.maps_eq (h : x.Opens scope s parts) {id : String} {i : Instance}
    (hi : findInstance? parts id = some i) (pin : String) :
    x.blueprint.maps catalog id pin =
      (i.isComposite && (catalog.pinMapOf i.chip).outputs.contains pin) := by
  obtain ⟨hmem, rfl⟩ := mem_of_findInstance? hi
  obtain ⟨k, hk⟩ := List.mem_iff_getElem?.1 hmem
  obtain ⟨j, hj, hblank⟩ := getElem?_of_blankAll h.parts hk
  obtain ⟨part, hpart, rfl⟩ := List.mem_map.1 (List.mem_of_getElem? hj)
  have hfold := fold_of_mem_parts x.defined hpart
  have hipart : i.part = part := by
    rw [← blank_part i, ← hblank, blank_part]
    exact hfold
  have hcomposite : i.isComposite = (Instance.fresh catalog part).isComposite :=
    (isComposite_of_blank hblank).symm
  rw [hcomposite]
  change x.blueprint.maps catalog i.part.id pin =
    (_ && (catalog.pinMapOf i.part.chip).outputs.contains pin)
  rw [hipart, Composite.maps_eq x.blueprint_nodup hpart]
  cases hcontains : (catalog.pinMapOf part.chip).outputs.contains pin with
  | false => rw [Bool.and_false, Bool.and_false]
  | true =>
    obtain ⟨d, hget⟩ := exists_composite_of_contains hcontains
    rw [Bool.and_true, Bool.and_true]
    unfold Instance.fresh
    rw [hfold]
    by_cases hinput : part.chip = inputType
    · simp [hinput, bodyOf_input, Instance.isComposite]
    · simp [hinput, bodyOf_composite hinput hget, Instance.isComposite]

/-! ## What the wires carry -/

/-- A wire from a new id reads the part of the old one. -/
theorem Opens.read_naming (h : x.Opens scope s parts) (wire : Wire) (id : String)
    (pin : Option String) :
    (wire.tapping ⟨x.naming id, pin⟩).read (inlineAll x.naming x.site.id scope) ∅ =
      match findInstance? parts id with
      | some i => i.read pin
      | none => false := by
  unfold Wire.read Wire.tapping
  rw [findInstance?_inlineAll_naming x.naming_injective (h.fresh id), h.partsOf_eq]
  cases findInstance? parts id <;> rfl

/-- A wire from nowhere reads low. -/
theorem Opens.read_nowhere (h : x.Opens scope s parts) (wire : Wire) (pin : Option String) :
    (wire.tapping ⟨x.nowhere, pin⟩).read (inlineAll x.naming x.site.id scope) ∅ = false := by
  unfold Wire.read Wire.tapping
  rw [h.find_nowhere]
  rfl

/-- A wire from another chip reads what it read. -/
theorem read_other {wire : Wire} (hwire : wire ∈ x.wires)
    (hsite : wire.source ≠ x.site.id) :
    wire.read (inlineAll x.naming x.site.id scope) ∅ = wire.read scope ∅ := by
  unfold Wire.read
  rw [findInstance?_inlineAll hsite fun k => (x.naming_unwired wire hwire k).1]

/-- The instances around the composite and inside it, at rest and never restored. -/
structure Resting (x : Inlining catalog) (scope : List Instance) (s : Signals)
    (parts : List Instance) : Prop extends x.Opens scope s parts where
  rest : Scope.AtRest catalog ⟨scope, x.wires, ∅⟩
  plain : Throughout (Instance.Plain catalog) scope
  /-- The composite does not feed itself. -/
  apart : ∀ wire ∈ x.wires, wire.target = x.site.id → wire.source ≠ x.site.id

/-- What is known of the composite itself. -/
theorem Resting.site (h : x.Resting scope s parts) :
    ∃ expanded, findInstance? scope x.site.id =
        some ⟨x.site.fold, expanded, s, .composite parts x.blueprint.wires⟩ ∧
      Instance.AtRest catalog (Scope.inputsFor catalog ⟨scope, x.wires, ∅⟩ x.site.fold)
        ⟨x.site.fold, expanded, s, .composite parts x.blueprint.wires⟩ ∧
      Instance.Throughout (Instance.Plain catalog)
        ⟨x.site.fold, expanded, s, .composite parts x.blueprint.wires⟩ := by
  obtain ⟨expanded, hfound⟩ := h.found
  have hmem := (mem_of_findInstance? hfound).1
  have hrest := Scope.atRest_iff.1 h.rest _ hmem
  have hplain := throughout_iff.1 h.plain _ hmem
  exact ⟨expanded, hfound, hrest, hplain⟩

theorem pinMapOf_site (x : Inlining catalog) :
    catalog.pinMapOf x.site.fold.chip = x.blueprint.pinMap := by
  unfold Catalog.pinMapOf Catalog.composite?
  rw [x.defined]
  rfl

/-- The inside of the composite is at rest. -/
theorem Resting.inside (h : x.Resting scope s parts) :
    Scope.AtRest catalog ⟨parts, x.blueprint.wires, s.inputs⟩ := by
  obtain ⟨expanded, -, hrest, -⟩ := h.site
  exact (atRest_composite.1 hrest).2.1

/-- A wire from the part of a tap reads what the tap gives. -/
theorem Resting.read_tap (h : x.Resting scope s parts) (wire : Wire) (tap : Tap) :
    (wire.tapping ⟨x.naming tap.id, tap.pin.filter (x.blueprint.maps catalog tap.id)⟩).read
      (inlineAll x.naming x.site.id scope) ∅ = tap.read parts := by
  obtain ⟨expanded, -, -, hplain⟩ := h.site
  rw [Instance.throughout_composite] at hplain
  rw [h.read_naming wire tap.id]
  unfold Tap.read
  cases hi : findInstance? parts tap.id with
  | none => rfl
  | some i =>
    have hmem := (mem_of_findInstance? hi).1
    have hown := Scope.atRest_iff.1 h.inside i hmem
    have htapped := read_tapped hown (throughout_iff.1 hplain.2 i hmem).1 tap.pin
    have hmaps : x.blueprint.maps catalog tap.id = fun pin =>
        i.isComposite && (catalog.pinMapOf i.chip).outputs.contains pin :=
      funext (h.maps_eq hi)
    simp only [hmaps]
    exact htapped.symm

/-- A wire from the part that gives the composite a bit reads what the composite gives. -/
theorem Resting.read_outlet (h : x.Resting scope s parts) (wire : Wire) (expanded : Bool)
    (pin : Option String) :
    (wire.tapping (match x.blueprint.outlet? catalog pin with
      | some tap => ⟨x.naming tap.id, tap.pin⟩
      | none => ⟨x.nowhere, none⟩)).read (inlineAll x.naming x.site.id scope) ∅ =
        Instance.read ⟨x.site.fold, expanded, s, .composite parts x.blueprint.wires⟩ pin := by
  obtain ⟨_, -, hrest, hplain⟩ := h.site
  rw [Instance.throughout_composite] at hplain
  cases pin with
  | none =>
    have hvalue := value_of_atRest hrest hplain.1
    have houtlet : x.blueprint.outlet? catalog none =
        x.blueprint.pinMap.main.map fun id => { id } := rfl
    change _ = s.value
    rw [hvalue, pinMapOf_site, houtlet]
    cases x.blueprint.pinMap.main with
    | none => exact h.read_nowhere wire none
    | some id =>
      refine (h.read_naming wire id none).trans ?_
      change _ = mainOutput parts id
      unfold mainOutput
      cases findInstance? parts id <;> rfl
  | some pin =>
    have houtput := get?_outputs_of_atRest hrest hplain.1 pin
    have houtlet : x.blueprint.outlet? catalog (some pin) =
        (x.blueprint.pinMap.outputs.get? pin).map fun tap =>
          { tap with pin := tap.pin.filter (x.blueprint.maps catalog tap.id) } := rfl
    change _ = (s.outputs.get? pin).getD false
    rw [houtput, pinMapOf_site, houtlet]
    cases x.blueprint.pinMap.outputs.get? pin with
    | none => exact h.read_nowhere wire none
    | some tap => exact h.read_tap wire tap

/-- **A wire of the netlist carries its bit past the border**: from the composite it reads the part
that gives the composite the bit. -/
theorem Resting.read_outer (h : x.Resting scope s parts) {wire : Wire} (hwire : wire ∈ x.wires) :
    (x.outer wire).read (inlineAll x.naming x.site.id scope) ∅ = wire.read scope ∅ := by
  unfold outer
  by_cases hsource : wire.source = x.site.id
  · obtain ⟨expanded, hfound⟩ := h.found
    have hread : wire.read scope ∅ = Instance.read
        ⟨x.site.fold, expanded, s, .composite parts x.blueprint.wires⟩ wire.sourcePin := by
      unfold Wire.read
      rw [hsource, hfound]
    rw [if_pos hsource, hread]
    exact h.read_outlet wire expanded wire.sourcePin
  · rw [if_neg hsource]
    exact read_other hwire hsource

/-- **A wire inside the composite carries its bit past the border**: from an input pin it reads what
drives the pin. -/
theorem Resting.read_inner (h : x.Resting scope s parts) (wire : Wire) :
    (x.inner wire).read (inlineAll x.naming x.site.id scope) ∅ = wire.read parts s.inputs := by
  have hhas : (x.blueprint.parts.any fun part => part.id == wire.source) = true ↔
      wire.source ∈ parts.map Instance.id := by
    rw [h.ids_inside, List.any_eq_true, List.mem_map]
    simp only [beq_iff_eq]
  unfold inner
  split
  · rename_i hsome
    refine (h.read_naming _ wire.source wire.sourcePin).trans ?_
    unfold Wire.read
    cases hi : findInstance? parts wire.source with
    | none => exact absurd (hhas.1 hsome) (findInstance?_eq_none_iff.1 hi)
    | some i => rfl
  · rename_i hnone
    obtain ⟨expanded, -, hrest, -⟩ := h.site
    have hpin : s.inputs.get? wire.source = (lastWire? (assignPins
        (catalog.inputsOf x.site.fold.chip) x.wires x.site.id) wire.source).map
          (Wire.read scope ∅) :=
      (NameMap.agree_iff_get?.1 hrest.agree wire.source).trans
        (get?_resolveInputs catalog scope x.wires ∅ x.site.fold wire.source)
    have hread : wire.read parts s.inputs = (s.inputs.get? wire.source).getD false := by
      unfold Wire.read
      rw [findInstance?_eq_none_iff.2 fun hm => hnone (hhas.2 hm)]
    rw [hread, hpin]
    unfold inlet?
    cases hlast : lastWire? (assignPins (catalog.inputsOf x.site.fold.chip) x.wires x.site.id)
      wire.source with
    | none => exact h.read_nowhere _ none
    | some outer =>
      obtain ⟨hm, htarget⟩ := mem_of_lastWire? hlast
      have hother : outer.read (inlineAll x.naming x.site.id scope) ∅ = outer.read scope ∅ :=
        read_other hm (h.apart outer hm htarget)
      exact hother

/-! ## Rest -/

/-- The wires into a chip that is not inlined. -/
theorem filter_inlinedWires (x : Inlining catalog) {id : String} (hsite : id ≠ x.site.id)
    (hnew : ∀ k, id ≠ x.naming k) :
    (x.inlinedWires.filter fun wire => wire.target == id) =
      (x.wires.filter fun wire => wire.target == id).map x.outer := by
  have hinside : ((x.blueprint.wires.map x.inner).filter fun wire => wire.target == id) = [] := by
    rw [List.filter_eq_nil_iff]
    intro wire hm
    obtain ⟨wire, -, rfl⟩ := List.mem_map.1 hm
    rw [inner_target, beq_iff_eq]
    exact fun h => hnew _ h.symm
  unfold inlinedWires
  rw [List.filter_append, hinside, List.append_nil, List.filter_map, List.filter_filter]
  refine congrArg (List.map x.outer) (List.filter_congr fun wire _ => ?_)
  rw [Function.comp_apply, outer_target]
  by_cases h : wire.target = id
  · simp [h, hsite]
  · simp [h]

/-- The wires into a part of the composite. -/
theorem filter_inlinedWires_naming (x : Inlining catalog) (id : String) :
    (x.inlinedWires.filter fun wire => wire.target == x.naming id) =
      (x.blueprint.wires.filter fun wire => wire.target == id).map x.inner := by
  have houtside : (((x.wires.filter fun wire => wire.target != x.site.id).map x.outer).filter
      fun wire => wire.target == x.naming id) = [] := by
    rw [List.filter_eq_nil_iff]
    intro wire hm
    obtain ⟨wire, hwire, rfl⟩ := List.mem_map.1 hm
    rw [outer_target, beq_iff_eq]
    exact (x.naming_unwired wire (List.mem_filter.1 hwire).1 id).2
  unfold inlinedWires
  rw [List.filter_append, houtside, List.nil_append, List.filter_map]
  refine congrArg (List.map x.inner) (List.filter_congr fun wire _ => ?_)
  rw [Function.comp_apply, inner_target, Bool.eq_iff_iff, beq_iff_eq, beq_iff_eq]
  exact x.naming_injective.eq_iff

/-- **The inlined circuit is at rest.** -/
theorem Resting.inlined (h : x.Resting scope s parts) :
    Scope.AtRest catalog ⟨inlineAll x.naming x.site.id scope, x.inlinedWires, ∅⟩ := by
  refine Scope.atRest_iff.2 fun j hj => ?_
  have hj' := hj
  unfold inlineAll at hj'
  rcases List.mem_append.1 hj' with hj' | hj'
  · -- a chip around the composite gets the inputs that it had
    obtain ⟨hmem, hne⟩ := List.mem_filter.1 hj'
    rw [bne_iff_ne] at hne
    have hnew : ∀ k, j.id ≠ x.naming k := by
      intro k hid
      exact h.fresh k (hid ▸ List.mem_map_of_mem hmem)
    have hinputs : Scope.inputsFor catalog ⟨inlineAll x.naming x.site.id scope, x.inlinedWires, ∅⟩
        j.part = Scope.inputsFor catalog ⟨scope, x.wires, ∅⟩ j.part :=
      resolveInputs_map rfl x.outer_targetPin (x.filter_inlinedWires hne hnew)
        fun wire hwire _ => h.read_outer hwire
    rw [hinputs]
    exact Scope.atRest_iff.1 h.rest j hmem
  · -- and so does a part of the composite
    rw [h.partsOf_eq] at hj'
    obtain ⟨k, hk, rfl⟩ := List.mem_map.1 hj'
    have hinputs : Scope.inputsFor catalog ⟨inlineAll x.naming x.site.id scope, x.inlinedWires, ∅⟩
        (k.renamed x.naming).part =
          Scope.inputsFor catalog ⟨parts, x.blueprint.wires, s.inputs⟩ k.part :=
      resolveInputs_map (f := x.inner) rfl (fun _ => rfl) (x.filter_inlinedWires_naming k.id)
        fun wire _ _ => h.read_inner wire
    rw [hinputs, atRest_renamed]
    exact Scope.atRest_iff.1 h.inside k hk

end Inlining

end Breadboard
