import Breadboard.Proofs.Containment
import Breadboard.Proofs.Order

/-!
# Inlining a composite

An `Inlining` says which composite of a netlist gives way to its own parts, and how these are named
among the other chips. The parts come to the top under fresh ids (`Inlining.inlinedParts`), and the
wires are led past the border that is gone (`Inlining.inlinedWires`): a wire into the composite ends
where the inner wires took its pin from, and a wire from the composite begins at the part that its
pin map names.

`inlineAll` does to instances, in any state, what `inlinedParts` does to their declarations.

* `findInstance?_inlineAll`, `findInstance?_inlineAll_naming`: what an id finds after inlining;
* `keptAll_inlineAll`, `commitAll_inlineAll`, `toggleInput_inlineAll`: inlining commutes with what
  is kept, with clock edges and with toggles;
* `Inlining.inlineAll_before`: fresh chips, inlined, are the fresh chips of the inlined netlist.
-/

namespace Breadboard

/-! ## Renaming -/

/-- The part under another id. -/
def Part.renamed (naming : String → String) (part : Part) : Part :=
  { part with id := naming part.id }

/-- The instance under another id. -/
def Instance.renamed (naming : String → String) (i : Instance) : Instance :=
  { i with part := i.part.renamed naming }

/-- The wire from another source. -/
def Wire.tapping (wire : Wire) (tap : Tap) : Wire :=
  { wire with source := tap.id, sourcePin := tap.pin }

/-! ## What is inlined -/

/-- Is the part `id` a composite whose pin map names `pin`? -/
def Composite.maps (catalog : Catalog) (d : Composite) (id pin : String) : Bool :=
  d.parts.any fun part => part.id == id && part.chip != inputType &&
    (catalog.pinMapOf part.chip).outputs.contains pin

/-- The part and pin that give a composite its main output, or the bit of an output pin. A pin that
the part does not map stands for the main output of the part. -/
def Composite.outlet? (catalog : Catalog) (d : Composite) : Option String → Option Tap
  | none => d.pinMap.main.map fun id => { id }
  | some pin => (d.pinMap.outputs.get? pin).map fun tap =>
    { tap with pin := tap.pin.filter (d.maps catalog tap.id) }

/-- A netlist without double ids, a composite in it, and fresh ids for the parts of that one. -/
structure Inlining (catalog : Catalog) where
  /-- The chips at the top. -/
  parts : List Part
  /-- The wires at the top. -/
  wires : List Wire
  /-- The composite that gives way to its parts. -/
  site : Part
  /-- Its definition. -/
  blueprint : Composite
  /-- The new ids of its parts. -/
  naming : String → String
  /-- An id that no chip has. -/
  nowhere : String
  nodup : (parts.map Part.id).Nodup
  site_mem : site ∈ parts
  site_ne_input : site.fold.chip ≠ inputType
  defined : catalog.get? site.fold.chip = some (.composite blueprint)
  blueprint_nodup : (blueprint.parts.map Part.id).Nodup
  naming_injective : Function.Injective naming
  /-- No chip has a new id. -/
  naming_fresh : ∀ id, naming id ∉ parts.map Part.id
  /-- No wire names a new id. -/
  naming_unwired : ∀ wire ∈ wires, ∀ id, wire.source ≠ naming id ∧ wire.target ≠ naming id
  nowhere_fresh : nowhere ∉ parts.map Part.id
  nowhere_ne_naming : ∀ id, nowhere ≠ naming id

namespace Inlining

variable {catalog : Catalog} (x : Inlining catalog)

/-- The netlist as it is declared. -/
def before : Netlist := ⟨x.parts.map (Instance.fresh catalog), x.wires⟩

/-- Where the composite takes the bit of an input pin from: the source of the last wire that is
given the pin. -/
def inlet? (pin : String) : Option Tap :=
  (lastWire? (assignPins (catalog.inputsOf x.site.fold.chip) x.wires x.site.id) pin).map
    fun wire => ⟨wire.source, wire.sourcePin⟩

/-- A wire of the netlist: from the composite it is led to the part that gives the bit. -/
def outer (wire : Wire) : Wire :=
  if wire.source = x.site.id then
    wire.tapping <| match x.blueprint.outlet? catalog wire.sourcePin with
      | some tap => ⟨x.naming tap.id, tap.pin⟩
      | none => ⟨x.nowhere, none⟩
  else wire

/-- A wire inside the composite, under the new ids: from an input pin it is led to what drives the
pin. -/
def inner (wire : Wire) : Wire :=
  { wire with target := x.naming wire.target }.tapping <|
    if x.blueprint.parts.any fun part => part.id == wire.source then
      ⟨x.naming wire.source, wire.sourcePin⟩
    else (x.inlet? wire.source).getD ⟨x.nowhere, none⟩

/-- The chips without the composite, and its parts under their new ids. -/
def inlinedParts : List Part :=
  (x.parts.filter fun part => part.id != x.site.id) ++
    x.blueprint.parts.map (Part.renamed x.naming)

/-- The wires that do not lead into the composite, and those inside it. -/
def inlinedWires : List Wire :=
  ((x.wires.filter fun wire => wire.target != x.site.id).map x.outer) ++
    x.blueprint.wires.map x.inner

/-- The netlist in which the composite has given way to its parts. -/
def after : Netlist := ⟨x.inlinedParts.map (Instance.fresh catalog), x.inlinedWires⟩

@[simp] theorem outer_target (wire : Wire) : (x.outer wire).target = wire.target := by
  unfold outer
  split <;> rfl

theorem outer_targetPin (wire : Wire) : (x.outer wire).targetPin = wire.targetPin := by
  unfold outer
  split <;> rfl

@[simp] theorem inner_target (wire : Wire) : (x.inner wire).target = x.naming wire.target := rfl

end Inlining

/-! ## Inlining instances -/

/-- The parts of the first instance of an id. -/
def partsOf (scope : List Instance) (id : String) : List Instance :=
  match findInstance? scope id with
  | some i => i.parts
  | none => []

/-- The instances of other ids, and the parts of the instance of an id under new ids. -/
def inlineAll (naming : String → String) (id : String) (scope : List Instance) : List Instance :=
  (scope.filter fun i => i.id != id) ++ (partsOf scope id).map (Instance.renamed naming)

section InlineAll

variable {naming : String → String} {site : String} {scope : List Instance}

theorem findInstance?_append (l l' : List Instance) (id : String) :
    findInstance? (l ++ l') id = (findInstance? l id).or (findInstance? l' id) :=
  List.find?_append

theorem mem_of_findInstance? {id : String} {i : Instance} (h : findInstance? scope id = some i) :
    i ∈ scope ∧ i.id = id :=
  ⟨List.mem_of_find?_eq_some h, by simpa using List.find?_some h⟩

/-- **An id that is neither new nor that of the composite finds what it found.** -/
theorem findInstance?_inlineAll {id : String} (hsite : id ≠ site) (hnew : ∀ k, id ≠ naming k) :
    findInstance? (inlineAll naming site scope) id = findInstance? scope id := by
  unfold inlineAll
  have hparts : findInstance? ((partsOf scope site).map (Instance.renamed naming)) id = none := by
    rw [findInstance?_eq_none_iff, List.map_map]
    intro hm
    obtain ⟨k, -, hk⟩ := List.mem_map.1 hm
    exact hnew k.id hk.symm
  have hothers :
      findInstance? (scope.filter fun i => i.id != site) id = findInstance? scope id := by
    unfold findInstance?
    rw [List.find?_filter]
    congr 1
    funext i
    by_cases hi : i.id = id
    · simp [hi, hsite]
    · simp [hi]
  rw [findInstance?_append, hparts, hothers, Option.or_none]

/-- The id of the composite finds nothing any more. -/
theorem findInstance?_inlineAll_site (hnew : ∀ k, site ≠ naming k) :
    findInstance? (inlineAll naming site scope) site = none := by
  unfold inlineAll
  rw [findInstance?_eq_none_iff, List.map_append, List.mem_append, not_or, List.map_map]
  constructor
  · intro hm
    obtain ⟨i, hi, hid⟩ := List.mem_map.1 hm
    simp [hid] at hi
  · intro hm
    obtain ⟨k, -, hk⟩ := List.mem_map.1 hm
    exact hnew k.id hk.symm

/-- **A new id finds the part that has it.** -/
theorem findInstance?_inlineAll_naming (hinj : Function.Injective naming) {id : String}
    (hnew : naming id ∉ scope.map Instance.id) :
    findInstance? (inlineAll naming site scope) (naming id) =
      (findInstance? (partsOf scope site) id).map (Instance.renamed naming) := by
  unfold inlineAll
  have hothers : findInstance? (scope.filter fun i => i.id != site) (naming id) = none := by
    rw [findInstance?_eq_none_iff]
    exact fun hm => hnew ((List.filter_sublist.map Instance.id).subset hm)
  rw [findInstance?_append, hothers, Option.none_or]
  exact findInstance?_map fun i _ => hinj.eq_iff

/-- **Inlining commutes with what changes instances one by one**, if it leaves ids alone and changes
the parts of the composite one by one. -/
theorem inlineAll_map {f : Instance → Instance} (hid : ∀ i, (f i).id = i.id)
    (hparts : ∀ i, findInstance? scope site = some i →
      (f i).parts.map (Instance.renamed naming) = (i.parts.map (Instance.renamed naming)).map f) :
    inlineAll naming site (scope.map f) = (inlineAll naming site scope).map f := by
  unfold inlineAll
  have hfind : findInstance? (scope.map f) site = (findInstance? scope site).map f :=
    findInstance?_map fun i _ => by rw [hid]
  have hinside : (partsOf (scope.map f) site).map (Instance.renamed naming) =
      ((partsOf scope site).map (Instance.renamed naming)).map f := by
    unfold partsOf
    rw [hfind]
    cases h : findInstance? scope site with
    | none => rfl
    | some i => exact hparts i h
  rw [List.map_append, ← hinside, List.filter_map]
  refine congrArg (· ++ _) (congrArg (List.map f) (List.filter_congr fun i _ => ?_))
  exact congrArg (· != site) (hid i)

theorem kept_renamed (i : Instance) : (i.renamed naming).kept = i.kept.renamed naming := by
  obtain ⟨part, expanded, s, body⟩ := i
  unfold Instance.renamed
  cases body with
  | unknown => rw [kept_unknown, kept_unknown]
  | primitive kind => rw [kept_primitive, kept_primitive]
  | composite parts inner => rw [kept_composite, kept_composite]

theorem commit_renamed (i : Instance) :
    (i.renamed naming).commit.1 = i.commit.1.renamed naming := by
  obtain ⟨part, expanded, s, body⟩ := i
  unfold Instance.renamed
  cases body with
  | composite parts inner => rw [commit_composite, commit_composite]
  | unknown => rw [commit_leaf rfl (by simp), commit_leaf rfl (by simp)]
  | primitive kind =>
    by_cases hk : kind = .dff
    · subst hk
      rw [commit_flipFlop, commit_flipFlop]
    · rw [commit_leaf rfl (by simpa using hk), commit_leaf rfl (by simpa using hk)]

theorem parts_kept (i : Instance) : i.kept.parts = i.parts.map Instance.kept := by
  obtain ⟨part, expanded, s, body⟩ := i
  cases body with
  | unknown => rw [kept_unknown]; rfl
  | primitive kind => rw [kept_primitive]; rfl
  | composite parts inner =>
    rw [kept_composite, ← keptAll_eq_map]
    rfl

theorem parts_commit (i : Instance) : i.commit.1.parts = i.parts.map fun k => k.commit.1 := by
  obtain ⟨part, expanded, s, body⟩ := i
  cases body with
  | composite parts inner =>
    rw [commit_composite, ← commitAll_fst]
    rfl
  | unknown => rw [commit_leaf rfl (by simp)]; rfl
  | primitive kind =>
    by_cases hk : kind = .dff
    · subst hk
      rw [commit_flipFlop]
      rfl
    · rw [commit_leaf rfl (by simpa using hk)]
      rfl

/-- **Inlining commutes with what is kept.** -/
theorem keptAll_inlineAll (naming : String → String) (site : String) (scope : List Instance) :
    keptAll (inlineAll naming site scope) = inlineAll naming site (keptAll scope) := by
  rw [keptAll_eq_map, keptAll_eq_map, inlineAll_map]
  · intro i
    unfold Instance.id
    rw [kept_part]
  · intro i _
    rw [parts_kept, List.map_map, List.map_map]
    exact List.map_congr_left fun k _ => (kept_renamed k).symm

/-- **Inlining commutes with clock edges.** -/
theorem commitAll_inlineAll (naming : String → String) (site : String) (scope : List Instance) :
    (commitAll (inlineAll naming site scope)).1 = inlineAll naming site (commitAll scope).1 := by
  rw [commitAll_fst, commitAll_fst, inlineAll_map]
  · exact fun i => id_of_blank (blank_commit i)
  · intro i _
    rw [parts_commit, List.map_map, List.map_map]
    exact List.map_congr_left fun k _ => (commit_renamed k).symm

/-- Without double ids, and with fresh ones for the parts, there are none after inlining. -/
theorem nodup_inlineAll (hnodup : (scope.map Instance.id).Nodup)
    (hparts : ((partsOf scope site).map Instance.id).Nodup) (hinj : Function.Injective naming)
    (hnew : ∀ id, naming id ∉ scope.map Instance.id) :
    ((inlineAll naming site scope).map Instance.id).Nodup := by
  unfold inlineAll
  rw [List.map_append, List.nodup_append, List.map_map]
  have hrenamed : (Instance.id ∘ Instance.renamed naming) = naming ∘ Instance.id := rfl
  refine ⟨hnodup.sublist (List.filter_sublist.map Instance.id), ?_, ?_⟩
  · rw [hrenamed, ← List.map_map]
    exact hparts.map hinj
  · rintro a ha b hb rfl
    obtain ⟨k, -, rfl⟩ := List.mem_map.1 hb
    exact hnew k.id ((List.filter_sublist.map Instance.id).subset ha)

/-- **Inlining commutes with toggles** that name no new id. -/
theorem toggleInput_inlineAll (hnodup : (scope.map Instance.id).Nodup)
    (hnodup' : ((inlineAll naming site scope).map Instance.id).Nodup) {id : String}
    (hnew : ∀ k, id ≠ naming k)
    (hsite : ∀ i, findInstance? scope site = some i → i.isInput = false) :
    toggleInput (inlineAll naming site scope) id =
      inlineAll naming site (toggleInput scope id) := by
  rw [toggleInput_eq_map hnodup, toggleInput_eq_map hnodup', inlineAll_map]
  · intro i
    unfold Instance.flipped
    split <;> rfl
  · intro i hi
    have hkeep : Instance.flipped id i = i := if_neg fun h => by
      rw [hsite i hi] at h
      exact absurd h.2 (by decide)
    have hkeepInside : ∀ k ∈ i.parts.map (Instance.renamed naming), Instance.flipped id k = k := by
      intro k hk
      obtain ⟨k, -, rfl⟩ := List.mem_map.1 hk
      exact if_neg fun h => hnew k.id h.1.symm
    rw [hkeep, List.map_congr_left hkeepInside, List.map_id']

end InlineAll

/-! ## Circuits of the shape of the netlist -/

/-- A circuit of the shape of the netlist, opened at the composite: its signals and its parts. -/
structure Inlining.Opens {catalog : Catalog} (x : Inlining catalog) (scope : List Instance)
    (s : Signals) (parts : List Instance) : Prop where
  ids : scope.map Instance.id = x.parts.map Part.id
  found : ∃ expanded, findInstance? scope x.site.id =
    some ⟨x.site.fold, expanded, s, .composite parts x.blueprint.wires⟩
  parts : blankAll parts = blankAll (x.blueprint.parts.map (Instance.fresh catalog))

namespace Inlining

variable {catalog : Catalog} {x : Inlining catalog}

theorem fresh_site (h : catalog.NoCycle) : Instance.fresh catalog x.site =
    { part := x.site.fold, body :=
        .composite (x.blueprint.parts.map (Instance.fresh catalog)) x.blueprint.wires } := by
  have hbody := bodyOf_eq_fresh h x.site_ne_input x.defined
  exact congrArg (fun body => ({ part := x.site.fold, body } : Instance)) hbody

/-- **A circuit of the shape of the netlist can be opened.** -/
theorem opens (h : catalog.NoCycle) {scope : List Instance}
    (hshape : blankAll scope = blankAll x.before.instances) :
    ∃ s parts, x.Opens scope s parts := by
  have hids : scope.map Instance.id = x.parts.map Part.id :=
    (map_id_of_blankAll hshape).trans (map_id_fresh catalog x.parts)
  have hmem : Instance.fresh catalog x.site ∈ x.before.instances :=
    List.mem_map_of_mem x.site_mem
  obtain ⟨k, hk⟩ := List.mem_iff_getElem?.1 hmem
  obtain ⟨i, hi, hblank⟩ := getElem?_of_blankAll hshape.symm hk
  rw [fresh_site h] at hblank
  obtain ⟨expanded, s, parts, rfl, hparts⟩ := blank_eq_composite hblank
  have hnodup : (scope.map Instance.id).Nodup := hids ▸ x.nodup
  exact ⟨s, parts, hids, ⟨expanded, (findInstance?_eq_some_iff hnodup).2
    ⟨List.mem_of_getElem? hi, rfl⟩⟩, hparts⟩

section Opens

variable {scope parts : List Instance} {s : Signals}

theorem Opens.nodup (h : x.Opens scope s parts) : (scope.map Instance.id).Nodup := h.ids ▸ x.nodup

theorem Opens.fresh (h : x.Opens scope s parts) (id : String) :
    x.naming id ∉ scope.map Instance.id := h.ids ▸ x.naming_fresh id

theorem Opens.partsOf_eq (h : x.Opens scope s parts) : partsOf scope x.site.id = parts := by
  obtain ⟨expanded, hfound⟩ := h.found
  unfold partsOf
  rw [hfound]
  rfl

theorem Opens.map_part (h : x.Opens scope s parts) :
    parts.map Instance.part = x.blueprint.parts := by
  have hpart : ∀ l : List Instance, l.map Instance.part = (blankAll l).map Instance.part := by
    intro l
    rw [blankAll_eq_map, List.map_map]
    exact List.map_congr_left fun i _ => (blank_part i).symm
  rw [hpart, h.parts, ← hpart, List.map_map]
  exact (List.map_congr_left fun part hm => fold_of_mem_parts x.defined hm).trans (List.map_id _)

theorem Opens.ids_inside (h : x.Opens scope s parts) :
    parts.map Instance.id = x.blueprint.parts.map Part.id := by
  rw [← h.map_part, List.map_map]
  rfl

theorem Opens.nodup_inside (h : x.Opens scope s parts) : (parts.map Instance.id).Nodup :=
  h.ids_inside ▸ x.blueprint_nodup

theorem Opens.nodup_inlineAll (h : x.Opens scope s parts) :
    ((inlineAll x.naming x.site.id scope).map Instance.id).Nodup := by
  refine Breadboard.nodup_inlineAll h.nodup ?_ x.naming_injective h.fresh
  rw [h.partsOf_eq]
  exact h.nodup_inside

theorem Opens.site_ne_naming (h : x.Opens scope s parts) (id : String) :
    x.site.id ≠ x.naming id := by
  intro hid
  obtain ⟨expanded, hfound⟩ := h.found
  have hm := (mem_of_findInstance? hfound).1
  exact h.fresh id (hid ▸ List.mem_map_of_mem hm)

/-- After inlining, the id that no chip had finds nothing still. -/
theorem Opens.find_nowhere (h : x.Opens scope s parts) :
    findInstance? (inlineAll x.naming x.site.id scope) x.nowhere = none := by
  have hnone : findInstance? scope x.nowhere = none := by
    rw [findInstance?_eq_none_iff, h.ids]
    exact x.nowhere_fresh
  have hne : x.nowhere ≠ x.site.id := by
    intro heq
    obtain ⟨expanded, hfound⟩ := h.found
    rw [heq, hfound] at hnone
    cases hnone
  rw [findInstance?_inlineAll hne x.nowhere_ne_naming, hnone]

/-- The composite is no switch. -/
theorem Opens.isInput_site (h : x.Opens scope s parts) (i : Instance)
    (hi : findInstance? scope x.site.id = some i) : i.isInput = false := by
  obtain ⟨expanded, hfound⟩ := h.found
  rw [hfound] at hi
  cases hi
  rfl

end Opens

/-- **Fresh chips, inlined**, are the fresh chips of the inlined netlist. -/
theorem inlineAll_before (h : catalog.NoCycle) :
    inlineAll x.naming x.site.id x.before.instances = x.after.instances := by
  have hnodup : (x.before.instances.map Instance.id).Nodup := by
    unfold before
    rw [map_id_fresh]
    exact x.nodup
  have hfound : findInstance? x.before.instances x.site.id = some (Instance.fresh catalog x.site) :=
    (findInstance?_eq_some_iff hnodup).2 ⟨List.mem_map_of_mem x.site_mem, rfl⟩
  have hparts : partsOf x.before.instances x.site.id =
      x.blueprint.parts.map (Instance.fresh catalog) := by
    unfold partsOf
    rw [hfound, fresh_site h]
    rfl
  unfold inlineAll after inlinedParts
  rw [hparts, List.map_append, List.map_map, List.map_map]
  congr 1
  unfold before
  rw [List.filter_map]
  rfl

end Inlining

end Breadboard
