import Breadboard.Proofs.InlineRest
import Breadboard.Proofs.Level
import Mathlib.Logic.Function.Basic

/-!
# Inlining a composite brings no cycle

A scope is leveled by numbers for its ids if every chip is higher, by its own depth, than all that
feed it. In an acyclic scope the levels at which the chips are finished are such numbers, and a
scope that has such numbers is acyclic. So the inlined circuit is leveled from the levels around the
composite and those inside it: the parts begin where the composite began.

* `Scope.Acyclic.leveled`, `Scope.Leveled.acyclic`: a scope is acyclic iff it can be leveled;
* `Inlining.Layered.leveled`: the levels of the inlined circuit;
* **`Inlining.Layered.acyclicInside`**: no instance of the inlined circuit feeds itself.
-/

namespace Breadboard

variable {catalog : Catalog}

/-! ## Levels by ids -/

/-- Every chip that computes its outputs is finished before those that it feeds begin. -/
def Scope.Leveled (s : Scope) (level : String → Nat) : Prop :=
  ∀ wire ∈ s.wires, ∀ source, findInstance? s.instances wire.source = some source →
    source.isStored = false → ∀ target ∈ s.instances, wire.target = target.id →
      level wire.source + target.depth ≤ level target.id

theorem one_le_depth (i : Instance) : 1 ≤ i.depth := by
  obtain ⟨part, expanded, s, body⟩ := i
  cases body with
  | composite parts wires =>
    rw [depth_composite]
    exact Nat.le_max_left 1 _
  | unknown | primitive => rw [depth_leaf rfl]

/-- Without double ids an instance sits on the seat of its id. -/
theorem seat?_of_nodup {scope : List Instance} (hnodup : (scope.map Instance.id).Nodup) {k : Nat}
    {i : Instance} (hk : scope[k]? = some i) : seat? scope i.id = some k := by
  cases hseat : seat? scope i.id with
  | none =>
    have hi := List.findIdx?_eq_none_iff.1 hseat i (List.mem_of_getElem? hk)
    simp at hi
  | some j =>
    obtain ⟨i', hj, hid⟩ := seat?_spec hseat
    have hlt : k < (scope.map Instance.id).length := by
      rw [List.length_map]
      exact (List.getElem?_eq_some_iff.1 hk).1
    refine congrArg some ((List.getElem?_inj hlt hnodup).1 ?_).symm
    rw [List.getElem?_map, List.getElem?_map, hk, hj, Option.map_some, Option.map_some, hid]

/-- The level at which the instance on the seat of an id is finished, 0 if there is none. -/
def Scope.levelOf (s : Scope) (id : String) : Nat := ((seat? s.instances id).map s.finish).getD 0

section Leveled

variable {s : Scope} {level : String → Nat}

theorem Scope.levelOf_eq (hnodup : (s.instances.map Instance.id).Nodup) {k : Nat} {i : Instance}
    (hk : s.instances[k]? = some i) : s.levelOf i.id = s.finish k := by
  unfold levelOf
  rw [seat?_of_nodup hnodup hk]
  rfl

theorem Scope.levelOf_le_latest (s : Scope) (id : String) : s.levelOf id ≤ s.latest := by
  unfold levelOf
  cases hseat : seat? s.instances id with
  | none => exact Nat.zero_le _
  | some k =>
    obtain ⟨i, hk, -⟩ := seat?_spec hseat
    exact Scope.finish_le_latest (List.getElem?_eq_some_iff.1 hk).1

/-- An instance is finished no earlier than after its own depth. -/
theorem Scope.Acyclic.depth_le_levelOf (h : s.Acyclic)
    (hnodup : (s.instances.map Instance.id).Nodup) {i : Instance} (hi : i ∈ s.instances) :
    i.depth ≤ s.levelOf i.id := by
  obtain ⟨k, hk⟩ := List.mem_iff_getElem?.1 hi
  rw [Scope.levelOf_eq hnodup hk, h.finish_eq hk]
  exact Nat.le_add_right _ _

/-- **The levels of an acyclic scope** put every chip above those that feed it. -/
theorem Scope.Acyclic.leveled (h : s.Acyclic) (hnodup : (s.instances.map Instance.id).Nodup) :
    s.Leveled s.levelOf := by
  intro wire hwire source hsource hstored target htarget hid
  obtain ⟨k, hk⟩ := List.mem_iff_getElem?.1 htarget
  rw [findInstance?_eq_seat, Option.bind_eq_some_iff] at hsource
  obtain ⟨j, hseat, hj⟩ := hsource
  have hfeeds : s.Feeds j k := ⟨source, target, wire, hj, hk, hwire, hseat, hid, hstored⟩
  have hlevel : s.levelOf wire.source = s.finish j := by
    unfold levelOf
    rw [hseat]
    rfl
  rw [hlevel, Scope.levelOf_eq hnodup hk]
  exact h.finish_add_depth_le hk hfeeds

theorem Scope.Leveled.of_feeds (h : s.Leveled level) {j k : Nat} (hfeeds : s.Feeds j k) :
    ∃ source target, s.instances[j]? = some source ∧ s.instances[k]? = some target ∧
      level source.id + target.depth ≤ level target.id := by
  obtain ⟨source, target, wire, hj, hk, hwire, hseat, hid, hstored⟩ := hfeeds
  have hsource : findInstance? s.instances wire.source = some source := by
    rw [findInstance?_eq_seat, hseat]
    exact hj
  have hstep := h wire hwire source hsource hstored target (List.mem_of_getElem? hk) hid
  rw [← (mem_of_findInstance? hsource).2] at hstep
  exact ⟨source, target, hj, hk, hstep⟩

/-- **A leveled scope is acyclic.** -/
theorem Scope.Leveled.acyclic (h : s.Leveled level) : s.Acyclic := by
  rw [acyclic_iff_wellFounded]
  refine Subrelation.wf (fun {j k} hfeeds => ?_) (InvImage.wf
    (fun k : Nat => ((s.instances[k]?).map fun i => level i.id).getD 0) wellFounded_lt)
  obtain ⟨source, target, hj, hk, hstep⟩ := h.of_feeds hfeeds
  have hdepth := one_le_depth target
  unfold InvImage
  simp only [hj, hk, Option.map_some, Option.getD_some]
  omega

end Leveled

/-! ## The inlined circuit -/

theorem depth_renamed (naming : String → String) (i : Instance) :
    (i.renamed naming).depth = i.depth := by
  obtain ⟨part, expanded, s, body⟩ := i
  change Instance.depth ⟨part.renamed naming, expanded, s, body⟩ = _
  cases body with
  | composite parts wires => rw [depth_composite, depth_composite]
  | unknown | primitive => rw [depth_leaf rfl, depth_leaf rfl]

namespace Inlining

variable {x : Inlining catalog} {scope parts : List Instance} {s : Signals}

/-- An instance of the inlined circuit is a chip that was there, or a renamed part. -/
theorem Opens.mem_inlineAll (h : x.Opens scope s parts) {i : Instance}
    (hi : i ∈ inlineAll x.naming x.site.id scope) :
    (i ∈ scope ∧ i.id ≠ x.site.id ∧ ∀ k, i.id ≠ x.naming k) ∨
      ∃ k ∈ parts, i = k.renamed x.naming := by
  unfold inlineAll at hi
  rw [h.partsOf_eq, List.mem_append] at hi
  rcases hi with hi | hi
  · obtain ⟨hmem, hne⟩ := List.mem_filter.1 hi
    refine Or.inl ⟨hmem, by simpa using hne, fun k hid => h.fresh k ?_⟩
    exact hid ▸ List.mem_map_of_mem hmem
  · obtain ⟨k, hk, rfl⟩ := List.mem_map.1 hi
    exact Or.inr ⟨k, hk, rfl⟩

/-- The levels of the inlined circuit: the chips keep theirs, and the levels of the parts are
counted from where the composite began. -/
noncomputable def levelAfter (x : Inlining catalog) (around inside : Scope) : String → Nat :=
  Function.extend x.naming
    (fun id => around.levelOf x.site.id - max 1 inside.latest + inside.levelOf id) around.levelOf

theorem levelAfter_naming (around inside : Scope) (id : String) :
    x.levelAfter around inside (x.naming id) =
      around.levelOf x.site.id - max 1 inside.latest + inside.levelOf id :=
  x.naming_injective.extend_apply _ _ id

theorem levelAfter_other (around inside : Scope) {id : String} (h : ∀ k, id ≠ x.naming k) :
    x.levelAfter around inside id = around.levelOf id :=
  Function.extend_apply' _ _ _ fun ⟨k, hk⟩ => h k hk.symm

/-- A circuit of the shape of the netlist without cycles, opened at the composite. -/
structure Layered (x : Inlining catalog) (scope : List Instance) (s : Signals)
    (parts : List Instance) : Prop extends x.Opens scope s parts where
  acyclic : Scope.AcyclicInside ⟨scope, x.wires, ∅⟩

section Layered

/-- What is known of the composite itself. -/
theorem Layered.site (h : x.Layered scope s parts) :
    ∃ c, findInstance? scope x.site.id = some c ∧ c.isStored = false ∧
      c.depth = max 1 (Scope.latest ⟨parts, x.blueprint.wires, s.inputs⟩) ∧
      c.depth ≤ Scope.levelOf ⟨scope, x.wires, ∅⟩ x.site.id ∧
      Scope.AcyclicInside ⟨parts, x.blueprint.wires, s.inputs⟩ := by
  obtain ⟨expanded, hfound⟩ := h.found
  obtain ⟨hmem, hid⟩ := mem_of_findInstance? hfound
  have hown := (h.acyclic _ (.refl _)).depth_le_levelOf h.nodup hmem
  rw [hid] at hown
  exact ⟨_, hfound, rfl, depth_composite .., hown, h.acyclic.inside hmem⟩

theorem Layered.leveledAround (h : x.Layered scope s parts) :
    Scope.Leveled ⟨scope, x.wires, ∅⟩ (Scope.levelOf ⟨scope, x.wires, ∅⟩) :=
  (h.acyclic _ (.refl _)).leveled h.nodup

/-- What feeds the composite is finished where the composite begins. -/
theorem Layered.levelOf_into (h : x.Layered scope s parts) {into : Wire} (hinto : into ∈ x.wires)
    (hsite : into.target = x.site.id) {source : Instance}
    (hsource : findInstance? scope into.source = some source) (hstored : source.isStored = false) :
    Scope.levelOf ⟨scope, x.wires, ∅⟩ into.source ≤
      Scope.levelOf ⟨scope, x.wires, ∅⟩ x.site.id -
        max 1 (Scope.latest ⟨parts, x.blueprint.wires, s.inputs⟩) := by
  obtain ⟨c, hfound, -, hdepth, -⟩ := h.site
  obtain ⟨hmem, hid⟩ := mem_of_findInstance? hfound
  have hstep := h.leveledAround into hinto source hsource hstored c hmem (hsite.trans hid.symm)
  rw [hid] at hstep
  omega

/-- The composite does not feed itself. -/
theorem Layered.apart (h : x.Layered scope s parts) :
    ∀ wire ∈ x.wires, wire.target = x.site.id → wire.source ≠ x.site.id := by
  intro wire hwire htarget hsource
  obtain ⟨c, hfound, hstored, hdepth, hown, -⟩ := h.site
  have hinto := h.levelOf_into hwire htarget (hsource ▸ hfound) hstored
  have hpositive := one_le_depth c
  rw [hsource] at hinto
  omega

/-- No part is higher than the composite was. -/
theorem Layered.levelAfter_naming_le (h : x.Layered scope s parts) (id : String) :
    x.levelAfter ⟨scope, x.wires, ∅⟩ ⟨parts, x.blueprint.wires, s.inputs⟩ (x.naming id) ≤
      Scope.levelOf ⟨scope, x.wires, ∅⟩ x.site.id := by
  obtain ⟨c, -, -, hdepth, hown, -⟩ := h.site
  have hlast := Scope.levelOf_le_latest ⟨parts, x.blueprint.wires, s.inputs⟩ id
  rw [levelAfter_naming]
  omega

/-- A wire of the netlist leads upwards past the border. -/
theorem Layered.leveled_outer (h : x.Layered scope s parts) {wire : Wire} (hwire : wire ∈ x.wires)
    {source target : Instance}
    (hsource : findInstance? (inlineAll x.naming x.site.id scope) (x.outer wire).source =
      some source)
    (hstored : source.isStored = false) (htarget : target ∈ inlineAll x.naming x.site.id scope)
    (hid : wire.target = target.id) :
    x.levelAfter ⟨scope, x.wires, ∅⟩ ⟨parts, x.blueprint.wires, s.inputs⟩ (x.outer wire).source +
        target.depth ≤
      x.levelAfter ⟨scope, x.wires, ∅⟩ ⟨parts, x.blueprint.wires, s.inputs⟩ target.id := by
  have hlevels := h.leveledAround wire hwire
  have hnew : ∀ k, target.id ≠ x.naming k := fun k => hid ▸ (x.naming_unwired wire hwire k).2
  have hmem : target ∈ scope := by
    rcases h.mem_inlineAll htarget with ⟨hmem, -⟩ | ⟨k, -, rfl⟩
    · exact hmem
    · exact absurd rfl (hnew k.id)
  rw [levelAfter_other _ _ hnew]
  unfold outer at hsource ⊢
  by_cases hfrom : wire.source = x.site.id
  · rw [if_pos hfrom] at hsource ⊢
    obtain ⟨c, hfound, hstored', -⟩ := h.site
    have hstep := hlevels c (hfrom ▸ hfound) hstored' target hmem hid
    rw [hfrom] at hstep
    cases houtlet : x.blueprint.outlet? catalog wire.sourcePin with
    | none =>
      rw [houtlet] at hsource
      exact absurd (h.find_nowhere.symm.trans hsource) (by simp)
    | some tap => exact Nat.le_trans (Nat.add_le_add_right (h.levelAfter_naming_le tap.id) _) hstep
  · rw [if_neg hfrom] at hsource ⊢
    have hold : ∀ k, wire.source ≠ x.naming k := fun k => (x.naming_unwired wire hwire k).1
    rw [findInstance?_inlineAll hfrom hold] at hsource
    rw [levelAfter_other _ _ hold]
    exact hlevels source hsource hstored target hmem hid

/-- A wire inside the composite leads upwards past the border. -/
theorem Layered.leveled_inner (h : x.Layered scope s parts) {wire : Wire}
    (hwire : wire ∈ x.blueprint.wires) {source target : Instance}
    (hsource : findInstance? (inlineAll x.naming x.site.id scope) (x.inner wire).source =
      some source)
    (hstored : source.isStored = false) (htarget : target ∈ inlineAll x.naming x.site.id scope)
    (hid : x.naming wire.target = target.id) :
    x.levelAfter ⟨scope, x.wires, ∅⟩ ⟨parts, x.blueprint.wires, s.inputs⟩ (x.inner wire).source +
        target.depth ≤
      x.levelAfter ⟨scope, x.wires, ∅⟩ ⟨parts, x.blueprint.wires, s.inputs⟩ target.id := by
  obtain ⟨-, -, -, -, -, hinside⟩ := h.site
  have hacyclic := hinside _ (.refl _)
  obtain ⟨k, hk, rfl⟩ : ∃ k ∈ parts, target = k.renamed x.naming := by
    rcases h.mem_inlineAll htarget with ⟨-, -, hnew⟩ | hpart
    · exact absurd hid.symm (hnew wire.target)
    · exact hpart
  have hkid : wire.target = k.id := x.naming_injective hid
  rw [depth_renamed]
  change _ ≤ x.levelAfter _ _ (x.naming k.id)
  rw [levelAfter_naming]
  unfold inner at hsource ⊢
  by_cases hfrom : (x.blueprint.parts.any fun part => part.id == wire.source) = true
  · rw [if_pos hfrom] at hsource ⊢
    change findInstance? _ (x.naming wire.source) = _ at hsource
    change x.levelAfter _ _ (x.naming wire.source) + _ ≤ _
    rw [findInstance?_inlineAll_naming x.naming_injective (h.fresh wire.source), h.partsOf_eq,
      Option.map_eq_some_iff] at hsource
    obtain ⟨j, hj, rfl⟩ := hsource
    have hstep := hacyclic.leveled h.nodup_inside wire hwire j hj hstored k hk hkid
    rw [levelAfter_naming]
    omega
  · rw [if_neg hfrom] at hsource ⊢
    cases hinlet : x.inlet? wire.source with
    | none =>
      rw [hinlet] at hsource
      exact absurd (h.find_nowhere.symm.trans hsource) (by simp)
    | some tap =>
      -- the wire into the composite led up to where the composite begins
      rw [hinlet] at hsource
      obtain ⟨into, hlast, rfl⟩ := Option.map_eq_some_iff.1 hinlet
      obtain ⟨hinto, hsite⟩ := mem_of_lastWire? hlast
      have hold : ∀ k, into.source ≠ x.naming k := fun k => (x.naming_unwired into hinto k).1
      change findInstance? _ into.source = _ at hsource
      change x.levelAfter _ _ into.source + _ ≤ _
      rw [findInstance?_inlineAll (h.apart into hinto hsite) hold] at hsource
      rw [levelAfter_other _ _ hold]
      have hbegins := h.levelOf_into hinto hsite hsource hstored
      have hpart := hacyclic.depth_le_levelOf h.nodup_inside hk
      exact Nat.add_le_add hbegins hpart

/-- **The levels of the inlined circuit** put every chip above those that feed it. -/
theorem Layered.leveled (h : x.Layered scope s parts) :
    Scope.Leveled ⟨inlineAll x.naming x.site.id scope, x.inlinedWires, ∅⟩
      (x.levelAfter ⟨scope, x.wires, ∅⟩ ⟨parts, x.blueprint.wires, s.inputs⟩) := by
  intro wire hwire source hsource hstored target htarget hid
  change wire ∈ x.inlinedWires at hwire
  unfold inlinedWires at hwire
  rcases List.mem_append.1 hwire with hwire | hwire
  · obtain ⟨old, hold, rfl⟩ := List.mem_map.1 hwire
    rw [outer_target] at hid
    exact h.leveled_outer (List.mem_filter.1 hold).1 hsource hstored htarget hid
  · obtain ⟨old, hold, rfl⟩ := List.mem_map.1 hwire
    exact h.leveled_inner hold hsource hstored htarget hid

/-- **No instance of the inlined circuit feeds itself**, at any depth. -/
theorem Layered.acyclicInside (h : x.Layered scope s parts) :
    Scope.AcyclicInside ⟨inlineAll x.naming x.site.id scope, x.inlinedWires, ∅⟩ := by
  intro t ht
  cases ht with
  | refl => exact h.leveled.acyclic
  | inside hi ht =>
    obtain ⟨-, -, -, -, -, hinside⟩ := h.site
    rcases h.mem_inlineAll hi with ⟨hmem, -⟩ | ⟨k, hk, heq⟩
    · exact h.acyclic _ (.inside hmem ht)
    · obtain ⟨part, expanded, signals, body⟩ := k
      cases heq
      exact hinside _ (.inside hk ht)

end Layered

end Inlining

end Breadboard
