import Breadboard.Chip.Standard
import Breadboard.Proofs.Cycles
import Breadboard.Proofs.Scope

/-!
# New chips mirror their blueprints

`i.Encloses above j` leads from an instance to one inside it, at any depth; `above` are the types of
the chips around that one, from the outside in. `Instance.Mirrors` is what the body of an instance
has to be, by its type and the types around it.

A new chip is built with less and less of the catalog, and what is missing at an instance is just
what is around it (`Catalog.Below`). So `above` lists distinct composites of the catalog, which
bounds its length whatever the cycles of the catalog.

* `Instance.AnewBelow.of_encloses`: every instance in a new chip is new, and built below its path;
* `Instance.AnewBelow.mirrors`: such an instance mirrors its blueprint;
* `noCycle_of_not_reports`: a catalog whose check reports no cycle has none;
* **`fresh_mirrors_blueprint`**: a new chip mirrors its blueprint at every depth, is nested no
  deeper than there are composites, and knows every type inside it that the catalog has, if the
  check reports no cycle.
-/

namespace Breadboard

variable {catalog : Catalog}

/-! ## Blueprints -/

/-- `j` is `i`, or stands inside it at some depth, in chips of the types `above`. -/
inductive Instance.Encloses : Instance → List String → Instance → Prop
  | refl (i : Instance) : Encloses i [] i
  | inside {i j k : Instance} {above : List String} (hj : j ∈ i.parts) (hk : Encloses j above k) :
    Encloses i (i.chip :: above) k

/-- The body of the instance is what the catalog says of its type, for an instance inside chips of
the types `above`. -/
def Instance.Mirrors (catalog : Catalog) (above : List String) (i : Instance) : Prop :=
  if i.chip = inputType then i.body = .primitive .input
  else
    match catalog.get? i.chip with
    | none => i.body = .unknown
    | some (.primitive d) => i.body = .primitive d.kind
    | some (.composite d) =>
      if i.chip ∈ above then i.body = .unknown
      else ∃ parts, i.body = .composite parts d.wires ∧ parts.map Instance.part = d.parts

/-- A composite that mirrors its blueprint has each part of it. -/
theorem Instance.Mirrors.exists_part {above : List String} {i : Instance}
    (h : i.Mirrors catalog above) (hi : i.chip ≠ inputType) {d : Composite}
    (hget : catalog.get? i.chip = some (.composite d)) (hout : i.chip ∉ above) {part : Part}
    (hpart : part ∈ d.parts) : ∃ j ∈ i.parts, j.part = part := by
  unfold Instance.Mirrors at h
  simp only [if_neg hi, hget, if_neg hout] at h
  obtain ⟨parts, hbody, hparts⟩ := h
  rw [← hparts] at hpart
  unfold Instance.parts
  rw [hbody]
  exact List.mem_map.1 hpart

/-- What has parts is a composite with the wires and the parts of its blueprint. -/
theorem Instance.Mirrors.composite {above : List String} {i : Instance}
    {parts : List Instance} {inner : List Wire} (h : i.Mirrors catalog above)
    (hbody : i.body = .composite parts inner) :
    ∃ d, catalog.get? i.chip = some (.composite d) ∧ inner = d.wires ∧
      parts.map Instance.part = d.parts := by
  unfold Instance.Mirrors at h
  rw [hbody] at h
  split at h
  · cases h
  · split at h
    · cases h
    · cases h
    · rename_i d hget
      split at h
      · cases h
      · obtain ⟨parts, hparts, hown⟩ := h
        cases hparts
        exact ⟨d, hget, rfl, hown⟩

/-- The names of the composites. -/
def Catalog.composites (c : Catalog) : List String :=
  c.names.filter fun chip => (c.composite? chip).isSome

theorem Catalog.mem_composites {chip : String} :
    chip ∈ catalog.composites ↔ ∃ d, catalog.get? chip = some (.composite d) := by
  unfold Catalog.composites Catalog.composite?
  rw [List.mem_filter, Option.isSome_iff_exists]
  constructor
  · rintro ⟨-, d, hd⟩
    obtain ⟨t, hget, ht⟩ := Option.bind_eq_some_iff.1 hd
    cases t with
    | primitive => exact absurd ht (by simp [ChipType.composite?])
    | composite d => exact ⟨d, hget⟩
  · rintro ⟨d, hget⟩
    exact ⟨Catalog.mem_names hget, d, by rw [hget]; rfl⟩

/-! ## Building below other chips -/

/-- `c` is `catalog` without the types `path`, distinct composites of it. -/
structure Catalog.Below (catalog c : Catalog) (path : List String) : Prop where
  taken : ∀ q ∈ path, c.get? q = none
  left : ∀ q, q ∉ path → c.get? q = catalog.get? q
  composites : path ⊆ catalog.composites
  nodup : path.Nodup

theorem Catalog.Below.nil (catalog : Catalog) : catalog.Below catalog [] where
  taken := by simp
  left := fun _ _ => rfl
  composites := by simp
  nodup := List.nodup_nil

/-- What is still in the catalog is not on the path. -/
theorem Catalog.Below.get?_eq {c : Catalog} {path : List String} (h : catalog.Below c path)
    {chip : String} {t : ChipType} (hget : c.get? chip = some t) :
    chip ∉ path ∧ catalog.get? chip = some t := by
  have hout : chip ∉ path := fun hin => absurd (h.taken chip hin) (by simp [hget])
  exact ⟨hout, (h.left chip hout).symm.trans hget⟩

/-- **One chip further in**, one type less. -/
theorem Catalog.Below.erase {c : Catalog} {path : List String} (h : catalog.Below c path)
    {chip : String} {d : Composite} (hget : c.get? chip = some (.composite d)) :
    catalog.Below (c.erase chip) (path ++ [chip]) := by
  obtain ⟨hout, hown⟩ := h.get?_eq hget
  constructor
  · intro q hq
    rw [Catalog.get?_erase]
    split
    · rfl
    · rename_i hne
      exact h.taken q (by simpa [hne] using hq)
  · intro q hq
    rw [List.mem_append, List.mem_singleton, not_or] at hq
    rw [Catalog.get?_erase, if_neg hq.2, h.left q hq.1]
  · exact List.append_subset.2 ⟨h.composites, by simpa using Catalog.mem_composites.2 ⟨d, hown⟩⟩
  · exact List.nodup_append.2 ⟨h.nodup, List.nodup_singleton _, by
      rintro a ha b hb rfl
      exact hout (List.mem_singleton.1 hb ▸ ha)⟩

/-- There is no path longer than there are composites. -/
theorem Catalog.Below.length_le {c : Catalog} {path : List String} (h : catalog.Below c path) :
    path.length ≤ catalog.composites.length :=
  (h.nodup.subperm h.composites).length_le

/-- Only a composite has parts, and they are built without it. -/
theorem mem_parts_of_bodyOf {c : Catalog} {i j : Instance} (hbody : i.body = bodyOf c i.chip)
    (hj : j ∈ i.parts) : i.chip ≠ inputType ∧ ∃ d, c.get? i.chip = some (.composite d) ∧
      ∃ part ∈ d.parts, j = { part, body := bodyOf (c.erase i.chip) part.chip } := by
  unfold Instance.parts at hj
  rw [hbody] at hj
  by_cases hi : i.chip = inputType
  · rw [hi, bodyOf_input] at hj
    exact absurd hj List.not_mem_nil
  refine ⟨hi, ?_⟩
  cases hget : c.get? i.chip with
  | none =>
    rw [bodyOf_unknown hi hget] at hj
    exact absurd hj List.not_mem_nil
  | some t =>
    cases t with
    | primitive d =>
      rw [bodyOf_primitive hi hget] at hj
      exact absurd hj List.not_mem_nil
    | composite d =>
      rw [bodyOf_composite hi hget] at hj
      obtain ⟨part, hpart, rfl⟩ := List.mem_map.1 hj
      exact ⟨d, rfl, part, hpart, rfl⟩

/-- The instance was just built, in chips of the types `path`. -/
structure Instance.AnewBelow (catalog : Catalog) (path : List String) (i : Instance) : Prop where
  signals : i.signals = {}
  expanded : i.expanded = false
  body : ∃ c, catalog.Below c path ∧ i.body = bodyOf c i.chip

namespace Instance.AnewBelow

variable {path above : List String} {i j : Instance}

theorem fresh (catalog : Catalog) (part : Part) :
    (Instance.fresh catalog part).AnewBelow catalog [] :=
  ⟨rfl, rfl, catalog, .nil catalog, rfl⟩

/-- **The parts of a new chip are new**, and built below it. -/
theorem of_mem_parts (h : i.AnewBelow catalog path) (hj : j ∈ i.parts) :
    j.AnewBelow catalog (path ++ [i.chip]) := by
  obtain ⟨-, -, c, hbelow, hbody⟩ := h
  obtain ⟨-, d, hget, part, -, rfl⟩ := mem_parts_of_bodyOf hbody hj
  exact ⟨rfl, rfl, _, hbelow.erase hget, rfl⟩

/-- **Every instance in a new chip is new**, and built below the chips around it. -/
theorem of_encloses (h : i.AnewBelow catalog path) (henc : i.Encloses above j) :
    j.AnewBelow catalog (path ++ above) := by
  induction henc generalizing path with
  | refl => simpa using h
  | inside hj _ ih => simpa using ih (h.of_mem_parts hj)

theorem mirrors (h : i.AnewBelow catalog path) : i.Mirrors catalog path := by
  obtain ⟨-, -, c, hbelow, hbody⟩ := h
  unfold Instance.Mirrors
  rw [hbody]
  split
  · rename_i hi
    rw [hi, bodyOf_input]
  rename_i hi
  cases hget : c.get? i.chip with
  | none =>
    rw [bodyOf_unknown hi hget]
    -- either the catalog has no such type, or the type is around the instance
    by_cases hin : i.chip ∈ path
    · obtain ⟨d, hown⟩ := Catalog.mem_composites.1 (hbelow.composites hin)
      simp [hown, hin]
    · simp [(hbelow.left _ hin).symm.trans hget]
  | some t =>
    obtain ⟨hout, hown⟩ := hbelow.get?_eq hget
    cases t with
    | primitive d => simp [bodyOf_primitive hi hget, hown]
    | composite d =>
      simp only [bodyOf_composite hi hget, hown, if_neg hout]
      exact ⟨_, rfl, by simp [Function.comp_def]⟩

theorem length_le (h : i.AnewBelow catalog path) : path.length ≤ catalog.composites.length := by
  obtain ⟨-, -, c, hbelow, -⟩ := h
  exact hbelow.length_le

end Instance.AnewBelow

/-- What is new is new at every depth. -/
theorem exists_anewBelow_of_holds {s t : Scope} (h : s.Holds t) :
    (∀ i ∈ s.instances, ∃ path, i.AnewBelow catalog path) →
      ∀ i ∈ t.instances, ∃ path, i.AnewBelow catalog path := by
  induction h with
  | refl => exact fun hs => hs
  | inside hi _ ih =>
    intro hs
    obtain ⟨path, hanew⟩ := hs _ hi
    exact ih fun j hj => ⟨_, hanew.of_mem_parts hj⟩

/-! ## Catalogs without cycles -/

/-- **A catalog whose check reports no cycle has none.** -/
theorem noCycle_of_not_reports (h : ∀ chain, ¬catalog.Reports chain) : catalog.NoCycle := by
  intro chip hself
  obtain ⟨done, hsearched⟩ := searched_cycles catalog
  have hdone : chip ∈ done := by
    obtain ⟨b, ⟨d, part, hget, -, -⟩, -⟩ := Relation.TransGen.head'_iff.1 hself
    rcases hsearched.reached chip (Catalog.mem_names hget) with hmem | ⟨_, hnone, -⟩
    · exact hmem
    · exact absurd hnone (by simp)
  have hexplained := hsearched.explained catalog.cycles (List.Subset.refl _) trivial
  obtain ⟨chain, hchain, -⟩ := hexplained.exists_of_mem
    (S := catalog.Entwined chip) (fun _ h => h.step) hdone ⟨hself, hself⟩
  exact h chain (reports_iff.2 hchain)

/-- **Without cycles, everything inside a new chip is a new chip itself**, built from the whole
catalog. -/
theorem Instance.Encloses.fresh (h : catalog.NoCycle) {part : Part} {above : List String}
    {i : Instance} (henc : (Instance.fresh catalog part).Encloses above i) :
    ∃ part', i = Instance.fresh catalog part' := by
  generalize hwhole : Instance.fresh catalog part = whole at henc
  induction henc generalizing part with
  | refl => exact ⟨part, hwhole.symm⟩
  | @inside _ j _ _ hj _ ih =>
    subst hwhole
    obtain ⟨hi, d, hget, -⟩ := mem_parts_of_bodyOf (c := catalog) rfl hj
    have hbody : (Instance.fresh catalog part).body =
        .composite (d.parts.map (Instance.fresh catalog)) d.wires := bodyOf_eq_fresh h hi hget
    unfold Instance.parts at hj
    rw [hbody] at hj
    obtain ⟨part', -, rfl⟩ := List.mem_map.1 hj
    exact ih rfl

/-- A new chip is unknown only if the catalog does not have its type. -/
theorem body_fresh_eq_unknown_iff {i : Instance} (hbody : i.body = bodyOf catalog i.chip) :
    i.body = .unknown ↔ i.chip ≠ inputType ∧ catalog.get? i.chip = none := by
  rw [hbody]
  by_cases hi : i.chip = inputType
  · simp [hi, bodyOf_input]
  cases hget : catalog.get? i.chip with
  | none => simp [bodyOf_unknown hi hget, hi]
  | some t =>
    cases t with
    | primitive d => simp [bodyOf_primitive hi hget]
    | composite d => simp [bodyOf_composite hi hget]

/-! ## The blueprint -/

/-- **A new chip mirrors its blueprint**, on every catalog, with cycles or without. It is the part
it was built for, its type in upper case. Every instance in it, at any depth, has only low signals
and a body as its blueprint has it, and no level lies deeper than the number of composites and one.
If the check of the catalog reports no cycle, only an instance whose type the catalog does not have
is unknown. -/
theorem fresh_mirrors_blueprint (catalog : Catalog) (part : Part) :
    (Instance.fresh catalog part).part = part.fold ∧
      (∀ above i, (Instance.fresh catalog part).Encloses above i →
        i.signals = {} ∧ i.expanded = false ∧ i.Mirrors catalog above ∧
          above.length + 1 ≤ catalog.composites.length + 1) ∧
      ((∀ chain, ¬catalog.Reports chain) →
        ∀ above i, (Instance.fresh catalog part).Encloses above i →
          (i.body = .unknown ↔ i.chip ≠ inputType ∧ catalog.get? i.chip = none)) := by
  refine ⟨rfl, fun above i henc => ?_, fun hreports above i henc => ?_⟩
  · have hanew : i.AnewBelow catalog above :=
      (Instance.AnewBelow.fresh catalog part).of_encloses henc
    exact ⟨hanew.signals, hanew.expanded, hanew.mirrors, Nat.succ_le_succ hanew.length_le⟩
  · obtain ⟨part', rfl⟩ := henc.fresh (noCycle_of_not_reports hreports)
    exact body_fresh_eq_unknown_iff rfl

/-- In a catalog with cycles, `A` has parts where it stands in `TOP`, and is unknown where it stands
in itself there. The standard catalog has no cycles. -/
theorem fresh_mirrors_blueprint_tangled :
    (∃ i, (Instance.fresh tangled ⟨"t", "top", none⟩).Encloses ["TOP", "A"] i ∧
      i.chip = "A" ∧ i.body = .unknown) ∧
    (∀ chain, ¬Standard.catalog.Reports chain) ∧
    ∀ above i, (Instance.fresh Standard.catalog ⟨"r", "register_4_bit", none⟩).Encloses above i →
      (i.body = .unknown ↔ i.chip ≠ inputType ∧ Standard.catalog.get? i.chip = none) := by
  refine ⟨?_, ?_⟩
  · obtain ⟨hpart, hall, -⟩ := fresh_mirrors_blueprint tangled ⟨"t", "top", none⟩
    have hmirrors := fun above i henc => (hall above i henc).2.2.1
    have htop : tangled.get? "TOP" = some (ofParts ["C", "A"]) := by decide +kernel
    have hself : tangled.get? "A" = some (ofParts ["B", "A"]) := by decide +kernel
    have hchip : (Instance.fresh tangled ⟨"t", "top", none⟩).chip = "TOP" :=
      (congrArg Part.chip hpart).trans (by decide)
    obtain ⟨a, ha, hapart⟩ := (hmirrors _ _ (.refl _)).exists_part (hchip ▸ by decide)
      (hchip ▸ htop) (by simp) (show ⟨"A", "A", none⟩ ∈ _ by decide)
    have hachip : a.chip = "A" := congrArg Part.chip hapart
    have haget : tangled.get? a.chip = some (ofParts ["B", "A"]) := by rw [hachip, hself]
    have hain := hchip ▸ Instance.Encloses.inside ha (.refl a)
    obtain ⟨i, hi, hipart⟩ := (hmirrors _ _ hain).exists_part (hachip ▸ by decide) haget
      (hachip ▸ by decide) (show ⟨"A", "A", none⟩ ∈ _ by decide)
    have hichip : i.chip = "A" := congrArg Part.chip hipart
    have hiin : (Instance.fresh tangled ⟨"t", "top", none⟩).Encloses ["TOP", "A"] i :=
      hchip ▸ hachip ▸ .inside ha (.inside hi (.refl i))
    have hunknown : i.body = .unknown := by
      have hown := hmirrors _ _ hiin
      unfold Instance.Mirrors at hown
      simpa [hichip, hself, ofParts, inputType] using hown
    exact ⟨i, hiin, hichip, hunknown⟩
  · have hnone : Standard.catalog.cycles = [] := by decide +kernel
    have hreports : ∀ chain, ¬Standard.catalog.Reports chain := by
      intro chain h
      rw [reports_iff, hnone] at h
      exact absurd h List.not_mem_nil
    exact ⟨hreports, (fresh_mirrors_blueprint Standard.catalog _).2.2 hreports⟩

end Breadboard
