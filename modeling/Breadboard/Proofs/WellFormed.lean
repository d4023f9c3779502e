import Breadboard.Proofs.Blueprint

/-!
# Well-formed catalogs

What the check of a catalog looks for is stated here without the check: `Composite.WellFormed` is
what a composite has to be by itself, and containment is the relation that cycles are made of.

* `partIssues_eq_nil_iff`, `wireIssues_eq_nil_iff`, `pinMapIssues_eq_nil_iff`: each part of the
  check is silent exactly on what it is about;
* `exists_error_partIssues_iff`, `not_error_of_mem_wireIssues`, `exists_error_pinMapIssues_iff`:
  which of them find errors;
* `cycles_eq_nil_iff`: the search for cycles is silent exactly if there is none;
* **`check_accepts_wellFormed`**: the check reports nothing exactly on the well-formed catalogs, and
  an error exactly for repeated ids, ties to parts that are not there, and cycles.
-/

namespace Breadboard

variable {catalog : Catalog} {chip : String} {d : Composite}

/-! ## Composites that hang together -/

/-- The ids of the parts. -/
def Composite.ids (d : Composite) : List String := d.parts.map Part.id

/-- The pin map ties one of the chip's pins to the part `id`, or takes the main output from it. -/
def PinMap.TiesTo (pinMap : PinMap) (id : String) : Prop :=
  (∃ pin targets, pinMap.inputs.get? pin = some targets ∧ ∃ target ∈ targets, target.id = id) ∨
    (∃ pin tap, pinMap.outputs.get? pin = some tap ∧ tap.id = id) ∨ pinMap.main = some id

/-- A composite hangs together: all it names is there. -/
structure Composite.WellFormed (catalog : Catalog) (d : Composite) : Prop where
  /-- No two parts have the same id. -/
  distinct : d.ids.Nodup
  /-- The catalog has the type of every part. -/
  known : ∀ part ∈ d.parts, ∃ t, catalog.get? part.chip = some t
  /-- A wire comes from a part or from an input pin. -/
  sources : ∀ wire ∈ d.wires, wire.source ∈ d.ids ∨ wire.source ∈ d.inputs
  /-- A wire leads to a part. -/
  targets : ∀ wire ∈ d.wires, wire.target ∈ d.ids
  /-- Pins are tied to parts. -/
  tied : ∀ id, d.pinMap.TiesTo id → id ∈ d.ids
  /-- The inputs that are tied are declared. -/
  declared : ∀ pin targets, d.pinMap.inputs.get? pin = some targets → pin ∈ d.inputs

/-! ## Parts -/

theorem Catalog.contains_iff : catalog.contains chip = true ↔ ∃ t, catalog.get? chip = some t :=
  Option.isSome_iff_exists

/-- The check of the parts is silent exactly if their ids are new and distinct, and their types
known. -/
theorem partIssues_eq_nil_iff {parts : List Part} : ∀ {seen : List String},
    catalog.partIssues chip seen parts = [] ↔
      (∀ part ∈ parts, part.id ∉ seen) ∧ (parts.map Part.id).Nodup ∧
        ∀ part ∈ parts, ∃ t, catalog.get? part.chip = some t := by
  induction parts with
  | nil => simp [Catalog.partIssues]
  | cons part rest ih =>
    intro seen
    have hown : (if seen.contains part.id then
        [(⟨.duplicateComponentIds chip part.id, .error⟩ : CatalogIssue)] else []) = [] ↔
        part.id ∉ seen := by
      by_cases h : part.id ∈ seen <;> simp [h]
    have htype : (if catalog.contains part.chip then []
        else [(⟨.unknownComponentType chip part.id part.chip, .warning⟩ : CatalogIssue)]) = [] ↔
        ∃ t, catalog.get? part.chip = some t := by
      rw [← Catalog.contains_iff]
      by_cases h : catalog.contains part.chip = true <;> simp [h]
    rw [Catalog.partIssues, List.append_eq_nil_iff, List.append_eq_nil_iff, ih, hown, htype]
    simp only [List.map_cons, List.nodup_cons, List.mem_map, List.mem_cons]
    grind

/-- The check of the parts finds an error exactly if an id is taken or repeated. -/
theorem exists_error_partIssues_iff {parts : List Part} : ∀ {seen : List String},
    (∃ issue ∈ catalog.partIssues chip seen parts, issue.severity = .error) ↔
      ¬((∀ part ∈ parts, part.id ∉ seen) ∧ (parts.map Part.id).Nodup) := by
  induction parts with
  | nil => simp [Catalog.partIssues]
  | cons part rest ih =>
    intro seen
    have hown : (∃ issue ∈ (if seen.contains part.id then
        [(⟨.duplicateComponentIds chip part.id, .error⟩ : CatalogIssue)] else []),
        issue.severity = .error) ↔ part.id ∈ seen := by
      by_cases h : part.id ∈ seen <;> simp [h]
    have htype : ¬∃ issue ∈ (if catalog.contains part.chip then []
        else [(⟨.unknownComponentType chip part.id part.chip, .warning⟩ : CatalogIssue)]),
        issue.severity = .error := by
      by_cases h : catalog.contains part.chip = true <;> simp [h]
    simp only [Catalog.partIssues, List.mem_append, or_and_right, exists_or]
    rw [hown, ih, or_iff_left htype]
    simp only [List.map_cons, List.nodup_cons, List.mem_map, List.mem_cons]
    grind

/-! ## Wires and the pin map -/

/-- The check of the wires is silent exactly if their ends are there. -/
theorem wireIssues_eq_nil_iff :
    Catalog.wireIssues chip d = [] ↔
      ∀ wire ∈ d.wires, (wire.source ∈ d.ids ∨ wire.source ∈ d.inputs) ∧ wire.target ∈ d.ids := by
  simp only [Catalog.wireIssues, List.flatMap_eq_nil_iff, List.append_eq_nil_iff]
  refine forall₂_congr fun wire _ => and_congr ?_ ?_
  · rw [ite_eq_left_iff, Bool.or_eq_true, List.contains_iff_mem, List.contains_iff_mem]
    simp [Composite.ids, or_iff_not_imp_left]
  · simp [Composite.ids]

/-- Loose wires are no errors. -/
theorem not_error_of_mem_wireIssues {issue : CatalogIssue}
    (h : issue ∈ Catalog.wireIssues chip d) : issue.severity ≠ .error := by
  simp only [Catalog.wireIssues, List.mem_flatMap, List.mem_append] at h
  obtain ⟨wire, -, h | h⟩ := h <;> split at h <;> simp at h <;> simp [h]

/-- The parts that the check of a pin map looks for are those that it ties pins to. -/
theorem exists_mem_mappedParts_iff {pinMap : PinMap} {id : String} :
    (∃ pin, (pin, id) ∈ Catalog.mappedParts pinMap) ↔ pinMap.TiesTo id := by
  simp only [Catalog.mappedParts, PinMap.TiesTo, List.mem_append, List.mem_flatMap, List.mem_map,
    NameMap.get?_eq_some_iff, Option.mem_toList]
  constructor
  · rintro ⟨pin, (⟨⟨pin', targets⟩, he, target, htarget, heq⟩ | ⟨⟨pin', tap⟩, he, heq⟩) |
      ⟨main, hmain, heq⟩⟩
    · cases heq
      exact .inl ⟨pin', targets, he, target, htarget, rfl⟩
    · cases heq
      exact .inr (.inl ⟨pin', tap, he, rfl⟩)
    · cases heq
      exact .inr (.inr hmain)
  · rintro (⟨pin, targets, he, target, htarget, rfl⟩ | ⟨pin, tap, he, rfl⟩ | hmain)
    · exact ⟨pin, .inl (.inl ⟨_, he, target, htarget, rfl⟩)⟩
    · exact ⟨pin, .inl (.inr ⟨_, he, rfl⟩)⟩
    · exact ⟨"output", .inr ⟨id, hmain, rfl⟩⟩

/-- The check of the pin map is silent exactly if pins are tied to parts, and declared if inputs. -/
theorem pinMapIssues_eq_nil_iff :
    Catalog.pinMapIssues chip d = [] ↔
      (∀ id, d.pinMap.TiesTo id → id ∈ d.ids) ∧
        ∀ pin targets, d.pinMap.inputs.get? pin = some targets → pin ∈ d.inputs := by
  simp only [Catalog.pinMapIssues, List.append_eq_nil_iff, List.flatMap_eq_nil_iff,
    ← exists_mem_mappedParts_iff, NameMap.get?_eq_some_iff]
  refine and_congr ?_ ?_
  · simp only [ite_eq_left_iff, List.contains_iff_mem, reduceCtorEq, imp_false, not_not,
      Prod.forall]
    constructor
    · rintro h id ⟨pin, hmem⟩
      exact h pin id hmem
    · exact fun h pin id hmem => h id ⟨pin, hmem⟩
  · simp [NameMap.keys]

/-- The check of the pin map finds an error exactly if a pin is tied to a part that is not there. -/
theorem exists_error_pinMapIssues_iff :
    (∃ issue ∈ Catalog.pinMapIssues chip d, issue.severity = .error) ↔
      ∃ id, d.pinMap.TiesTo id ∧ id ∉ d.ids := by
  simp only [Catalog.pinMapIssues, List.mem_append, List.mem_flatMap, ← exists_mem_mappedParts_iff]
  constructor
  · rintro ⟨issue, ⟨⟨pin, id⟩, hmem, h⟩ | ⟨pin, -, h⟩, hsevere⟩
    · split at h
      · exact absurd h List.not_mem_nil
      · rename_i hout
        exact ⟨id, ⟨pin, hmem⟩, by simpa [Composite.ids] using hout⟩
    · split at h
      · exact absurd h List.not_mem_nil
      · rw [List.mem_singleton.1 h] at hsevere
        exact absurd hsevere (by simp)
  · rintro ⟨id, ⟨pin, hmem⟩, hout⟩
    refine ⟨⟨.danglingMapping chip pin id, .error⟩, .inl ⟨(pin, id), hmem, ?_⟩, rfl⟩
    rw [if_neg (by simpa [Composite.ids] using hout)]
    exact List.mem_singleton_self _

/-! ## One composite -/

/-- **Looking at one composite by itself** finds nothing exactly if it is well-formed. -/
theorem compositeIssues_eq_nil_iff (chip : String) :
    catalog.compositeIssues chip d = [] ↔ d.WellFormed catalog := by
  rw [Catalog.compositeIssues, List.append_eq_nil_iff, List.append_eq_nil_iff,
    partIssues_eq_nil_iff, wireIssues_eq_nil_iff, pinMapIssues_eq_nil_iff]
  constructor
  · rintro ⟨⟨⟨-, hdistinct, hknown⟩, hwires⟩, htied, hdeclared⟩
    exact ⟨hdistinct, hknown, fun wire hw => (hwires wire hw).1, fun wire hw => (hwires wire hw).2,
      htied, hdeclared⟩
  · intro h
    exact ⟨⟨⟨by simp, h.distinct, h.known⟩, fun wire hw => ⟨h.sources wire hw, h.targets wire hw⟩⟩,
      h.tied, h.declared⟩

/-- It finds an error exactly for a repeated id or a tie to a part that is not there. -/
theorem exists_error_compositeIssues_iff (chip : String) :
    (∃ issue ∈ catalog.compositeIssues chip d, issue.severity = .error) ↔
      ¬d.ids.Nodup ∨ ∃ id, d.pinMap.TiesTo id ∧ id ∉ d.ids := by
  have hwires : ¬∃ issue ∈ Catalog.wireIssues chip d, issue.severity = .error :=
    fun ⟨_, hmem, hsevere⟩ => not_error_of_mem_wireIssues hmem hsevere
  simp only [Catalog.compositeIssues, List.mem_append, or_and_right, exists_or]
  rw [or_iff_left hwires, exists_error_partIssues_iff, exists_error_pinMapIssues_iff]
  simp [Composite.ids]

/-! ## The whole catalog -/

/-- **The search finds no cycle exactly if there is none.** -/
theorem cycles_eq_nil_iff : catalog.cycles = [] ↔ catalog.NoCycle := by
  constructor
  · intro h
    refine noCycle_of_not_reports fun chain hreports => ?_
    rw [reports_iff, h] at hreports
    exact absurd hreports List.not_mem_nil
  · intro h
    obtain ⟨done, hsearched⟩ := searched_cycles catalog
    rw [List.eq_nil_iff_forall_not_mem]
    intro chain hchain
    have hcycle := hsearched.sound chain hchain
    obtain ⟨chip, inside, rfl⟩ := hcycle.eq
    exact h chip (hcycle.contains List.mem_cons_self List.mem_cons_self)

/-- What is wrong with the composites by themselves, and a cycle for each that was found. -/
theorem mem_issues_iff {issue : CatalogIssue} :
    issue ∈ catalog.issues ↔
      (∃ chip d, catalog.get? chip = some (.composite d) ∧
          issue ∈ catalog.compositeIssues chip d) ∨
        ∃ chain ∈ catalog.cycles, issue = ⟨.cyclicDefinition chain, .error⟩ := by
  simp only [Catalog.issues, List.mem_append, List.mem_flatMap, List.mem_map, Catalog.get?,
    NameMap.get?_eq_some_iff]
  refine or_congr ⟨?_, ?_⟩ ⟨?_, ?_⟩
  · rintro ⟨⟨chip, d⟩, he, hmem⟩
    cases d with
    | primitive d => exact absurd hmem List.not_mem_nil
    | composite d => exact ⟨chip, d, he, hmem⟩
  · rintro ⟨chip, d, he, hmem⟩
    exact ⟨_, he, hmem⟩
  · rintro ⟨chain, hchain, rfl⟩
    exact ⟨chain, hchain, rfl⟩
  · rintro ⟨chain, hchain, rfl⟩
    exact ⟨chain, hchain, rfl⟩

/-- Only composites contain themselves. -/
theorem Catalog.exists_composite_of_transGen {inner : String}
    (h : Relation.TransGen catalog.Contains chip inner) :
    ∃ d, catalog.get? chip = some (.composite d) := by
  obtain ⟨_, ⟨d, _, hget, -⟩, -⟩ := Relation.TransGen.head'_iff.1 h
  exact ⟨d, hget⟩

/-- A cycle is reported exactly if a composite contains itself. -/
theorem exists_mem_cycles_iff :
    (∃ chain, chain ∈ catalog.cycles) ↔
      ∃ chip d, catalog.get? chip = some (.composite d) ∧
        Relation.TransGen catalog.Contains chip chip := by
  have hnone : (∃ chain, chain ∈ catalog.cycles) ↔ ¬catalog.NoCycle := by
    rw [← cycles_eq_nil_iff, List.eq_nil_iff_forall_not_mem, not_forall_not]
  rw [hnone, Catalog.NoCycle, not_forall_not]
  constructor
  · rintro ⟨chip, hself⟩
    obtain ⟨d, hget⟩ := Catalog.exists_composite_of_transGen hself
    exact ⟨chip, d, hget, hself⟩
  · rintro ⟨chip, -, -, hself⟩
    exact ⟨chip, hself⟩

/-- **The check accepts exactly the well-formed catalogs.** It reports nothing if and only if every
composite is well-formed and none contains itself, directly or through others. It reports an error,
and counts one, if and only if some composite has two parts of one id, ties a pin to a part that it
does not have, or contains itself. -/
theorem check_accepts_wellFormed (catalog : Catalog) :
    (catalog.check.isEmpty = true ↔
      ∀ chip d, catalog.get? chip = some (.composite d) →
        d.WellFormed catalog ∧ ¬Relation.TransGen catalog.Contains chip chip) ∧
    ((∃ issue ∈ catalog.check.issues, issue.severity = .error) ↔
      ∃ chip d, catalog.get? chip = some (.composite d) ∧
        (¬d.ids.Nodup ∨ (∃ id, d.pinMap.TiesTo id ∧ id ∉ d.ids) ∨
          Relation.TransGen catalog.Contains chip chip)) ∧
    (catalog.check.hasError = true ↔ ∃ issue ∈ catalog.check.issues, issue.severity = .error) := by
  have hissues : catalog.check.issues = catalog.issues := IssueSet.issues_ofList _
  rw [hissues, IssueSet.isEmpty, hissues, List.isEmpty_iff]
  refine ⟨?_, ?_, IssueSet.hasError_ofList_iff⟩
  · rw [List.eq_nil_iff_forall_not_mem]
    simp only [mem_issues_iff, not_or]
    constructor
    · intro h chip d hget
      refine ⟨(compositeIssues_eq_nil_iff chip).1
        (List.eq_nil_iff_forall_not_mem.2 fun issue hmem => ?_), fun hself => ?_⟩
      · exact (h issue).1 ⟨chip, d, hget, hmem⟩
      · obtain ⟨chain, hchain⟩ := exists_mem_cycles_iff.2 ⟨chip, d, hget, hself⟩
        exact (h _).2 ⟨chain, hchain, rfl⟩
    · refine fun h issue => ⟨?_, ?_⟩
      · rintro ⟨chip, d, hget, hmem⟩
        rw [(compositeIssues_eq_nil_iff chip).2 (h chip d hget).1] at hmem
        exact absurd hmem List.not_mem_nil
      · rintro ⟨chain, hchain, -⟩
        obtain ⟨chip, d, hget, hself⟩ := exists_mem_cycles_iff.1 ⟨chain, hchain⟩
        exact (h chip d hget).2 hself
  · simp only [mem_issues_iff]
    constructor
    · rintro ⟨issue, ⟨chip, d, hget, hmem⟩ | ⟨chain, hchain, -⟩, hsevere⟩
      · refine ⟨chip, d, hget, ?_⟩
        exact ((exists_error_compositeIssues_iff chip).1 ⟨issue, hmem, hsevere⟩).imp_right Or.inl
      · obtain ⟨chip, d, hget, hself⟩ := exists_mem_cycles_iff.1 ⟨chain, hchain⟩
        exact ⟨chip, d, hget, .inr (.inr hself)⟩
    · rintro ⟨chip, d, hget, h⟩
      rcases or_assoc.2 h with hown | hself
      · obtain ⟨issue, hmem, hsevere⟩ := (exists_error_compositeIssues_iff chip).2 hown
        exact ⟨issue, .inl ⟨chip, d, hget, hmem⟩, hsevere⟩
      · obtain ⟨chain, hchain⟩ := exists_mem_cycles_iff.2 ⟨chip, d, hget, hself⟩
        exact ⟨_, .inr ⟨chain, hchain, rfl⟩, rfl⟩

end Breadboard
