import Breadboard.Chip.Standard
import Breadboard.Proofs.Blueprint
import Breadboard.Proofs.Bookkeeping
import Breadboard.Proofs.Saved

/-!
# What is reported of a program

Laying out a program reports ids that are used again and types that are not known. The report is
made from the declarations as they are written, while the instances are built from their types in
upper case, and a catalog has names in upper case only.

* `issues_eq_reportsOf`: the reports, declaration by declaration;
* `isReported_iff`: a type is reported if its instance is unknown, and also whenever it is written
  with a letter from `a` to `z`;
* `lasting_lowIfUnknown`: an unknown instance has only low outputs;
* **`assembly_reports_exactly_iff`**: the reports are exact unless a known type is written with
  such a letter.
-/

namespace Breadboard

open Text (upper upper_upper)

variable {catalog : Catalog} {part : Part}

/-- Is nothing known of what it does? -/
def Instance.isUnknown (i : Instance) : Bool :=
  match i.body with
  | .unknown => true
  | _ => false

theorem isUnknown_iff {i : Instance} : i.isUnknown = true ↔ i.body = .unknown := by
  unfold Instance.isUnknown
  split <;> simp_all

/-- The reports on the instances of a program, in the order of their declarations: that an earlier
one has the id already, and that `unknown` holds of this one. -/
def Program.reportsOf (p : Program) (unknown : Part → Bool) : List CircuitIssue :=
  p.parts.zipIdx.flatMap fun (part, k) =>
    (if part.id ∈ (p.parts.take k).map Part.id then [.duplicateInstanceId part.id] else []) ++
      if unknown part then [.unknownChipType part.id part.chip] else []

/-! ## Which types are reported -/

/-- Is the type, as it is written, reported as unknown? -/
def Catalog.isReported (catalog : Catalog) (part : Part) : Bool :=
  part.chip != inputType && !catalog.contains part.chip

/-- The names of a catalog are in upper case. -/
theorem Catalog.upper_of_contains {chip : String} (h : catalog.contains chip = true) :
    upper chip = chip := by
  obtain ⟨d, hd⟩ := Option.isSome_iff_exists.1 h
  exact catalog.upper_name (chip, d) (NameMap.get?_eq_some_iff.1 hd)

theorem Catalog.isReported_iff :
    catalog.isReported part = true ↔
      part.chip ≠ inputType ∧ ¬catalog.contains part.chip = true := by
  simp [Catalog.isReported]

/-- An instance is unknown if its type is to be reported in upper case. -/
theorem isUnknown_fresh :
    (Instance.fresh catalog part).isUnknown = catalog.isReported part.fold := by
  have hbody : (Instance.fresh catalog part).body = .unknown ↔
      part.fold.chip ≠ inputType ∧ catalog.get? part.fold.chip = none :=
    body_fresh_eq_unknown_iff rfl
  rw [Bool.eq_iff_iff, isUnknown_iff, hbody, Catalog.isReported_iff]
  exact and_congr_right fun _ => Option.not_isSome_iff_eq_none.symm

/-- **Reported are the types of unknown instances, and those written with a letter from `a` to
`z`.** -/
theorem isReported_iff : catalog.isReported part = true ↔
    (Instance.fresh catalog part).isUnknown = true ∨ upper part.chip ≠ part.chip := by
  by_cases hupper : upper part.chip = part.chip
  · have hfold : part.fold = part := by rw [Part.fold, hupper]
    rw [isUnknown_fresh, hfold, or_iff_left (not_not_intro hupper)]
  · refine iff_of_true (Catalog.isReported_iff.2 ⟨fun h => hupper ?_, fun h => hupper ?_⟩)
      (Or.inr hupper)
    · rw [h]
      decide
    · exact Catalog.upper_of_contains h

/-! ## The reports, one by one -/

theorem issuesFrom_eq (catalog : Catalog) (rest : List Part) : ∀ before seen,
    (∀ id, id ∈ seen ↔ id ∈ before.map Part.id) →
      Netlist.issuesFrom catalog seen rest = (rest.zipIdx before.length).flatMap fun (part, k) =>
        (if part.id ∈ ((before ++ rest).take k).map Part.id then
          [.duplicateInstanceId part.id] else []) ++
        if catalog.isReported part then [.unknownChipType part.id part.chip] else [] := by
  induction rest with
  | nil => exact fun _ _ _ => rfl
  | cons part rest ih =>
    intro before seen hseen
    have hrest := ih (before ++ [part]) (part.id :: seen) fun id => by
      rw [List.mem_cons, hseen, List.map_append, List.mem_append, List.map_singleton,
        List.mem_singleton]
      exact or_comm
    rw [List.length_append, List.length_singleton, List.append_assoc, List.singleton_append]
      at hrest
    have hdup : part.id ∈ ((before ++ part :: rest).take before.length).map Part.id ↔
        seen.contains part.id = true := by
      rw [List.take_left, List.contains_iff_mem, hseen]
    rw [Netlist.issuesFrom, Netlist.partIssues, hrest, List.zipIdx_cons, List.flatMap_cons]
    simp only [hdup]
    rfl

/-- **What is reported**, declaration by declaration. -/
theorem issues_eq_reportsOf (catalog : Catalog) (program : Program) :
    Netlist.issues catalog program = program.reportsOf catalog.isReported :=
  issuesFrom_eq catalog program.parts [] [] fun _ => Iff.rfl

theorem unknownChipType_mem_reportsOf {p : Program} {unknown : Part → Bool} {id chip : String} :
    .unknownChipType id chip ∈ p.reportsOf unknown ↔
      ∃ part ∈ p.parts, part.id = id ∧ part.chip = chip ∧ unknown part = true := by
  constructor
  · intro h
    obtain ⟨⟨part, k⟩, hk, h⟩ := List.mem_flatMap.1 h
    have hpart := List.mem_of_getElem? (List.mem_zipIdx_iff_getElem?.1 hk)
    rcases List.mem_append.1 h with h | h
    · split at h
      · exact absurd (List.mem_singleton.1 h)
          (by simp [CircuitIssue.unknownChipType, CircuitIssue.duplicateInstanceId])
      · exact absurd h List.not_mem_nil
    · split at h
      · rename_i hunknown
        have heq := List.mem_singleton.1 h
        simp only [CircuitIssue.unknownChipType, CircuitIssue.mk.injEq,
          CircuitProblem.unknownChipType.injEq, and_true] at heq
        exact ⟨part, hpart, heq.1.symm, heq.2.symm, hunknown⟩
      · exact absurd h List.not_mem_nil
  · rintro ⟨part, hpart, rfl, rfl, hunknown⟩
    obtain ⟨k, hk⟩ := List.mem_iff_getElem?.1 hpart
    refine List.mem_flatMap.2 ⟨(part, k), List.mem_zipIdx_iff_getElem?.2 hk, ?_⟩
    exact List.mem_append_right _ (by simp [hunknown])

theorem reportsOf_congr {p : Program} {unknown unknown' : Part → Bool}
    (h : ∀ part ∈ p.parts, unknown part = unknown' part) :
    p.reportsOf unknown = p.reportsOf unknown' := by
  refine List.flatMap_congr ?_
  rintro ⟨part, k⟩ hk
  simp only [h part (List.mem_of_getElem? (List.mem_zipIdx_iff_getElem?.1 hk))]

/-- **The reports are exact** unless a known type is written with a letter from `a` to `z`. -/
theorem issues_exact_iff (catalog : Catalog) (program : Program) :
    Netlist.issues catalog program =
        program.reportsOf (fun part => (Instance.fresh catalog part).isUnknown) ↔
      ∀ part ∈ program.parts,
        (Instance.fresh catalog part).isUnknown = false → upper part.chip = part.chip := by
  rw [issues_eq_reportsOf]
  constructor
  · intro h part hpart hknown
    by_contra hlower
    have hmem : .unknownChipType part.id part.chip ∈ program.reportsOf catalog.isReported :=
      unknownChipType_mem_reportsOf.2 ⟨part, hpart, rfl, rfl, isReported_iff.2 (Or.inr hlower)⟩
    rw [h] at hmem
    obtain ⟨other, -, -, hchip, hunknown⟩ := unknownChipType_mem_reportsOf.1 hmem
    -- whether an instance is unknown is a matter of its type
    have hsame : catalog.isReported other.fold = catalog.isReported part.fold := by
      rw [Catalog.isReported, Catalog.isReported, Part.fold, Part.fold, hchip]
    rw [isUnknown_fresh, hsame, ← isUnknown_fresh, hknown] at hunknown
    exact absurd hunknown (by simp)
  · intro h
    refine reportsOf_congr fun part hpart => ?_
    rw [Bool.eq_iff_iff, isReported_iff, or_iff_left_of_imp]
    intro hlower
    by_contra hknown
    exact hlower (h part hpart (Bool.not_eq_true _ ▸ hknown))

/-! ## Unknown instances -/

/-- If nothing is known of it, all its outputs are low. -/
def Instance.LowIfUnknown (i : Instance) : Prop :=
  i.isUnknown = true → i.value = false ∧ ∀ pin, i.output pin = false

theorem lasting_lowIfUnknown (catalog : Catalog) : Lasting catalog Instance.LowIfUnknown where
  fresh := fun _ _ _ => ⟨rfl, fun _ => rfl⟩
  pass := fun i inputs _ hunknown => by
    obtain ⟨part, expanded, s, body⟩ := i
    cases body with
    | unknown =>
      rw [pass_unknown]
      refine ⟨rfl, fun pin => ?_⟩
      simp only [Instance.output, Signals.output, Signals.drive_outputs, get?_outOnly]
      split <;> rfl
    | primitive kind =>
      rw [pass_primitive] at hunknown
      exact absurd hunknown (by simp [Instance.isUnknown])
    | composite parts inner =>
      rw [pass_composite] at hunknown
      exact absurd hunknown (by simp [Instance.isUnknown])
  drive := fun i bit hinput _ hunknown => by
    have hbody := isUnknown_iff.1 hunknown
    exact absurd (hbody.symm.trans (body_of_isInput hinput)) (by simp)
  commit := commit_of (fun _ _ _ _ hunknown => absurd hunknown (by simp [Instance.isUnknown]))
    (fun _ _ _ _ _ _ _ hunknown => absurd hunknown (by simp [Instance.isUnknown]))
  draw := fun _ _ h => h

theorem isUnknown_blank (i : Instance) : i.blank.isUnknown = i.isUnknown := by
  obtain ⟨part, expanded, s, body⟩ := i
  cases body with
  | unknown => rw [blank_unknown]; rfl
  | primitive => rw [blank_primitive]; rfl
  | composite => rw [blank_composite]; rfl

/-- **What is unknown when it is laid out stays so, with low outputs**, until a circuit is built
anew. -/
theorem low_of_unknown (sim : Simulator) (program : Program) {later : List Command}
    (hlater : ∀ c ∈ later, c.rebuilds = false) {i : Instance}
    (hi : i ∈ ((sim.assembleProgram program).1.run later).instances)
    (hpart : i.part = part.fold) (hunknown : (Instance.fresh sim.catalog part).isUnknown = true) :
    i.value = false ∧ ∀ pin, i.output pin = false := by
  have hlaid : (Command.assembleProgram program).netlist? sim =
      some (.ofProgram sim.catalog program) := rfl
  have hlow : Throughout Instance.LowIfUnknown (sim.assembleProgram program).1.instances := by
    have hP := lasting_lowIfUnknown sim.catalog
    have hfresh := (throughout_fresh hP.fresh sim.catalog program.parts).perm (ofProgram_perm _ _)
    exact throughout_of_netlist? hP.pass hlaid hfresh
  have hbuilt : Built sim.catalog ((sim.assembleProgram program).1.run later).instances :=
    ((built_ofProgram sim.catalog program).of_blankAll (blankAll_of_netlist? hlaid)).of_blankAll
      (blankAll_run hlater).1
  have hown : i.isUnknown = true := by
    rw [← isUnknown_blank, hbuilt i hi, hpart, Instance.fresh_fold, isUnknown_blank]
    exact hunknown
  have hlasts := (lasting_lowIfUnknown _).run (fun c hc => restores_of_rebuilds (hlater c hc)) hlow
  exact (throughout_iff.1 hlasts i hi).1 hown

/-! ## All of it -/

/-- **The reports on a program are exact, but for types in lower case.** Laying out a program
records, declaration by declaration, that an earlier one has the id already and that the type is not
known, and then only whether the circuit settled. The type is said not to be known of an instance of
which nothing is known and of one whose type is written with a letter from `a` to `z`; so the
reports are exact if and only if no known type is written with such a letter. What is not reported
is known, and what is unknown has low outputs for as long as the circuit is there. -/
theorem assembly_reports_exactly_iff (sim : Simulator) (program : Program) :
    let built := Instance.fresh sim.catalog
    let recorded := Netlist.issues sim.catalog program
    let (after, report) := sim.assembleProgram program
    after.issues.issues =
      recorded ++ (if report.converged then [] else [.didNotConverge report.passes]) ∧
    recorded = program.reportsOf
      (fun part => (built part).isUnknown || upper part.chip != part.chip) ∧
    (recorded = program.reportsOf (fun part => (built part).isUnknown) ↔
      ∀ part ∈ program.parts, (built part).isUnknown = false →
        ∀ c ∈ part.chip.toList, c.isLower = false) ∧
    (∀ part ∈ program.parts, .unknownChipType part.id part.chip ∉ recorded →
      (built part).isUnknown = false) ∧
    ∀ later : List Command, (∀ c ∈ later, c.rebuilds = false) → ∀ part,
      (built part).isUnknown = true → ∀ i ∈ (after.run later).instances, i.part = part.fold →
        i.value = false ∧ ∀ pin, i.output pin = false := by
  refine ⟨?_, ?_, ?_, fun part hpart hsilent => ?_, fun later hlater part hunknown i hi hpart => ?_⟩
  · have hreport : (Command.assembleProgram program).report? sim =
        some (sim.assembleProgram program).2 := rfl
    exact (congrArg IssueSet.issues (books_of_report? hreport).issues).trans
      (IssueSet.issues_ofList _)
  · rw [issues_eq_reportsOf]
    refine reportsOf_congr fun part _ => ?_
    rw [Bool.eq_iff_iff, isReported_iff, Bool.or_eq_true, bne_iff_ne]
  · simp only [issues_exact_iff, Text.upper_eq_self_iff]
  · by_contra hunknown
    rw [issues_eq_reportsOf, unknownChipType_mem_reportsOf] at hsilent
    exact hsilent ⟨part, hpart, rfl, rfl,
      isReported_iff.2 (Or.inl (Bool.not_eq_false _ ▸ hunknown))⟩
  · exact low_of_unknown sim program hlater hi hpart hunknown

/-- A chip of a type that nobody knows, and an id that is used twice. -/
def strangers : Program :=
  ⟨[.part ⟨"f", "Moon", none⟩, .part ⟨"a", "INPUT", none⟩, .part ⟨"a", "NOT", none⟩,
    .wire ⟨"f", "a", .implicit⟩]⟩

/-- Both are reported and nothing else, and the unknown chip is low after a toggle and a clock
edge. -/
theorem assembly_reports_exactly_strangers :
    let sim := ((Simulator.new Standard.catalog {}).assembleProgram strangers).1
    sim.issues.issues = [.unknownChipType "f" "Moon", .duplicateInstanceId "a"] ∧
      Netlist.issues Standard.catalog strangers =
        strangers.reportsOf (fun part => (Instance.fresh Standard.catalog part).isUnknown) ∧
      (sim.run [.toggle "a", .tick]).value? "f" = some false := by
  intro sim
  obtain ⟨-, -, hexact, -, hlow⟩ :=
    assembly_reports_exactly_iff (Simulator.new Standard.catalog {}) strangers
  have hwritten : ∀ part ∈ strangers.parts,
      (Instance.fresh Standard.catalog part).isUnknown = true ∨ upper part.chip = part.chip := by
    decide +kernel
  refine ⟨by decide +kernel, hexact.2 fun part hpart hknown => ?_, ?_⟩
  · have hnot := Bool.eq_false_iff.1 hknown
    exact (Text.upper_eq_self_iff _).1 ((hwritten part hpart).resolve_left hnot)
  · have hfound : ((sim.run [.toggle "a", .tick]).instance? "f").map Instance.part =
        some (Part.fold ⟨"f", "Moon", none⟩) := by decide +kernel
    obtain ⟨i, hi, hpart⟩ := Option.map_eq_some_iff.1 hfound
    have hmem : i ∈ (sim.run [.toggle "a", .tick]).instances := List.mem_of_find?_eq_some hi
    have hvalue := (hlow [.toggle "a", .tick] (by decide) ⟨"f", "Moon", none⟩ (by decide +kernel) i
      hmem hpart).1
    rw [Simulator.value?, hi, Option.map_some, hvalue]

/-- An inverter whose type is written in lower case. -/
def lowerCaseInverter : Program := ⟨[.part ⟨"n", "not", none⟩]⟩

/-- Its type is reported as unknown, and that it will always be low; it is an inverter, and high. -/
theorem lowerCase_type_reported_unknown :
    let sim := ((Simulator.new Standard.catalog {}).assembleProgram lowerCaseInverter).1
    sim.issues.issues = [.unknownChipType "n" "not"] ∧ sim.value? "n" = some true ∧
      sim.instances.map Instance.isUnknown = [false] ∧
      Netlist.issues Standard.catalog lowerCaseInverter ≠
        lowerCaseInverter.reportsOf
          (fun part => (Instance.fresh Standard.catalog part).isUnknown) := by
  decide +kernel

end Breadboard
