import Breadboard.Proofs.Frame
import Breadboard.Proofs.Saved

/-!
# The structure of a circuit

The chips at the top of a circuit come and go, but what is inside them is the catalog's business
alone. Settling, clock edges, toggles and drawing only write signals, a program is laid out as new
chips, and a snapshot, whatever it says of the insides, is laid over new chips.

* `instanceAt?_of_blankAll`: circuits of one shape have the same structure place by place;
* `upper_of_built`: the types of chips built from a catalog are in upper case;
* **`structure_survives`**: after every run, the circuit is at every place what the types of its top
  instances say.
-/

namespace Breadboard

variable {catalog : Catalog}

/-- Two instances are the same part, with the same kind of body and the same wires inside. -/
structure Instance.SameStructure (i j : Instance) : Prop where
  part : i.part = j.part
  body : i.body.hollow = j.body.hollow

theorem sameStructure_of_blank {i j : Instance} (h : i.blank = j.blank) : i.SameStructure j := by
  obtain ⟨part, expanded, s, body⟩ := j
  cases body with
  | unknown =>
    obtain ⟨expanded', s', rfl⟩ := blank_eq_unknown h
    exact ⟨rfl, rfl⟩
  | primitive kind =>
    obtain ⟨expanded', s', rfl⟩ := blank_eq_primitive h
    exact ⟨rfl, rfl⟩
  | composite parts inner =>
    obtain ⟨expanded', s', parts', rfl, -⟩ := blank_eq_composite h
    exact ⟨rfl, rfl⟩

/-- Composites of one shape have insides of one shape. -/
theorem inside?_of_blank (i j : Instance) (h : i.blank = j.blank) :
    Option.Rel (fun u v : Scope => u.instances.map Instance.blank = v.instances.map Instance.blank)
      i.inside? j.inside? := by
  obtain ⟨part, expanded, s, body⟩ := j
  cases body with
  | unknown =>
    obtain ⟨expanded', s', rfl⟩ := blank_eq_unknown h
    exact .none
  | primitive kind =>
    obtain ⟨expanded', s', rfl⟩ := blank_eq_primitive h
    exact .none
  | composite parts inner =>
    obtain ⟨expanded', s', parts', rfl, hparts⟩ := blank_eq_composite h
    rw [blankAll_eq_map, blankAll_eq_map] at hparts
    exact .some hparts

/-- **Circuits of one shape have the same structure at every place.** -/
theorem instanceAt?_of_blankAll {s t : Scope} (h : blankAll s.instances = blankAll t.instances)
    (path : List Nat) (k : Nat) :
    Option.Rel Instance.SameStructure (s.instanceAt? path k) (t.instanceAt? path k) := by
  rw [blankAll_eq_map, blankAll_eq_map] at h
  exact rel_imp (fun _ _ => sameStructure_of_blank)
    (Scope.instanceAt?_of_map_eq inside?_of_blank h path k)

/-- A chip built from a catalog has its type in upper case. -/
theorem upper_of_built {scope : List Instance} (h : Built catalog scope) {i : Instance}
    (hi : i ∈ scope) : Text.upper i.chip = i.chip := by
  have hpart := congrArg Instance.part (h i hi)
  rw [blank_part, blank_part] at hpart
  have hfold : i.part = i.part.fold := hpart
  exact (congrArg Part.chip hfold).symm

/-- What the types at the top of a circuit say that it is: its instances, built anew. -/
def Simulator.rebuilt (sim : Simulator) : Scope where
  instances := sim.instances.map fun i => Instance.fresh sim.catalog i.part
  wires := sim.wires

/-- **Structure survives.** After any operations, one after the other, also restores of snapshots
that have nothing to do with the catalog, no type at the top has a letter from `a` to `z`, and every
instance there has the shape of a chip of its type that was just built. So at every place of the
circuit there is the same part, with the same kind of body and the same wires inside, as in the
circuit built anew from the types at the top, and where the one has no place the other has none. -/
theorem structure_survives (catalog : Catalog) (options : SimOptions) (commands : List Command) :
    let sim := (Simulator.new catalog options).run commands
    (∀ i ∈ sim.instances, (∀ c ∈ i.chip.toList, c.isLower = false) ∧
      i.blank = (Instance.fresh catalog i.part).blank) ∧
    ∀ path k, Option.Rel Instance.SameStructure (sim.top.instanceAt? path k)
      (sim.rebuilt.instanceAt? path k) := by
  intro sim
  have hcatalog : sim.catalog = catalog := (run_catalog (Simulator.new catalog options) commands).1
  have hbuilt : Built sim.catalog sim.instances := by
    rw [hcatalog]
    exact built_run commands fun i hi => absurd hi List.not_mem_nil
  refine ⟨fun i hi => ⟨?_, ?_⟩, fun path k => instanceAt?_of_blankAll ?_ path k⟩
  · exact (Text.upper_eq_self_iff i.chip).1 (upper_of_built hbuilt hi)
  · rw [← hcatalog]
    exact hbuilt i hi
  · unfold Simulator.rebuilt
    rw [blankAll_eq_map, blankAll_eq_map, List.map_map]
    exact List.map_congr_left hbuilt

/-- A half adder saved by someone else: its type is in lower case, its exclusive or is missing and
its conjunction is there twice, once as a flip-flop, next to a part that no half adder has. -/
def foreignRecord : Snapshot where
  clock := 7
  instances := [{
    part := ⟨"h", "half_adder", some ⟨1, 2⟩⟩
    signals := { value := true, next := true, outputs := NameMap.empty.insert "MOON" true }
    parts := [
      { part := ⟨"and0", "DFF", none⟩, signals := { value := true } },
      { part := ⟨"and0", "AND", none⟩, parts := [{ part := ⟨"deep", "NOT", none⟩ }] },
      { part := ⟨"moon", "MOON", none⟩ }] }]

/-- The foreign half adder comes back as a half adder, also after a clock edge. -/
theorem structure_survives_foreignRecord :
    let sim := (Simulator.new Standard.catalog {}).run [.restore foreignRecord, .tick]
    sim.instances.map Instance.part = [⟨"h", "HALF_ADDER", some ⟨1, 2⟩⟩] ∧
      (∀ i ∈ sim.instances, i.blank = (Instance.fresh Standard.catalog i.part).blank) ∧
      (sim.top.instanceAt? [0] 1).map Instance.part =
        some ⟨"and0", "AND", some ⟨200, 200⟩⟩ := by
  intro sim
  have hsurvives := structure_survives Standard.catalog {} [.restore foreignRecord, .tick]
  exact ⟨by decide +kernel, fun i hi => (hsurvives.1 i hi).2, by decide +kernel⟩

end Breadboard
