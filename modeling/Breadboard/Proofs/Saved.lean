import Breadboard.Proofs.Overlay
import Breadboard.Proofs.Primed

/-!
# Saving and restoring a circuit at rest

A snapshot keeps the state of a circuit but not its structure: the insides of its chips are built
from the catalog again, and the saved parts meet the built ones by id. As long as no composite has
two parts of one id, a circuit at rest comes back as it was, but for the flip-flops that were never
clocked: they drive their bits now.

* `throughout_partsDistinct_bodyOf`: chips built from such a catalog have no double parts either;
* `built_run`: every circuit, restored or not, is made of chips built from the catalog;
* `overlay_save`: laying the saved state of an instance over one of its shape primes the instance;
* **`netlist_snapshot`**: the netlist of the snapshot of a circuit at rest is the circuit, primed.
-/

namespace Breadboard

variable {catalog : Catalog}

/-! ## Circuits built from a catalog -/

/-- No composite has two parts of one id. -/
def Catalog.PartsDistinct (catalog : Catalog) : Prop :=
  ∀ chip d, catalog.get? chip = some (.composite d) → (d.parts.map Part.id).Nodup

/-- No two parts of the instance have one id. -/
def Instance.PartsDistinct (i : Instance) : Prop := (i.parts.map Instance.id).Nodup

theorem Catalog.PartsDistinct.erase (h : catalog.PartsDistinct) (chip : String) :
    (catalog.erase chip).PartsDistinct := by
  intro q d hget
  rw [Catalog.get?_erase] at hget
  split at hget
  · exact absurd hget (by simp)
  · exact h q d hget

/-- **Chips built from a catalog without double parts have none**, at any depth. -/
theorem throughout_partsDistinct_bodyOf (catalog : Catalog) (chip : String) :
    catalog.PartsDistinct → ∀ part : Part,
      Instance.Throughout Instance.PartsDistinct { part, body := bodyOf catalog chip } := by
  induction catalog, chip using bodyOf.induct with
  | case1 catalog =>
    intro _ part
    rw [bodyOf_input]
    exact (Instance.throughout_leaf rfl).2 List.nodup_nil
  | case2 catalog chip hi hget =>
    intro _ part
    rw [bodyOf_unknown hi hget]
    exact (Instance.throughout_leaf rfl).2 List.nodup_nil
  | case3 catalog chip hi d hget =>
    intro _ part
    rw [bodyOf_primitive hi hget]
    exact (Instance.throughout_leaf rfl).2 List.nodup_nil
  | case4 catalog chip hi d hget ih =>
    intro h part
    rw [bodyOf_composite hi hget]
    refine Instance.throughout_composite.2 ⟨?_, throughout_iff.2 fun j hj => ?_⟩
    · have hids := h chip d hget
      unfold Instance.PartsDistinct Instance.parts
      rw [List.map_map]
      exact hids
    · obtain ⟨p, -, rfl⟩ := List.mem_map.1 hj
      exact ih p (h.erase chip) p

/-- Every instance of a scope has the shape of a chip built from the catalog. -/
def Built (catalog : Catalog) (scope : List Instance) : Prop :=
  ∀ i ∈ scope, i.blank = (Instance.fresh catalog i.part).blank

theorem Built.of_blankAll {scope scope' : List Instance} (h : Built catalog scope)
    (hblank : blankAll scope' = blankAll scope) : Built catalog scope' := by
  intro i hi
  obtain ⟨k, hk⟩ := List.mem_iff_getElem?.1 hi
  obtain ⟨j, hj, hij⟩ := getElem?_of_blankAll hblank hk
  have hpart : i.part = j.part := by rw [← blank_part i, ← hij, blank_part]
  rw [hpart, ← hij]
  exact h j (List.mem_of_getElem? hj)

theorem built_ofProgram (catalog : Catalog) (program : Program) :
    Built catalog (Netlist.ofProgram catalog program).instances := by
  intro i hi
  obtain ⟨part, -, rfl⟩ := List.mem_map.1 ((ofProgram_perm catalog program).mem_iff.1 hi)
  exact congrArg Instance.blank (Instance.fresh_fold catalog part).symm

theorem built_restored (catalog : Catalog) (saved : Snapshot) :
    Built catalog (saved.netlist catalog).instances := by
  intro i hi
  obtain ⟨r, -, rfl⟩ := List.mem_map.1 hi
  rw [blank_restore, restore_part, Instance.fresh_fold]

/-- **Every operation leaves a circuit of chips built from the catalog.** -/
theorem built_exec {sim : Simulator} (c : Command) (hsim : Built sim.catalog sim.instances) :
    Built sim.catalog (c.exec sim).instances := by
  have hsettled : ∀ netlist, c.netlist? sim = some netlist →
      Built sim.catalog netlist.instances → Built sim.catalog (c.exec sim).instances :=
    fun _ h hlaid => hlaid.of_blankAll (blankAll_of_netlist? h)
  cases c with
  | assemble | assembleProgram => exact hsettled _ rfl (built_ofProgram sim.catalog _)
  | restore saved => exact hsettled _ rfl (built_restored sim.catalog saved)
  | toggle | tick | settle | expand => exact hsim.of_blankAll (blankAll_exec sim rfl).1

/-- **Every run leaves a circuit of chips built from the catalog.** -/
theorem built_run {sim : Simulator} (commands : List Command)
    (hsim : Built sim.catalog sim.instances) : Built sim.catalog (sim.run commands).instances := by
  refine (run_induct (P := fun s => s.catalog = sim.catalog ∧ Built sim.catalog s.instances)
    commands sim (fun s c _ h => ?_) ⟨rfl, hsim⟩).2
  obtain ⟨hcatalog, hbuilt⟩ := h
  refine ⟨(exec_catalog s c).1.trans hcatalog, ?_⟩
  rw [← hcatalog] at hbuilt ⊢
  exact built_exec c hbuilt

/-! ## Saving and restoring -/

/-- A primitive that is no flip-flop has outputs. -/
def Instance.Driven (i : Instance) : Prop :=
  ∀ kind, i.body = .primitive kind → kind ≠ .dff → i.signals.outputs.isEmpty = false

/-- What holds of every instance at rest holds throughout it. -/
theorem throughout_of_atRest {P : Instance → Prop}
    (h : ∀ i inputs, i.AtRest catalog inputs → P i) (i : Instance) :
    ∀ inputs, i.AtRest catalog inputs → i.Throughout P := by
  induction i using Instance.induct with
  | leaf i hleaf => exact fun inputs hrest => (Instance.throughout_leaf hleaf).2 (h i inputs hrest)
  | composite part expanded s parts inner ih =>
    intro inputs hrest
    have hinside := Scope.atRest_iff.1 (atRest_composite.1 hrest).2.1
    exact Instance.throughout_composite.2
      ⟨h _ inputs hrest, throughout_iff.2 fun j hj => ih j hj _ (hinside j hj)⟩

theorem driven_of_atRest (i : Instance) (inputs : Pins) (h : i.AtRest catalog inputs) :
    i.Driven := by
  obtain ⟨part, expanded, s, body⟩ := i
  rintro kind rfl hk
  change s.outputs.isEmpty = false
  rw [((atRest_gate hk).1 h).2.2]
  rfl

theorem save_part (i : Instance) : i.save.part = i.part := by
  obtain ⟨part, expanded, s, body⟩ := i
  cases body with
  | unknown | primitive => simp [Instance.save]
  | composite parts inner => rw [Instance.save]

theorem saveAll_eq_map (scope : List Instance) : saveAll scope = scope.map Instance.save := by
  induction scope with
  | nil => rw [saveAll]; rfl
  | cons i rest ih => rw [saveAll, ih]; rfl

/-- An update finds the first instance of its id behind others of other ids. -/
theorem updateInstance_append {done : List Instance} {i : Instance} (rest : List Instance)
    (f : Instance → Instance) (h : i.id ∉ done.map Instance.id) :
    updateInstance (done ++ i :: rest) i.id f = done ++ f i :: rest := by
  induction done with
  | nil => rw [List.nil_append, updateInstance, if_pos rfl, List.nil_append]
  | cons j done ih =>
    rw [List.map_cons, List.mem_cons, not_or] at h
    rw [List.cons_append, updateInstance, if_neg (Ne.symm h.1), ih h.2, List.cons_append]

/-- Laying saved parts over built ones, behind those that are done. -/
theorem overlayAll_saveAll (parts : List Instance)
    (h : ∀ i ∈ parts, ∀ j : Instance, j.blank = i.blank → j.Throughout Instance.PartsDistinct →
      i.save.overlay j = i.primed) :
    ∀ done parts' : List Instance, blankAll parts' = blankAll parts →
      Throughout Instance.PartsDistinct parts' → ((done ++ parts').map Instance.id).Nodup →
        overlayAll (saveAll parts) (done ++ parts') = done ++ primedAll parts := by
  induction parts with
  | nil =>
    intro done parts' hblank _ _
    cases parts' with
    | nil => rw [saveAll, overlayAll, primedAll]
    | cons j rest' => exact absurd hblank (by simp [blankAll])
  | cons i rest ih =>
    intro done parts' hblank hdistinct hnodup
    cases parts' with
    | nil => exact absurd hblank (by simp [blankAll])
    | cons j rest' =>
      rw [blankAll, blankAll, List.cons.injEq] at hblank
      rw [throughout_cons] at hdistinct
      have hid : i.save.part.id = j.id := by
        rw [save_part]
        exact (id_of_blank hblank.1).symm
      have hnew : j.id ∉ done.map Instance.id := by
        rw [List.map_append, List.nodup_append] at hnodup
        exact fun hm => hnodup.2.2 _ hm _ (by simp) rfl
      have hown := h i List.mem_cons_self j hblank.1 hdistinct.1
      have hrest := ih (fun k hk => h k (List.mem_cons_of_mem i hk)) (done ++ [i.primed]) rest'
        hblank.2 hdistinct.2 (by
          rw [List.append_assoc]
          simpa [primed_id, ← id_of_blank hblank.1] using hnodup)
      rw [saveAll, overlayAll, hid, updateInstance_append rest' _ hnew, hown, primedAll]
      simpa using hrest

/-- **Saved state laid over an instance of the same shape primes the instance.** -/
theorem overlay_save (i : Instance) : i.Throughout Instance.Driven → ∀ j : Instance,
    j.blank = i.blank → j.Throughout Instance.PartsDistinct → i.save.overlay j = i.primed := by
  induction i using Instance.induct with
  | leaf i hleaf =>
    intro hdriven j hblank _
    rw [Instance.throughout_leaf hleaf] at hdriven
    obtain ⟨part, expanded, s, body⟩ := i
    cases body with
    | composite => exact absurd hleaf (by simp [Instance.isComposite])
    | unknown =>
      obtain ⟨expanded', s', rfl⟩ := blank_eq_unknown hblank
      simp [Instance.save, InstanceSnapshot.overlay, Instance.primed]
    | primitive kind =>
      obtain ⟨expanded', s', rfl⟩ := blank_eq_primitive hblank
      have hoverlay : (Instance.save ⟨part, expanded, s, .primitive kind⟩).overlay
          ⟨part, expanded', s', .primitive kind⟩ = ⟨part, expanded, s.primed, .primitive kind⟩ := by
        simp [Instance.save, InstanceSnapshot.overlay, Signals.primed]
      rw [hoverlay]
      by_cases hk : kind = .dff
      · subst hk
        rw [primed_flipFlop]
      · rw [Signals.primed_of_not_isEmpty (hdriven kind rfl hk),
          primed_leaf rfl (by simpa using hk)]
  | composite part expanded s parts inner ih =>
    intro hdriven j hblank hdistinct
    rw [Instance.throughout_composite] at hdriven
    obtain ⟨expanded', s', parts', rfl, hparts⟩ := blank_eq_composite hblank
    rw [Instance.throughout_composite] at hdistinct
    have hinside := overlayAll_saveAll parts
      (fun k hk => ih k hk (throughout_iff.1 hdriven.2 k hk)) [] parts' hparts hdistinct.2
      hdistinct.1
    rw [List.nil_append, List.nil_append] at hinside
    rw [Instance.save, InstanceSnapshot.overlay, primed_composite]
    simp only [hinside]

/-- **An instance at rest comes back primed.** -/
theorem restore_save (hdistinct : catalog.PartsDistinct) {i : Instance}
    (hbuilt : i.blank = (Instance.fresh catalog i.part).blank)
    (hdriven : i.Throughout Instance.Driven) : i.save.restore catalog = i.primed := by
  unfold InstanceSnapshot.restore
  rw [save_part]
  exact overlay_save i hdriven _ hbuilt.symm
    (throughout_partsDistinct_bodyOf catalog _ hdistinct _)

/-- **A circuit at rest comes back primed.** -/
theorem netlist_snapshot (hdistinct : catalog.PartsDistinct) {sim : Simulator}
    (hbuilt : Built catalog sim.instances) (hrest : sim.top.AtRest catalog) :
    sim.snapshot.netlist catalog = ⟨primedAll sim.instances, sim.wires⟩ := by
  have hall : ∀ i ∈ sim.instances, i.save.restore catalog = i.primed := by
    intro i hi
    have hown := Scope.atRest_iff.1 hrest i hi
    exact restore_save hdistinct (hbuilt i hi) (throughout_of_atRest driven_of_atRest i _ hown)
  unfold Snapshot.netlist Simulator.snapshot
  rw [saveAll_eq_map, List.map_map, primedAll_eq_map]
  exact congrArg (Netlist.mk · sim.wires) (List.map_congr_left hall)

end Breadboard
