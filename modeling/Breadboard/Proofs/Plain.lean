import Breadboard.Circuit.Snapshot
import Breadboard.Proofs.Shape

/-!
# Circuits that were never restored

`Instance.Plain` is what holds of every instance that was built from the catalog and has since been
passed, toggled and clocked only: a chip without parts has no output yet, or `OUT` alone, with its
own bit; a composite has no other outputs than those of its pin map, and a low main output if its
pin map names none.

* `throughout_plain_fresh`: it holds throughout a fresh chip;
* `plain_pass`, `plain_commit`, `throughout_plain_toggleInput`: it is preserved;
* `Instance.Plain.tidy`: a plain circuit is tidy;
* `Instance.Plain.read_congr`: two plain switches or flip-flops that keep the same read the same.
-/

namespace Breadboard

variable {catalog : Catalog} {wires : List Wire} {inherited inputs : Pins}

/-- The state of an instance that was never restored. -/
def Instance.Plain (catalog : Catalog) (i : Instance) : Prop :=
  match i.body with
  | .composite .. =>
    (∀ pin, (catalog.pinMapOf i.chip).outputs.get? pin = none →
      i.signals.outputs.get? pin = none) ∧
      ((catalog.pinMapOf i.chip).main = none → i.value = false)
  | _ => i.signals.outputs = ∅ ∧ i.value = false ∨ i.signals.outputs = outOnly i.value

/-! ## Building -/

/-- What holds of every instance with low signals holds throughout a chip that is built anew. -/
theorem throughout_bodyOf {P : Instance → Prop}
    (h : ∀ part body, P { part, body }) (catalog : Catalog) (chip : String) :
    ∀ part : Part, Instance.Throughout P { part, body := bodyOf catalog chip } := by
  induction catalog, chip using bodyOf.induct with
  | case1 catalog =>
    intro part
    rw [bodyOf_input]
    exact (Instance.throughout_leaf rfl).2 (h _ _)
  | case2 catalog chip hi hget =>
    intro part
    rw [bodyOf_unknown hi hget]
    exact (Instance.throughout_leaf rfl).2 (h _ _)
  | case3 catalog chip hi d hget =>
    intro part
    rw [bodyOf_primitive hi hget]
    exact (Instance.throughout_leaf rfl).2 (h _ _)
  | case4 catalog chip hi d hget ih =>
    intro part
    rw [bodyOf_composite hi hget]
    refine Instance.throughout_composite.2 ⟨h _ _, throughout_iff.2 fun j hj => ?_⟩
    obtain ⟨p, -, rfl⟩ := List.mem_map.1 hj
    exact ih p p

theorem throughout_fresh {P : Instance → Prop} (h : ∀ part body, P { part, body })
    (catalog : Catalog) (parts : List Part) :
    Throughout P (parts.map (Instance.fresh catalog)) := by
  refine throughout_iff.2 fun i hi => ?_
  obtain ⟨part, -, rfl⟩ := List.mem_map.1 hi
  exact throughout_bodyOf h catalog _ _

/-- **Chips that are built anew are plain.** -/
theorem plain_fresh (part : Part) (body : Body Instance) :
    Instance.Plain catalog { part, body } := by
  cases body with
  | composite => exact ⟨fun _ _ => rfl, fun _ => rfl⟩
  | unknown | primitive => exact Or.inl ⟨rfl, rfl⟩

theorem throughout_plain_fresh (catalog : Catalog) (parts : List Part) :
    Throughout (Instance.Plain catalog) (parts.map (Instance.fresh catalog)) :=
  throughout_fresh plain_fresh catalog parts

/-! ## Passing -/

/-- **A pass leaves a plain instance plain.** -/
theorem plain_pass (i : Instance) (inputs : Pins) (h : i.Plain catalog) :
    (i.pass catalog inputs).1.Plain catalog := by
  obtain ⟨part, expanded, s, body⟩ := i
  cases body with
  | unknown =>
    rw [pass_unknown]
    exact Or.inr rfl
  | primitive kind =>
    rw [pass_primitive]
    by_cases hk : kind = .dff
    · subst hk
      simp only [Instance.Plain, Instance.value, Signals.compute, Signals.receive_outputs,
        Signals.receive_value] at h ⊢
      exact h
    · rw [compute_gate hk]
      exact Or.inr rfl
  | composite parts inner =>
    obtain ⟨houtputs, hmain⟩ := h
    rw [pass_composite]
    refine ⟨fun pin hpin => ?_, fun hnone => ?_⟩
    · simp only [Instance.chip] at hpin
      rw [Signals.get?_publish, hpin, Signals.receive_outputs]
      exact houtputs pin hpin
    · have hvalue := hmain hnone
      simp only [Instance.chip, Instance.value] at hnone hvalue
      simp [Instance.value, Signals.publish, hnone, hvalue]

theorem throughout_plain_passAll {scope : List Instance}
    (h : Throughout (Instance.Plain catalog) scope) :
    Throughout (Instance.Plain catalog) (passAll catalog wires inherited scope).1 :=
  throughout_passAll plain_pass h

theorem throughout_plain_settle {scope : List Instance} (limit : Nat)
    (h : Throughout (Instance.Plain catalog) scope) :
    Throughout (Instance.Plain catalog) (settle catalog wires limit scope).1 :=
  settle_induct (fun _ => throughout_plain_passAll) limit h

/-! ## Clock edges and toggles -/

/-- **A clock edge leaves a plain instance plain.** -/
theorem plain_commit (i : Instance) (h : i.Plain catalog) : i.commit.1.Plain catalog :=
  commit_of (P := Instance.Plain catalog) (fun _ _ _ _ => Or.inr rfl) (fun _ _ _ _ _ _ h => h) i h

/-- A clock edge leaves a tidy instance tidy. -/
theorem tidy_commit (i : Instance) (h : i.Tidy) : i.commit.1.Tidy :=
  commit_of (P := Instance.Tidy) (fun _ _ _ _ => trivial) (fun _ _ _ _ _ _ _ => trivial) i h

/-- **A switch is plain as soon as it was driven.** -/
theorem plain_drive (i : Instance) (bit : Bool) (hinput : i.isInput = true) :
    (i.drive bit).Plain catalog := by
  obtain ⟨part, expanded, s, body⟩ := i
  cases body_of_isInput hinput
  exact Or.inr rfl

theorem throughout_plain_toggleInput {scope : List Instance} (id : String)
    (h : Throughout (Instance.Plain catalog) scope) :
    Throughout (Instance.Plain catalog) (toggleInput scope id) :=
  throughout_toggleInput (fun i bit hinput _ => plain_drive i bit hinput) id h

/-! ## What plain instances have in common -/

theorem Instance.Plain.tidy {i : Instance} (h : i.Plain catalog) : i.Tidy := by
  obtain ⟨part, expanded, s, body⟩ := i
  have leaf : (s.outputs = ∅ ∧ s.value = false ∨ s.outputs = outOnly s.value) →
      s.outputs.size = 1 → ∃ bit, s.outputs.get? outPin = some bit := by
    rintro (⟨hempty, -⟩ | hdriven) hsize
    · rw [hempty] at hsize
      exact absurd hsize (by decide)
    · rw [hdriven]
      exact ⟨s.value, by simp⟩
  cases body with
  | composite => exact trivial
  | unknown => exact leaf h
  | primitive kind =>
    cases kind with
    | dff => exact trivial
    | input | and | or | nand | not | xor => exact leaf h

/-- A plain composite has no output that its pin map does not name. -/
theorem Instance.Plain.unmapped {i : Instance} (h : i.Plain catalog) (hc : i.isComposite = true)
    {pin : String} (hpin : (catalog.pinMapOf i.chip).outputs.get? pin = none) :
    i.signals.outputs.get? pin = none := by
  obtain ⟨part, expanded, s, body⟩ := i
  cases body with
  | unknown | primitive => exact absurd hc (by simp [isComposite])
  | composite => exact h.1 pin hpin

/-- A plain composite whose pin map names no main part is low. -/
theorem Instance.Plain.main {i : Instance} (h : i.Plain catalog) (hc : i.isComposite = true)
    (hmain : (catalog.pinMapOf i.chip).main = none) : i.value = false := by
  obtain ⟨part, expanded, s, body⟩ := i
  cases body with
  | unknown | primitive => exact absurd hc (by simp [isComposite])
  | composite => exact h.2 hmain

/-- A plain chip without parts drives `OUT` or nothing yet. -/
theorem Instance.Plain.leaf {i : Instance} (h : i.Plain catalog) (hleaf : i.isComposite = false) :
    i.signals.outputs = ∅ ∧ i.value = false ∨ i.signals.outputs = outOnly i.value := by
  obtain ⟨part, expanded, s, body⟩ := i
  cases body with
  | composite => exact absurd hleaf (by simp [isComposite])
  | unknown => exact h
  | primitive => exact h

/-- A plain chip without parts reads its bit on `OUT` and low on any other pin. -/
theorem Instance.Plain.output {i : Instance} (h : i.Plain catalog) (hleaf : i.isComposite = false)
    (pin : String) : i.output pin = (if pin = outPin then i.value else false) := by
  rcases h.leaf hleaf with ⟨hempty, hlow⟩ | hdriven
  · rw [Instance.output, Signals.output, hempty, hlow]
    split <;> rfl
  · rw [Instance.output, Signals.output, hdriven, get?_outOnly]
    split <;> rfl

/-- A tap of a plain chip without parts reads its bit, whatever the pin. -/
theorem Instance.Plain.fallback {i : Instance} (h : i.Plain catalog) (hleaf : i.isComposite = false)
    (pin : String) : (i.signals.outputs.get? pin).getD i.value = i.value := by
  rcases h.leaf hleaf with ⟨hempty, -⟩ | hdriven
  · rw [hempty]
    rfl
  · rw [hdriven, get?_outOnly]
    split <;> rfl

theorem value_of_kept {i j : Instance} (hstored : i.isStored = true) (h : i.kept = j.kept) :
    i.value = j.value := by
  obtain ⟨part, expanded, s, body⟩ := i
  obtain ⟨part', expanded', s', body'⟩ := j
  have hs := congrArg (fun k => k.signals.value) h
  have hb := congrArg Instance.body h
  cases body with
  | unknown | composite => exact absurd hstored (by simp [Instance.isStored])
  | primitive kind =>
    cases body' with
    | unknown => rw [kept_primitive, kept_unknown] at hb; cases hb
    | composite => rw [kept_primitive, kept_composite] at hb; cases hb
    | primitive kind' =>
      rw [kept_primitive, kept_primitive] at hb hs
      cases hb
      cases kind with
      | input | dff => exact hs
      | and | or | nand | not | xor => exact absurd hstored (by simp [Instance.isStored])

/-- **Two plain switches or flip-flops that keep the same read the same**, on every pin. -/
theorem Instance.Plain.read_congr {i j : Instance} (hi : i.Plain catalog) (hj : j.Plain catalog)
    (hstored : i.isStored = true) (h : i.kept = j.kept) (pin : Option String) :
    i.read pin = j.read pin := by
  have hleaf := isComposite_of_isStored hstored
  have hleaf' := isComposite_of_blank (blank_of_kept h) ▸ hleaf
  have hvalue := value_of_kept hstored h
  cases pin with
  | none => exact hvalue
  | some pin =>
    change i.output pin = j.output pin
    rw [hi.output hleaf, hj.output hleaf', hvalue]

end Breadboard
