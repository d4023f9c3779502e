import Breadboard.Circuit.Clock
import Breadboard.Proofs.Scope

/-!
# Clock edges and toggles

What the two stimuli do to a circuit, and when they preserve what holds throughout it.

* `commitAll_fst`, `commit_flipFlop`, `commit_composite`, `commit_leaf`: a clock edge, body by body;
* `throughout_commitAll`, `commit_of`: what a clock edge preserves;
* `throughout_updateInstance_iff`: what an update of one instance matters to;
* `toggleInput`: flip the first instance of an id, if it is a switch;
* `throughout_toggleInput`: what a toggle preserves.
-/

namespace Breadboard

/-! ## The clock edge -/

theorem commitAll_fst (scope : List Instance) :
    (commitAll scope).1 = scope.map fun i => i.commit.1 := by
  induction scope with
  | nil => rw [commitAll]; rfl
  | cons i rest ih => rw [commitAll, List.map_cons, ← ih]

theorem commit_flipFlop (part : Part) (expanded : Bool) (s : Signals) :
    (Instance.commit ⟨part, expanded, s, .primitive .dff⟩).1 =
      ⟨part, expanded, s.drive s.next, .primitive .dff⟩ := by
  rw [Instance.commit]

theorem commit_composite (part : Part) (expanded : Bool) (s : Signals) (parts : List Instance)
    (inner : List Wire) :
    (Instance.commit ⟨part, expanded, s, .composite parts inner⟩).1 =
      ⟨part, expanded, s, .composite (commitAll parts).1 inner⟩ := by
  rw [Instance.commit]

/-- A clock edge leaves every chip without parts alone that is no flip-flop. -/
theorem commit_leaf {i : Instance} (hleaf : i.isComposite = false)
    (hk : i.body ≠ .primitive .dff) : i.commit.1 = i := by
  obtain ⟨part, expanded, s, body⟩ := i
  cases body with
  | composite parts inner => exact absurd hleaf (by simp [Instance.isComposite])
  | unknown => simp [Instance.commit]
  | primitive kind =>
    cases kind with
    | dff => exact absurd rfl hk
    | input | and | or | nand | not | xor => simp [Instance.commit]

theorem throughout_commit {P Q : Instance → Prop} (h : ∀ i, P i → Q i.commit.1) (i : Instance) :
    i.Throughout P → i.commit.1.Throughout Q := by
  induction i using Instance.induct with
  | leaf i hleaf =>
    intro hP
    have hleaf' : i.commit.1.isComposite = false := by
      by_cases hk : i.body = .primitive .dff
      · obtain ⟨part, expanded, s, body⟩ := i
        cases hk
        rw [commit_flipFlop]
        rfl
      · rw [commit_leaf hleaf hk]
        exact hleaf
    rw [Instance.throughout_leaf hleaf']
    exact h i ((Instance.throughout_leaf hleaf).1 hP)
  | composite part expanded s parts inner ih =>
    intro hP
    rw [Instance.throughout_composite] at hP
    have hown := h _ hP.1
    rw [commit_composite] at hown ⊢
    refine Instance.throughout_composite.2 ⟨hown, throughout_iff.2 fun j hj => ?_⟩
    rw [commitAll_fst] at hj
    obtain ⟨i, hi, rfl⟩ := List.mem_map.1 hj
    exact ih i hi (throughout_iff.1 hP.2 i hi)

/-- **From one chip to every depth**: if a clock edge leaves any instance that has `P` with `Q`,
then where `P` holds throughout, `Q` holds throughout after a clock edge. -/
theorem throughout_commitAll {P Q : Instance → Prop} (h : ∀ i, P i → Q i.commit.1)
    {scope : List Instance} (hP : Throughout P scope) : Throughout Q (commitAll scope).1 := by
  rw [commitAll_fst]
  refine throughout_iff.2 fun j hj => ?_
  obtain ⟨i, hi, rfl⟩ := List.mem_map.1 hj
  exact throughout_commit h i (throughout_iff.1 hP i hi)

/-- What does not look at the parts, and holds of a flip-flop that has taken its next value, is
preserved by a clock edge. -/
theorem commit_of {P : Instance → Prop}
    (flipFlop : ∀ part expanded (s : Signals), P ⟨part, expanded, s, .primitive .dff⟩ →
      P ⟨part, expanded, s.drive s.next, .primitive .dff⟩)
    (composite : ∀ part expanded s parts parts' inner,
      P ⟨part, expanded, s, .composite parts inner⟩ →
        P ⟨part, expanded, s, .composite parts' inner⟩) (i : Instance) (h : P i) :
    P i.commit.1 := by
  by_cases hleaf : i.isComposite = true
  · obtain ⟨part, expanded, s, body⟩ := i
    cases body with
    | composite parts inner =>
      rw [commit_composite]
      exact composite _ _ _ _ _ _ h
    | unknown | primitive => exact absurd hleaf (by simp [Instance.isComposite])
  · simp only [Bool.not_eq_true] at hleaf
    by_cases hk : i.body = .primitive .dff
    · obtain ⟨part, expanded, s, body⟩ := i
      cases hk
      rw [commit_flipFlop]
      exact flipFlop _ _ _ h
    · rw [commit_leaf hleaf hk]
      exact h

/-! ## Toggling -/

/-- Flip the first instance with the given id, if it is a switch. -/
def toggleInput (scope : List Instance) (id : String) : List Instance :=
  match (findInstance? scope id).filter Instance.isInput with
  | some _ => updateInstance scope id fun i => i.drive (!i.value)
  | none => scope

theorem toggleInput_of_some {scope : List Instance} {id : String} {i : Instance}
    (h : (findInstance? scope id).filter Instance.isInput = some i) :
    toggleInput scope id = updateInstance scope id fun i => i.drive (!i.value) := by
  unfold toggleInput
  rw [h]

theorem mem_updateInstance {scope : List Instance} {id : String} {f : Instance → Instance}
    {j : Instance} (h : j ∈ updateInstance scope id f) :
    j ∈ scope ∨ ∃ i ∈ scope, findInstance? scope id = some i ∧ j = f i := by
  induction scope with
  | nil => exact Or.inl h
  | cons i rest ih =>
    rw [updateInstance] at h
    split at h
    · rename_i hid
      rcases List.mem_cons.1 h with rfl | h
      · exact Or.inr ⟨i, List.mem_cons_self, by simp [findInstance?, hid], rfl⟩
      · exact Or.inl (List.mem_cons_of_mem i h)
    · rename_i hid
      rcases List.mem_cons.1 h with rfl | h
      · exact Or.inl List.mem_cons_self
      · rcases ih h with h | ⟨i', hi', hfind, rfl⟩
        · exact Or.inl (List.mem_cons_of_mem i h)
        · refine Or.inr ⟨i', List.mem_cons_of_mem i hi', ?_, rfl⟩
          have hne : (i.id == id) = false := by simpa using hid
          rw [← hfind]
          simp [findInstance?, hne]

/-- An update matters to what holds throughout a scope as it does to the instance that it finds. -/
theorem throughout_updateInstance_iff {P : Instance → Prop} {f : Instance → Instance}
    {scope : List Instance} {id : String}
    (h : ∀ i, findInstance? scope id = some i → ((f i).Throughout P ↔ i.Throughout P)) :
    Throughout P (updateInstance scope id f) ↔ Throughout P scope := by
  induction scope with
  | nil => rfl
  | cons i rest ih =>
    rw [updateInstance]
    split
    · rename_i hid
      rw [throughout_cons, throughout_cons, h i (by simp [findInstance?, hid])]
    · rename_i hid
      have hne : (i.id == id) = false := by simpa using hid
      rw [throughout_cons, throughout_cons,
        ih fun j hj => h j (by rw [← hj]; simp [findInstance?, hne])]

theorem body_of_isInput {i : Instance} (h : i.isInput = true) : i.body = .primitive .input := by
  unfold Instance.isInput at h
  split at h
  · assumption
  · exact absurd h (by simp)

/-- What driving a switch preserves of it, it preserves at every depth: a switch has no parts. -/
theorem throughout_drive {P : Instance → Prop}
    (h : ∀ i bit, i.isInput = true → P i → P (i.drive bit)) {i : Instance} (bit : Bool)
    (hinput : i.isInput = true) (hP : i.Throughout P) : (i.drive bit).Throughout P := by
  have hleaf : i.isComposite = false := by
    unfold Instance.isComposite
    rw [body_of_isInput hinput]
  have hleaf' : (i.drive bit).isComposite = false := hleaf
  exact (Instance.throughout_leaf hleaf').2 (h i bit hinput ((Instance.throughout_leaf hleaf).1 hP))

/-- What driving a switch preserves, a toggle preserves throughout a scope. -/
theorem throughout_toggleInput {P : Instance → Prop}
    (h : ∀ i bit, i.isInput = true → P i → P (i.drive bit)) {scope : List Instance} (id : String)
    (hP : Throughout P scope) : Throughout P (toggleInput scope id) := by
  unfold toggleInput
  split
  · rename_i found hfound
    obtain ⟨hfind, hinput⟩ := Option.filter_eq_some_iff.1 hfound
    refine throughout_iff.2 fun j hj => ?_
    rcases mem_updateInstance hj with hj | ⟨i, hi, hi', rfl⟩
    · exact throughout_iff.1 hP j hj
    · rw [hfind] at hi'
      cases hi'
      exact throughout_drive h _ hinput (throughout_iff.1 hP found hi)
  · exact hP

end Breadboard
