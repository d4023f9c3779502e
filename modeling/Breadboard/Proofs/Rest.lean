import Breadboard.Proofs.Pass

/-!
# States at rest

An instance is at rest under given inputs when a pass gives back the very same instance and tells
that nothing changed; a scope is at rest when a pass over it does.

* `Scope.atRest_iff`: a scope is at rest iff each instance is, under the inputs that the scope
  resolves for it;
* `atRest_unknown`, `atRest_flipFlop`, `atRest_gate`, `atRest_composite`: the equations that hold
  of an instance at rest, body by body;
* `Scope.AtRest.holds`: what lies inside a scope at rest is at rest;
* `Scope.atRest_of_quiet`: a pass that tells that nothing changed leaves everything as it was, as
  long as no chip without parts has a single output of another name than `OUT` (`Instance.Tidy`).
  A pass leaves only tidy instances behind (`throughout_tidy_passAll`).
-/

namespace Breadboard

variable {catalog : Catalog} {wires : List Wire} {inherited inputs : Pins}

/-- A pass gives back the very same instance and tells that nothing changed. -/
def Instance.AtRest (catalog : Catalog) (inputs : Pins) (i : Instance) : Prop :=
  i.pass catalog inputs = (i, false)

/-- A pass gives back the very same instances and tells that nothing changed. -/
def Scope.AtRest (catalog : Catalog) (s : Scope) : Prop :=
  passAll catalog s.wires s.inherited s.instances = (s.instances, false)

/-- The inputs that a scope resolves for a part. -/
def Scope.inputsFor (catalog : Catalog) (s : Scope) (target : Part) : Pins :=
  resolveInputs catalog s.instances s.wires s.inherited target

theorem passFrom_of_atRest (visited scope : List Instance)
    (h : ∀ i ∈ scope, i.passIn catalog wires inherited (visited ++ scope) = (i, false)) :
    passFrom catalog wires inherited visited scope = (scope, false) := by
  induction scope generalizing visited with
  | nil => rw [passFrom]
  | cons i rest ih =>
    have hi := h i List.mem_cons_self
    have hrest := ih (visited ++ [i]) fun j hj => by
      rw [List.append_assoc]
      exact h j (List.mem_cons_of_mem i hj)
    rw [passFrom_cons, hi, hrest]
    rfl

/-- **A scope is at rest iff each of its instances is**, under the inputs resolved for it. -/
theorem Scope.atRest_iff {s : Scope} :
    s.AtRest catalog ↔ ∀ i ∈ s.instances, i.AtRest catalog (s.inputsFor catalog i.part) := by
  constructor
  · intro h i hi
    obtain ⟨k, hk⟩ := List.mem_iff_getElem?.1 hi
    have hout : (passAll catalog s.wires s.inherited s.instances).1[k]? = _ := passAll_spec hk
    have hflag := quiet_iff.1 (congrArg Prod.snd h) k i hk
    rw [congrArg Prod.fst h, midway_self] at hout hflag
    rw [hk] at hout
    exact Prod.ext (Option.some.inj hout).symm hflag
  · intro h
    exact passFrom_of_atRest [] s.instances h

/-! ## The equations of an instance at rest -/

section Bodies

variable {part : Part} {expanded : Bool} {s : Signals}

theorem Instance.AtRest.agree {i : Instance} (h : i.AtRest catalog inputs) :
    i.signals.inputs.agree inputs = true :=
  agree_of_quiet (congrArg Prod.snd h)

theorem atRest_unknown :
    Instance.AtRest catalog inputs ⟨part, expanded, s, .unknown⟩ ↔
      s.inputs.agree inputs = true ∧ s.value = false ∧ s.outputs = outOnly false := by
  constructor
  · intro h
    obtain ⟨hag, -, hvalue⟩ := quiet_unknown.1 (congrArg Prod.snd h)
    have hfst := congrArg (fun r => r.1.signals.outputs) h
    rw [pass_unknown] at hfst
    exact ⟨hag, hvalue, hfst.symm⟩
  · rintro ⟨hag, hvalue, houtputs⟩
    refine Prod.ext ?_ (quiet_unknown.2 ⟨hag, Signals.isDriven_of_outOnly houtputs, hvalue⟩)
    rw [pass_unknown, Signals.receive_of_agree hag, Signals.drive_eq_self hvalue houtputs]

theorem atRest_flipFlop :
    Instance.AtRest catalog inputs ⟨part, expanded, s, .primitive .dff⟩ ↔
      s.inputs.agree inputs = true ∧ s.next = s.bit (catalog.inputsOf part.chip) 0 := by
  constructor
  · intro h
    exact quiet_flipFlop.1 (congrArg Prod.snd h)
  · rintro ⟨hag, hnext⟩
    refine Prod.ext ?_ (quiet_flipFlop.2 ⟨hag, hnext⟩)
    rw [pass_primitive, Signals.receive_of_agree hag]
    simp only [Signals.compute, ← hnext]

theorem atRest_gate {kind : PrimitiveKind} (hk : kind ≠ .dff) :
    Instance.AtRest catalog inputs ⟨part, expanded, s, .primitive kind⟩ ↔
      s.inputs.agree inputs = true ∧
        s.value = kind.evaluate (s.bit (catalog.inputsOf part.chip) 0)
          (s.bit (catalog.inputsOf part.chip) 1) s.value ∧
        s.outputs = outOnly s.value := by
  constructor
  · intro h
    obtain ⟨hag, -, hvalue⟩ := (quiet_gate hk).1 (congrArg Prod.snd h)
    have hfst := congrArg (fun r => r.1.signals.outputs) h
    rw [pass_primitive, Signals.receive_of_agree hag, compute_gate hk, ← hvalue] at hfst
    exact ⟨hag, hvalue, hfst.symm⟩
  · rintro ⟨hag, hvalue, houtputs⟩
    refine Prod.ext ?_ ((quiet_gate hk).2 ⟨hag, Signals.isDriven_of_outOnly houtputs, hvalue⟩)
    rw [pass_primitive, Signals.receive_of_agree hag, compute_gate hk, ← hvalue,
      Signals.drive_eq_self rfl houtputs]

/-- Publishing what is published already changes nothing. -/
theorem publish_eq_self {pinMap : PinMap} {parts : List Instance}
    (hpublished : ∀ e ∈ pinMap.outputs.entries, s.outputs.get? e.1 = some (e.2.read parts))
    (hmain : ∀ id, pinMap.main = some id → s.value = mainOutput parts id) :
    s.publish pinMap parts = s := by
  cases s with
  | mk value next inputs outputs =>
    unfold Signals.publish
    rw [NameMap.foldl_insert_of_get? (Tap.read parts) outputs _ hpublished]
    cases hm : pinMap.main with
    | none => rfl
    | some id =>
      have hvalue := hmain id hm
      simp only at hvalue ⊢
      rw [← hvalue]

theorem atRest_composite {parts : List Instance} {inner : List Wire} :
    Instance.AtRest catalog inputs ⟨part, expanded, s, .composite parts inner⟩ ↔
      s.inputs.agree inputs = true ∧ Scope.AtRest catalog ⟨parts, inner, s.inputs⟩ ∧
        (∀ e ∈ (catalog.pinMapOf part.chip).outputs.entries,
          s.outputs.get? e.1 = some (e.2.read parts)) ∧
        ∀ id, (catalog.pinMapOf part.chip).main = some id → s.value = mainOutput parts id := by
  constructor
  · intro h
    obtain ⟨hag, hinside, hpublished, hmain⟩ := quiet_composite.1 (congrArg Prod.snd h)
    have hparts : (passAll catalog inner s.inputs parts).1 = parts := by
      have hfst := congrArg (fun r => r.1.parts) h
      rw [pass_composite, Signals.receive_of_agree hag] at hfst
      exact hfst
    rw [hparts] at hpublished hmain
    exact ⟨hag, Prod.ext hparts hinside, hpublished, hmain⟩
  · rintro ⟨hag, hinside, hpublished, hmain⟩
    have hpass : passAll catalog inner s.inputs parts = (parts, false) := hinside
    refine Prod.ext ?_ (quiet_composite.2 ⟨hag, congrArg Prod.snd hpass, ?_, ?_⟩)
    · rw [pass_composite, Signals.receive_of_agree hag, hpass, publish_eq_self hpublished hmain]
    · rw [hpass]
      exact hpublished
    · rw [hpass]
      exact hmain

end Bodies

/-- A chip without parts is at rest after one pass. -/
theorem atRest_pass_leaf {i : Instance} (hleaf : i.isComposite = false) (inputs : Pins) :
    (i.pass catalog inputs).1.AtRest catalog inputs := by
  obtain ⟨part, expanded, s, body⟩ := i
  have hag := s.agree_receive inputs
  cases body with
  | composite parts inner => exact absurd hleaf (by simp [Instance.isComposite])
  | unknown =>
    rw [pass_unknown]
    exact atRest_unknown.2 ⟨hag, rfl, rfl⟩
  | primitive kind =>
    rw [pass_primitive]
    by_cases hk : kind = .dff
    · subst hk
      exact atRest_flipFlop.2 ⟨hag, rfl⟩
    · rw [compute_gate hk]
      refine (atRest_gate hk).2 ⟨hag, ?_, rfl⟩
      cases kind with
      | dff => exact absurd rfl hk
      | input | and | or | nand | not | xor => rfl

/-- **What lies inside a scope at rest is at rest.** -/
theorem Scope.AtRest.holds {s t : Scope} (h : s.AtRest catalog) (hst : s.Holds t) :
    t.AtRest catalog := by
  induction hst with
  | refl => exact h
  | inside hi _ ih => exact ih (atRest_composite.1 (Scope.atRest_iff.1 h _ hi)).2.1

/-! ## What a pass does to every instance -/

/-- The instances after a pass are those before it, each passed once. -/
theorem mem_passAll {scope : List Instance} {j : Instance}
    (hj : j ∈ (passAll catalog wires inherited scope).1) :
    ∃ i ∈ scope, ∃ inputs, j = (i.pass catalog inputs).1 := by
  obtain ⟨k, hk⟩ := List.mem_iff_getElem?.1 hj
  have hlt : k < scope.length := by
    have hout := (List.getElem?_eq_some_iff.1 hk).1
    rwa [length_passAll] at hout
  have hi : scope[k]? = some scope[k] := List.getElem?_eq_getElem hlt
  rw [passAll_spec hi] at hk
  exact ⟨scope[k], List.getElem_mem hlt, _, (Option.some.inj hk).symm⟩

section Throughout

variable {P Q : Instance → Prop}

/-- **From one pass to every depth**: if a pass over any instance with `P` leaves it with `Q`, then
where `P` holds throughout, `Q` holds throughout after a pass. -/
theorem throughout_pass (h : ∀ i inputs, P i → Q (i.pass catalog inputs).1) (i : Instance) :
    i.Throughout P → ∀ inputs, (i.pass catalog inputs).1.Throughout Q := by
  induction i using Instance.induct with
  | leaf i hleaf =>
    intro hP inputs
    have hleaf' : (i.pass catalog inputs).1.isComposite = false := by
      obtain ⟨part, expanded, s, body⟩ := i
      cases body with
      | unknown => rw [pass_unknown]; rfl
      | primitive kind => rw [pass_primitive]; rfl
      | composite parts inner => exact absurd hleaf (by simp [Instance.isComposite])
    rw [Instance.throughout_leaf hleaf']
    exact h i inputs ((Instance.throughout_leaf hleaf).1 hP)
  | composite part expanded s parts inner ih =>
    intro hP inputs
    rw [Instance.throughout_composite] at hP
    have hQ := h _ inputs hP.1
    rw [pass_composite] at hQ ⊢
    refine Instance.throughout_composite.2 ⟨hQ, throughout_iff.2 fun j hj => ?_⟩
    obtain ⟨i, hi, inputs', rfl⟩ := mem_passAll hj
    exact ih i hi (throughout_iff.1 hP.2 i hi) inputs'

theorem throughout_passAll (h : ∀ i inputs, P i → Q (i.pass catalog inputs).1)
    {scope : List Instance} (hP : Throughout P scope) :
    Throughout Q (passAll catalog wires inherited scope).1 := by
  refine throughout_iff.2 fun j hj => ?_
  obtain ⟨i, hi, inputs, rfl⟩ := mem_passAll hj
  exact throughout_pass h i (throughout_iff.1 hP i hi) inputs

end Throughout

/-! ## A pass that tells that nothing changed -/

/-- A chip without parts that is no flip-flop has no single output of another name than `OUT`. -/
def Instance.Tidy (i : Instance) : Prop :=
  match i.body with
  | .composite .. | .primitive .dff => True
  | _ => i.signals.outputs.size = 1 → ∃ bit, i.signals.outputs.get? outPin = some bit

theorem tidy_pass (i : Instance) (inputs : Pins) : (i.pass catalog inputs).1.Tidy := by
  obtain ⟨part, expanded, s, body⟩ := i
  cases body with
  | unknown =>
    rw [pass_unknown]
    intro _
    exact ⟨false, by simp⟩
  | composite parts inner =>
    rw [pass_composite]
    exact trivial
  | primitive kind =>
    rw [pass_primitive]
    by_cases hk : kind = .dff
    · subst hk
      exact trivial
    · rw [compute_gate hk]
      cases kind with
      | dff => exact absurd rfl hk
      | input | and | or | nand | not | xor => exact fun _ => ⟨_, by simp; rfl⟩

/-- **A pass leaves only tidy instances behind**, at every depth. -/
theorem throughout_tidy_passAll (scope : List Instance) :
    Throughout Instance.Tidy (passAll catalog wires inherited scope).1 :=
  throughout_passAll (P := fun _ => True) (fun i inputs _ => tidy_pass i inputs)
    fun _ _ => trivial

/-- The outputs of a tidy chip that a pass would not drive anew. -/
theorem outOnly_of_isDriven {s : Signals} {bit : Bool} (h : s.isDriven bit = true)
    (htidy : s.outputs.size = 1 → ∃ b, s.outputs.get? outPin = some b) :
    s.outputs = outOnly bit := by
  obtain ⟨hsize, hout⟩ := Signals.isDriven_iff.1 h
  obtain ⟨b, hb⟩ := htidy hsize
  have hbit : b = bit := by
    rw [← hout, Signals.output, hb]
    rfl
  subst hbit
  exact NameMap.ext_entries (NameMap.entries_eq_singleton hsize hb)

theorem scope_atRest_of_quiet {s : Scope}
    (hpass : ∀ i ∈ s.instances, ∀ inputs, (i.pass catalog inputs).2 = false →
      i.AtRest catalog inputs)
    (h : (passAll catalog s.wires s.inherited s.instances).2 = false) : s.AtRest catalog := by
  -- instance by instance the pass gives back what it got, so it gives back the scope
  have hout : (passAll catalog s.wires s.inherited s.instances).1.map id = s.instances.map id := by
    refine map_passAll fun k i hk => ?_
    have hrest := hpass i (List.mem_of_getElem? hk) _ (quiet_iff.1 h k i hk)
    exact congrArg Prod.fst hrest
  rw [List.map_id, List.map_id] at hout
  exact Prod.ext hout h

theorem Instance.atRest_of_quiet (i : Instance) :
    i.Throughout Tidy → ∀ inputs, (i.pass catalog inputs).2 = false → i.AtRest catalog inputs := by
  induction i using Instance.induct with
  | leaf i hleaf =>
    intro htidy inputs h
    rw [throughout_leaf hleaf] at htidy
    obtain ⟨part, expanded, s, body⟩ := i
    cases body with
    | composite parts inner => exact absurd hleaf (by simp [isComposite])
    | unknown =>
      obtain ⟨hag, hdriven, hvalue⟩ := quiet_unknown.1 h
      exact atRest_unknown.2 ⟨hag, hvalue, outOnly_of_isDriven hdriven htidy⟩
    | primitive kind =>
      by_cases hk : kind = .dff
      · subst hk
        exact atRest_flipFlop.2 (quiet_flipFlop.1 h)
      · obtain ⟨hag, hdriven, hvalue⟩ := (quiet_gate hk).1 h
        refine (atRest_gate hk).2 ⟨hag, hvalue, outOnly_of_isDriven hdriven ?_⟩
        cases kind with
        | dff => exact absurd rfl hk
        | input | and | or | nand | not | xor => exact htidy
  | composite part expanded s parts inner ih =>
    intro htidy inputs h
    rw [throughout_composite] at htidy
    obtain ⟨hag, hinside, hpublished, hmain⟩ := quiet_composite.1 h
    have hrest : Scope.AtRest catalog ⟨parts, inner, s.inputs⟩ :=
      scope_atRest_of_quiet (fun i hi => ih i hi (throughout_iff.1 htidy.2 i hi)) hinside
    rw [congrArg Prod.fst hrest] at hpublished hmain
    exact atRest_composite.2 ⟨hag, hrest, hpublished, hmain⟩

/-- **A pass that tells that nothing changed has changed nothing**, in a tidy scope. -/
theorem Scope.atRest_of_quiet {s : Scope} (htidy : Throughout Instance.Tidy s.instances)
    (h : (passAll catalog s.wires s.inherited s.instances).2 = false) : s.AtRest catalog :=
  scope_atRest_of_quiet
    (fun i hi => i.atRest_of_quiet (throughout_iff.1 htidy i hi)) h

end Breadboard
