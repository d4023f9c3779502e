import Breadboard.Proofs.Scope

/-!
# The pass, instance by instance

A pass updates the instances of a scope in place, so the `k`-th instance sees a scope that is half
old and half new: `midway before after k`.

* `passAll_spec`: the `k`-th result of a pass over a scope, and when the pass changes nothing, told
  by what the single instances do in the scope that they see;
* `quiet_unknown`, `quiet_flipFlop`, `quiet_gate`, `quiet_composite`: when the pass over one
  instance changes nothing, body by body;
* `Instance.AtRest`, `Scope.AtRest`: a pass gives back the very same state and says that nothing
  changed. A scope is at rest iff its instances are (`Scope.atRest_iff`), and then so is every
  scope inside it (`Scope.AtRest.holds`).
-/

namespace Breadboard

variable {catalog : Catalog} {wires : List Wire} {inherited inputs : Pins}

/-- One pass over an instance whose wires are read in `scope`. -/
def Instance.passIn (catalog : Catalog) (wires : List Wire) (inherited : Pins)
    (scope : List Instance) (i : Instance) : Instance × Bool :=
  i.pass catalog (resolveInputs catalog scope wires inherited i.part)

/-- The scope as its `k`-th instance sees it in the pass from `before` to `after`. -/
def midway (before after : List Instance) (k : Nat) : List Instance :=
  after.take k ++ before.drop k

@[simp] theorem midway_self (scope : List Instance) (k : Nat) : midway scope scope k = scope :=
  List.take_append_drop k scope

theorem getElem?_midway {before after : List Instance} {k : Nat} (hk : k ≤ after.length) (j : Nat) :
    (midway before after k)[j]? = if j < k then after[j]? else before[j]? := by
  unfold midway
  split
  · rename_i hj
    rw [List.getElem?_append_left (by rw [List.length_take]; omega), List.getElem?_take_of_lt hj]
  · rename_i hj
    have hlen : (after.take k).length = k := by rw [List.length_take]; omega
    rw [List.getElem?_append_right (by omega), hlen, List.getElem?_drop]
    congr 1
    omega

theorem map_midway {α : Type} {f : Instance → α} {before after : List Instance}
    (h : after.map f = before.map f) (k : Nat) : (midway before after k).map f = before.map f := by
  unfold midway
  rw [List.map_append, List.map_take, List.map_drop, h, List.take_append_drop]

/-! ## A pass over a scope -/

theorem passFrom_cons (visited : List Instance) (i : Instance) (rest : List Instance) :
    passFrom catalog wires inherited visited (i :: rest) =
      ((i.passIn catalog wires inherited (visited ++ i :: rest)).1 ::
        (passFrom catalog wires inherited
          (visited ++ [(i.passIn catalog wires inherited (visited ++ i :: rest)).1]) rest).1,
      (i.passIn catalog wires inherited (visited ++ i :: rest)).2 ||
        (passFrom catalog wires inherited
          (visited ++ [(i.passIn catalog wires inherited (visited ++ i :: rest)).1]) rest).2) := by
  rw [passFrom]
  rfl

theorem length_passFrom (visited scope : List Instance) :
    (passFrom catalog wires inherited visited scope).1.length = scope.length := by
  induction scope generalizing visited with
  | nil => rw [passFrom]
  | cons i rest ih => rw [passFrom_cons, List.length_cons, List.length_cons, ih]

/-- What an instance sees after the first one has made its pass, told from either end. -/
theorem append_midway_cons (visited rest after : List Instance) (i i' : Instance) (k : Nat) :
    visited ++ midway (i :: rest) (i' :: after) (k + 1) =
      visited ++ [i'] ++ midway rest after k := by
  simp [midway]

theorem getElem?_passFrom (visited scope : List Instance) :
    ∀ (k : Nat) (i : Instance), scope[k]? = some i →
      (passFrom catalog wires inherited visited scope).1[k]? =
        some (i.passIn catalog wires inherited
          (visited ++ midway scope (passFrom catalog wires inherited visited scope).1 k)).1 := by
  induction scope generalizing visited with
  | nil => exact fun k i h => absurd h (by simp)
  | cons i rest ih =>
    intro k j hj
    rw [passFrom_cons]
    cases k with
    | zero =>
      cases hj
      rfl
    | succ k =>
      rw [append_midway_cons]
      exact ih _ k j hj

theorem passFrom_quiet_iff (visited scope : List Instance) :
    (passFrom catalog wires inherited visited scope).2 = false ↔
      ∀ (k : Nat) (i : Instance), scope[k]? = some i →
        (i.passIn catalog wires inherited
          (visited ++ midway scope (passFrom catalog wires inherited visited scope).1 k)).2 =
            false := by
  induction scope generalizing visited with
  | nil =>
    rw [passFrom]
    exact ⟨fun _ k i h => absurd h (by simp), fun _ => rfl⟩
  | cons i rest ih =>
    rw [passFrom_cons, Bool.or_eq_false_iff, ih]
    constructor
    · rintro ⟨hfirst, hlater⟩ k j hj
      cases k with
      | zero =>
        cases hj
        exact hfirst
      | succ k =>
        rw [append_midway_cons]
        exact hlater k j hj
    · intro h
      refine ⟨h 0 i rfl, fun k j hj => ?_⟩
      rw [← append_midway_cons]
      exact h (k + 1) j hj

theorem length_passAll (scope : List Instance) :
    (passAll catalog wires inherited scope).1.length = scope.length :=
  length_passFrom [] scope

/-- **A pass over a scope**: each instance makes its own pass in the scope as it sees it. -/
theorem passAll_spec {scope : List Instance} {k : Nat} {i : Instance} (hi : scope[k]? = some i) :
    (passAll catalog wires inherited scope).1[k]? = some (i.passIn catalog wires inherited
      (midway scope (passAll catalog wires inherited scope).1 k)).1 :=
  getElem?_passFrom [] scope k i hi

/-- **A pass changes nothing** iff no instance changes in the scope as it sees it. -/
theorem quiet_iff {scope : List Instance} :
    (passAll catalog wires inherited scope).2 = false ↔
      ∀ (k : Nat) (i : Instance), scope[k]? = some i → (i.passIn catalog wires inherited
        (midway scope (passAll catalog wires inherited scope).1 k)).2 = false :=
  passFrom_quiet_iff [] scope

/-! ## The pass over one instance -/

theorem pass_unknown (part : Part) (expanded : Bool) (s : Signals) :
    Instance.pass catalog inputs ⟨part, expanded, s, .unknown⟩ =
      (⟨part, expanded, (s.receive inputs).drive false, .unknown⟩,
        !s.inputs.agree inputs || !(s.receive inputs).isDriven false ||
          !s.isSteady ((s.receive inputs).drive false)) := by
  rw [Instance.pass]

theorem pass_primitive (part : Part) (expanded : Bool) (s : Signals) (kind : PrimitiveKind) :
    Instance.pass catalog inputs ⟨part, expanded, s, .primitive kind⟩ =
      (⟨part, expanded, (s.receive inputs).compute kind (catalog.inputsOf part.chip),
          .primitive kind⟩,
        !s.inputs.agree inputs ||
          !(kind.isEdgeTriggered || (s.receive inputs).isDriven
            ((s.receive inputs).compute kind (catalog.inputsOf part.chip)).value) ||
          !s.isSteady ((s.receive inputs).compute kind (catalog.inputsOf part.chip))) := by
  rw [Instance.pass]

theorem pass_composite (part : Part) (expanded : Bool) (s : Signals) (parts : List Instance)
    (inner : List Wire) :
    Instance.pass catalog inputs ⟨part, expanded, s, .composite parts inner⟩ =
      (⟨part, expanded, (s.receive inputs).publish (catalog.pinMapOf part.chip)
          (passAll catalog inner (s.receive inputs).inputs parts).1,
          .composite (passAll catalog inner (s.receive inputs).inputs parts).1 inner⟩,
        !s.inputs.agree inputs || (passAll catalog inner (s.receive inputs).inputs parts).2 ||
          !(s.receive inputs).isPublished (catalog.pinMapOf part.chip)
            (passAll catalog inner (s.receive inputs).inputs parts).1 ||
          !s.isSteady ((s.receive inputs).publish (catalog.pinMapOf part.chip)
            (passAll catalog inner (s.receive inputs).inputs parts).1)) := by
  rw [Instance.pass]
  rfl

@[simp] theorem pass_part (i : Instance) : (i.pass catalog inputs).1.part = i.part := by
  obtain ⟨part, expanded, s, body⟩ := i
  cases body with
  | unknown => rw [pass_unknown]
  | primitive kind => rw [pass_primitive]
  | composite parts inner => rw [pass_composite]

/-- What each pass over an instance leaves alone, the pass over the scope leaves alone. -/
theorem map_passAll {α : Type} {f : Instance → α} {scope : List Instance}
    (h : ∀ (k : Nat) (i : Instance), scope[k]? = some i →
      f (i.passIn catalog wires inherited
        (midway scope (passAll catalog wires inherited scope).1 k)).1 = f i) :
    (passAll catalog wires inherited scope).1.map f = scope.map f := by
  refine map_eq_map_of_getElem? (length_passAll scope) fun k after i hafter hk => ?_
  rw [passAll_spec hk] at hafter
  cases hafter
  exact h k i hk

/-- A pass leaves every part in its place. -/
theorem map_part_passAll (scope : List Instance) :
    (passAll catalog wires inherited scope).1.map Instance.part = scope.map Instance.part :=
  map_passAll fun _ i _ => pass_part i

theorem map_id_passAll (scope : List Instance) :
    (passAll catalog wires inherited scope).1.map Instance.id = scope.map Instance.id := by
  have h : (passAll catalog wires inherited scope).1.map Instance.part =
      scope.map Instance.part := map_part_passAll scope
  have hids := congrArg (List.map Part.id) h
  simp only [List.map_map] at hids
  exact hids

theorem compute_gate {kind : PrimitiveKind} (hk : kind ≠ .dff) (s : Signals)
    (declared : List String) :
    s.compute kind declared =
      s.drive (kind.evaluate (s.bit declared 0) (s.bit declared 1) s.value) := by
  cases kind <;> first | rfl | exact absurd rfl hk

/-! ## When the pass over one instance changes nothing -/

theorem agree_of_quiet {i : Instance} (h : (i.pass catalog inputs).2 = false) :
    i.signals.inputs.agree inputs = true := by
  obtain ⟨part, expanded, s, body⟩ := i
  cases body with
  | unknown =>
    rw [pass_unknown] at h
    simp only [Bool.or_eq_false_iff, Bool.not_eq_false'] at h
    exact h.1.1
  | primitive kind =>
    rw [pass_primitive] at h
    simp only [Bool.or_eq_false_iff, Bool.not_eq_false'] at h
    exact h.1.1
  | composite parts inner =>
    rw [pass_composite] at h
    simp only [Bool.or_eq_false_iff, Bool.not_eq_false'] at h
    exact h.1.1.1

theorem quiet_unknown {part : Part} {expanded : Bool} {s : Signals} :
    (Instance.pass catalog inputs ⟨part, expanded, s, .unknown⟩).2 = false ↔
      s.inputs.agree inputs = true ∧ s.isDriven false = true ∧ s.value = false := by
  constructor
  · intro h
    have hag := agree_of_quiet h
    rw [pass_unknown] at h
    rw [Signals.receive_of_agree hag] at h
    simp only [Bool.or_eq_false_iff, Bool.not_eq_false', Signals.isSteady_iff] at h
    exact ⟨hag, h.1.2, h.2.1⟩
  · rintro ⟨hag, hdriven, hvalue⟩
    rw [pass_unknown, Signals.receive_of_agree hag]
    simp [hag, hdriven, Signals.isSteady, hvalue]

theorem quiet_flipFlop {part : Part} {expanded : Bool} {s : Signals} :
    (Instance.pass catalog inputs ⟨part, expanded, s, .primitive .dff⟩).2 = false ↔
      s.inputs.agree inputs = true ∧ s.next = s.bit (catalog.inputsOf part.chip) 0 := by
  constructor
  · intro h
    have hag := agree_of_quiet h
    rw [pass_primitive] at h
    rw [Signals.receive_of_agree hag] at h
    simp only [Bool.or_eq_false_iff, Bool.not_eq_false', Signals.isSteady_iff] at h
    exact ⟨hag, h.2.2⟩
  · rintro ⟨hag, hnext⟩
    rw [pass_primitive, Signals.receive_of_agree hag]
    simp [hag, PrimitiveKind.isEdgeTriggered, Signals.isSteady, Signals.compute, ← hnext]

theorem quiet_gate {part : Part} {expanded : Bool} {s : Signals} {kind : PrimitiveKind}
    (hk : kind ≠ .dff) :
    (Instance.pass catalog inputs ⟨part, expanded, s, .primitive kind⟩).2 = false ↔
      s.inputs.agree inputs = true ∧ s.isDriven s.value = true ∧
        s.value = kind.evaluate (s.bit (catalog.inputsOf part.chip) 0)
          (s.bit (catalog.inputsOf part.chip) 1) s.value := by
  have hedge : kind.isEdgeTriggered = false := by
    cases kind <;> first | rfl | exact absurd rfl hk
  constructor
  · intro h
    have hag := agree_of_quiet h
    rw [pass_primitive] at h
    rw [Signals.receive_of_agree hag, compute_gate hk] at h
    simp only [hedge, Bool.false_or, Bool.or_eq_false_iff, Bool.not_eq_false',
      Signals.isSteady_iff, Signals.drive_value] at h
    refine ⟨hag, ?_, h.2.1⟩
    rw [h.2.1]
    exact h.1.2
  · rintro ⟨hag, hdriven, hvalue⟩
    rw [pass_primitive, Signals.receive_of_agree hag, compute_gate hk]
    simp [hag, hedge, Signals.isSteady, ← hvalue, hdriven]

theorem quiet_composite {part : Part} {expanded : Bool} {s : Signals} {parts : List Instance}
    {inner : List Wire} :
    (Instance.pass catalog inputs ⟨part, expanded, s, .composite parts inner⟩).2 = false ↔
      s.inputs.agree inputs = true ∧ (passAll catalog inner s.inputs parts).2 = false ∧
        (∀ e ∈ (catalog.pinMapOf part.chip).outputs.entries,
          s.outputs.get? e.1 = some (e.2.read (passAll catalog inner s.inputs parts).1)) ∧
        ∀ id, (catalog.pinMapOf part.chip).main = some id →
          s.value = mainOutput (passAll catalog inner s.inputs parts).1 id := by
  have hsteady : s.isSteady (s.publish (catalog.pinMapOf part.chip)
      (passAll catalog inner s.inputs parts).1) = true ↔
        ∀ id, (catalog.pinMapOf part.chip).main = some id →
          s.value = mainOutput (passAll catalog inner s.inputs parts).1 id := by
    rw [Signals.isSteady_iff]
    unfold Signals.publish
    cases (catalog.pinMapOf part.chip).main <;> simp
  constructor
  · intro h
    have hag := agree_of_quiet h
    rw [pass_composite] at h
    rw [Signals.receive_of_agree hag] at h
    simp only [Bool.or_eq_false_iff, Bool.not_eq_false', Signals.isPublished_iff, hsteady] at h
    exact ⟨hag, h.1.1.2, h.1.2, h.2⟩
  · rintro ⟨hag, hinside, hpublished, hmain⟩
    rw [pass_composite, Signals.receive_of_agree hag]
    simp only [Bool.or_eq_false_iff, Bool.not_eq_false', Signals.isPublished_iff, hsteady]
    exact ⟨⟨⟨hag, hinside⟩, hpublished⟩, hmain⟩

end Breadboard
