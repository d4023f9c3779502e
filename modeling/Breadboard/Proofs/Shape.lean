import Breadboard.Proofs.Kept
import Breadboard.Proofs.Stimulus

/-!
# The shape of a circuit

`Instance.blank` forgets every signal, and whether insides are drawn: what is left are the parts,
the bodies and the wires at every depth. Passes, toggles, clock edges and drawing do not change it
(`blankAll_settle`, `blankAll_toggleInput`, `blankAll_commitAll`, `blankAll_draw`).

Two circuits of one shape have the same ids on the same seats, and the scopes inside them match one
by one (`Scope.Holds.of_blank`).
-/

namespace Breadboard

mutual

/-- The instance without its signals. -/
def Instance.blank : Instance → Instance
  | ⟨part, _, _, body⟩ =>
    match body with
    | .unknown => { part, body := .unknown }
    | .primitive kind => { part, body := .primitive kind }
    | .composite parts wires => { part, body := .composite (blankAll parts) wires }

/-- The instances of a scope without their signals. -/
def blankAll : List Instance → List Instance
  | [] => []
  | i :: rest => i.blank :: blankAll rest

end

variable {catalog : Catalog} {wires : List Wire} {inherited inputs : Pins}

theorem blank_unknown (part : Part) (expanded : Bool) (s : Signals) :
    Instance.blank ⟨part, expanded, s, .unknown⟩ = { part, body := .unknown } := by
  rw [Instance.blank]

theorem blank_primitive (part : Part) (expanded : Bool) (s : Signals) (kind : PrimitiveKind) :
    Instance.blank ⟨part, expanded, s, .primitive kind⟩ = { part, body := .primitive kind } := by
  rw [Instance.blank]

theorem blank_composite (part : Part) (expanded : Bool) (s : Signals) (parts : List Instance)
    (inner : List Wire) :
    Instance.blank ⟨part, expanded, s, .composite parts inner⟩ =
      { part, body := .composite (blankAll parts) inner } := by
  rw [Instance.blank]

theorem blankAll_eq_map (scope : List Instance) : blankAll scope = scope.map Instance.blank := by
  induction scope with
  | nil => rw [blankAll]; rfl
  | cons i rest ih => rw [blankAll, ih]; rfl

@[simp] theorem blank_part (i : Instance) : i.blank.part = i.part := by
  obtain ⟨part, expanded, s, body⟩ := i
  cases body with
  | unknown => rw [blank_unknown]
  | primitive kind => rw [blank_primitive]
  | composite parts inner => rw [blank_composite]

theorem id_of_blank {i j : Instance} (h : i.blank = j.blank) : i.id = j.id := by
  unfold Instance.id
  rw [← blank_part i, h, blank_part]

/-- A chip whose main output waits for a toggle or for the clock. -/
def Instance.isStored (i : Instance) : Bool :=
  match i.body with
  | .primitive .input | .primitive .dff => true
  | _ => false

theorem isComposite_blank (i : Instance) : i.blank.isComposite = i.isComposite := by
  obtain ⟨part, expanded, s, body⟩ := i
  cases body with
  | unknown => rw [blank_unknown]; rfl
  | primitive => rw [blank_primitive]; rfl
  | composite => rw [blank_composite]; rfl

theorem isStored_blank (i : Instance) : i.blank.isStored = i.isStored := by
  obtain ⟨part, expanded, s, body⟩ := i
  cases body with
  | unknown => rw [blank_unknown]; rfl
  | primitive => rw [blank_primitive]; rfl
  | composite => rw [blank_composite]; rfl

theorem isInput_blank (i : Instance) : i.blank.isInput = i.isInput := by
  obtain ⟨part, expanded, s, body⟩ := i
  cases body with
  | unknown => rw [blank_unknown]; rfl
  | primitive => rw [blank_primitive]; rfl
  | composite => rw [blank_composite]; rfl

theorem isComposite_of_blank {i j : Instance} (h : i.blank = j.blank) :
    i.isComposite = j.isComposite := by
  rw [← isComposite_blank i, ← isComposite_blank j, h]

theorem isStored_of_blank {i j : Instance} (h : i.blank = j.blank) : i.isStored = j.isStored := by
  rw [← isStored_blank i, ← isStored_blank j, h]

theorem isInput_of_blank {i j : Instance} (h : i.blank = j.blank) : i.isInput = j.isInput := by
  rw [← isInput_blank i, ← isInput_blank j, h]

theorem isComposite_of_isStored {i : Instance} (h : i.isStored = true) : i.isComposite = false := by
  obtain ⟨part, expanded, s, body⟩ := i
  cases body with
  | composite => exact absurd h (by simp [Instance.isStored])
  | unknown | primitive => rfl

/-- What an instance of the shape of a composite is. -/
theorem blank_eq_composite {i : Instance} {part : Part} {expanded : Bool} {s : Signals}
    {parts : List Instance} {inner : List Wire}
    (h : i.blank = Instance.blank ⟨part, expanded, s, .composite parts inner⟩) :
    ∃ expanded' s' parts', i = ⟨part, expanded', s', .composite parts' inner⟩ ∧
      blankAll parts' = blankAll parts := by
  obtain ⟨part', expanded', s', body⟩ := i
  rw [blank_composite] at h
  cases body with
  | unknown =>
    rw [blank_unknown] at h
    simp at h
  | primitive kind =>
    rw [blank_primitive] at h
    simp at h
  | composite parts' inner' =>
    rw [blank_composite] at h
    simp only [Instance.mk.injEq, Body.composite.injEq, true_and] at h
    obtain ⟨rfl, hparts, rfl⟩ := h
    exact ⟨expanded', s', parts', rfl, hparts⟩

/-- What an instance of the shape of a chip that nothing is known of is. -/
theorem blank_eq_unknown {i : Instance} {part : Part} {expanded : Bool} {s : Signals}
    (h : i.blank = Instance.blank ⟨part, expanded, s, .unknown⟩) :
    ∃ expanded' s', i = ⟨part, expanded', s', .unknown⟩ := by
  obtain ⟨part', expanded', s', body⟩ := i
  rw [blank_unknown] at h
  cases body with
  | unknown =>
    rw [blank_unknown] at h
    simp only [Instance.mk.injEq, and_true] at h
    obtain rfl := h
    exact ⟨expanded', s', rfl⟩
  | primitive kind =>
    rw [blank_primitive] at h
    simp at h
  | composite parts inner =>
    rw [blank_composite] at h
    simp at h

/-- What an instance of the shape of a primitive is. -/
theorem blank_eq_primitive {i : Instance} {part : Part} {expanded : Bool} {s : Signals}
    {kind : PrimitiveKind} (h : i.blank = Instance.blank ⟨part, expanded, s, .primitive kind⟩) :
    ∃ expanded' s', i = ⟨part, expanded', s', .primitive kind⟩ := by
  obtain ⟨part', expanded', s', body⟩ := i
  rw [blank_primitive] at h
  cases body with
  | unknown =>
    rw [blank_unknown] at h
    simp at h
  | primitive kind' =>
    rw [blank_primitive] at h
    simp only [Instance.mk.injEq, Body.primitive.injEq, true_and] at h
    obtain ⟨rfl, rfl⟩ := h
    exact ⟨expanded', s', rfl⟩
  | composite parts inner =>
    rw [blank_composite] at h
    simp at h

/-! ## The kind of a body -/

/-- Is it a flip-flop? -/
def Instance.isFlipFlop (i : Instance) : Bool :=
  match i.body with
  | .primitive .dff => true
  | _ => false

/-- The body without its parts: what kind it is, and the wires of a composite. -/
def Body.hollow {α : Type} : Body α → Body α
  | .composite _ wires => .composite [] wires
  | body => body

theorem body_of_isFlipFlop {i : Instance} (h : i.isFlipFlop = true) : i.body = .primitive .dff := by
  unfold Instance.isFlipFlop at h
  split at h
  · assumption
  · exact absurd h (by simp)

theorem isStored_of_isFlipFlop {i : Instance} (h : i.isFlipFlop = true) : i.isStored = true := by
  unfold Instance.isStored
  rw [body_of_isFlipFlop h]

theorem isInput_of_isFlipFlop {i : Instance} (h : i.isFlipFlop = true) : i.isInput = false := by
  unfold Instance.isInput
  rw [body_of_isFlipFlop h]

theorem isFlipFlop_of_hollow {i j : Instance} (h : j.body.hollow = i.body.hollow) :
    j.isFlipFlop = i.isFlipFlop := by
  obtain ⟨part, expanded, s, body⟩ := i
  obtain ⟨part', expanded', s', body'⟩ := j
  cases body <;> cases body' <;> simp_all [Body.hollow, Instance.isFlipFlop]

theorem isInput_of_hollow {i j : Instance} (h : j.body.hollow = i.body.hollow) :
    j.isInput = i.isInput := by
  obtain ⟨part, expanded, s, body⟩ := i
  obtain ⟨part', expanded', s', body'⟩ := j
  cases body <;> cases body' <;> simp_all [Body.hollow, Instance.isInput]

/-! ## Circuits of one shape -/

theorem map_id_of_blankAll {scope scope' : List Instance} (h : blankAll scope = blankAll scope') :
    scope.map Instance.id = scope'.map Instance.id := by
  have hmap : ∀ l : List Instance, l.map Instance.id = (blankAll l).map Instance.id := by
    intro l
    rw [blankAll_eq_map, List.map_map]
    refine List.map_congr_left fun i _ => ?_
    exact congrArg Part.id (blank_part i).symm
  rw [hmap scope, hmap scope', h]

theorem map_part_of_blankAll {scope scope' : List Instance} (h : blankAll scope = blankAll scope') :
    scope.map Instance.part = scope'.map Instance.part := by
  have hmap : ∀ l : List Instance, l.map Instance.part = (blankAll l).map Instance.part := by
    intro l
    rw [blankAll_eq_map, List.map_map]
    exact List.map_congr_left fun i _ => (blank_part i).symm
  rw [hmap scope, hmap scope', h]

theorem length_of_blankAll {scope scope' : List Instance} (h : blankAll scope = blankAll scope') :
    scope.length = scope'.length := by
  have hmap := congrArg List.length h
  rwa [blankAll_eq_map, blankAll_eq_map, List.length_map, List.length_map] at hmap

/-- The places of two circuits of one shape. -/
theorem getElem?_of_blankAll {scope scope' : List Instance} (h : blankAll scope = blankAll scope')
    {k : Nat} {i : Instance} (hi : scope[k]? = some i) :
    ∃ i', scope'[k]? = some i' ∧ i'.blank = i.blank := by
  rw [blankAll_eq_map, blankAll_eq_map] at h
  exact getElem?_of_map_eq h hi

theorem blank_of_blankAll {scope scope' : List Instance} (h : blankAll scope = blankAll scope')
    {k : Nat} {i i' : Instance} (hi : scope[k]? = some i) (hi' : scope'[k]? = some i') :
    i.blank = i'.blank := by
  rw [blankAll_eq_map, blankAll_eq_map] at h
  exact eq_of_map_eq h hi hi'

/-- **The scopes inside two circuits of one shape match one by one.** -/
theorem Scope.Holds.of_blank {s t : Scope} (h : s.Holds t) :
    ∀ {s' : Scope}, blankAll s'.instances = blankAll s.instances → s'.wires = s.wires →
      ∃ t', s'.Holds t' ∧ blankAll t'.instances = blankAll t.instances ∧ t'.wires = t.wires := by
  induction h with
  | refl s => exact fun {s'} hb hw => ⟨s', .refl s', hb, hw⟩
  | @inside s t part expanded signals parts inner hi _ ih =>
    intro s' hb hw
    obtain ⟨k, hget⟩ := List.mem_iff_getElem?.1 hi
    obtain ⟨i', hi', hblank⟩ := getElem?_of_blankAll hb.symm hget
    obtain ⟨expanded', signals', parts', rfl, hparts⟩ := blank_eq_composite hblank
    let inside : Scope := ⟨parts', inner, signals'.inputs⟩
    obtain ⟨t', ht', hrest⟩ := @ih inside hparts rfl
    exact ⟨t', .inside (List.mem_of_getElem? hi') ht', hrest⟩

/-! ## What leaves the shape alone -/

/-- What is kept has the shape of the whole. -/
theorem blank_kept (i : Instance) : i.kept.blank = i.blank := by
  induction i using Instance.induct with
  | leaf i hleaf =>
    obtain ⟨part, expanded, s, body⟩ := i
    cases body with
    | composite parts inner => exact absurd hleaf (by simp [Instance.isComposite])
    | unknown => rw [kept_unknown, blank_unknown, blank_unknown]
    | primitive kind => rw [kept_primitive, blank_primitive, blank_primitive]
  | composite part expanded s parts inner ih =>
    have hparts : blankAll (keptAll parts) = blankAll parts := by
      rw [keptAll_eq_map, blankAll_eq_map, blankAll_eq_map, List.map_map]
      exact List.map_congr_left ih
    rw [kept_composite, blank_composite, blank_composite, hparts]

theorem blank_of_kept {i j : Instance} (h : i.kept = j.kept) : i.blank = j.blank := by
  rw [← blank_kept i, ← blank_kept j, h]

/-- **Circuits that keep the same are of one shape.** -/
theorem blankAll_of_keptAll {scope scope' : List Instance} (h : keptAll scope = keptAll scope') :
    blankAll scope = blankAll scope' := by
  have hmap : ∀ l : List Instance, blankAll l = (keptAll l).map Instance.blank := by
    intro l
    rw [keptAll_eq_map, blankAll_eq_map, List.map_map]
    exact List.map_congr_left fun i _ => (blank_kept i).symm
  rw [hmap scope, hmap scope', h]

/-- What is a matter of what is kept holds throughout both of two instances that keep the same, or
throughout neither. -/
theorem throughout_of_kept {P : Instance → Prop} (h : ∀ i j : Instance, i.kept = j.kept → P i → P j)
    (i : Instance) : ∀ j : Instance, i.kept = j.kept → i.Throughout P → j.Throughout P := by
  induction i using Instance.induct with
  | leaf i hleaf =>
    intro j hkept hP
    have hleaf' : j.isComposite = false := isComposite_of_blank (blank_of_kept hkept) ▸ hleaf
    exact (Instance.throughout_leaf hleaf').2 (h i j hkept ((Instance.throughout_leaf hleaf).1 hP))
  | composite part expanded s parts inner ih =>
    intro j hkept hP
    rw [Instance.throughout_composite] at hP
    have hown := h _ j hkept hP.1
    obtain ⟨s', parts', rfl, hparts⟩ := kept_eq_composite hkept.symm
    refine Instance.throughout_composite.2 ⟨hown, throughout_iff.2 fun p' hp' => ?_⟩
    obtain ⟨k, hk⟩ := List.mem_iff_getElem?.1 hp'
    obtain ⟨p, hp, hpkept⟩ := getElem?_of_keptAll hparts hk
    have hmem := List.mem_of_getElem? hp
    exact ih p hmem p' hpkept (throughout_iff.1 hP.2 p hmem)

theorem throughout_of_keptAll {P : Instance → Prop}
    (h : ∀ i j : Instance, i.kept = j.kept → P i → P j) {scope scope' : List Instance}
    (hkept : keptAll scope = keptAll scope') (hP : Throughout P scope) : Throughout P scope' := by
  refine throughout_iff.2 fun j hj => ?_
  obtain ⟨k, hk⟩ := List.mem_iff_getElem?.1 hj
  obtain ⟨i, hi, hij⟩ := getElem?_of_keptAll hkept.symm hk
  exact throughout_of_kept h i j hij (throughout_iff.1 hP i (List.mem_of_getElem? hi))

theorem blankAll_settle (limit : Nat) (scope : List Instance) :
    blankAll (settle catalog wires limit scope).1 = blankAll scope :=
  blankAll_of_keptAll (keptAll_settle limit scope)

theorem blank_commit (i : Instance) : i.commit.1.blank = i.blank := by
  induction i using Instance.induct with
  | leaf i hleaf =>
    by_cases hk : i.body = .primitive .dff
    · obtain ⟨part, expanded, s, body⟩ := i
      cases hk
      rw [commit_flipFlop, blank_primitive, blank_primitive]
    · rw [commit_leaf hleaf hk]
  | composite part expanded s parts inner ih =>
    have hparts : blankAll (commitAll parts).1 = blankAll parts := by
      rw [commitAll_fst, blankAll_eq_map, blankAll_eq_map, List.map_map]
      exact List.map_congr_left ih
    rw [commit_composite, blank_composite, blank_composite, hparts]

/-- A clock edge leaves the shape alone. -/
theorem blankAll_commitAll (scope : List Instance) :
    blankAll (commitAll scope).1 = blankAll scope := by
  rw [commitAll_fst, blankAll_eq_map, blankAll_eq_map, List.map_map]
  exact List.map_congr_left fun i _ => blank_commit i

/-- The shape of an instance is a matter of its part and its body. -/
theorem blank_congr {i j : Instance} (hpart : i.part = j.part) (hbody : i.body = j.body) :
    i.blank = j.blank := by
  obtain ⟨part, expanded, s, body⟩ := i
  obtain ⟨part', expanded', s', body'⟩ := j
  cases hpart
  cases hbody
  cases body with
  | unknown => rw [blank_unknown, blank_unknown]
  | primitive kind => rw [blank_primitive, blank_primitive]
  | composite parts inner => rw [blank_composite, blank_composite]

theorem blankAll_updateInstance {f : Instance → Instance} (h : ∀ i, (f i).blank = i.blank)
    (scope : List Instance) (id : String) :
    blankAll (updateInstance scope id f) = blankAll scope := by
  induction scope with
  | nil => rfl
  | cons i rest ih =>
    rw [updateInstance]
    split
    · rw [blankAll, blankAll, h]
    · rw [blankAll, blankAll, ih]

/-- A toggle leaves the shape alone. -/
theorem blankAll_toggleInput (scope : List Instance) (id : String) :
    blankAll (toggleInput scope id) = blankAll scope := by
  unfold toggleInput
  split
  · refine blankAll_updateInstance (fun i => ?_) scope id
    exact blank_congr rfl rfl
  · rfl

/-- Drawing leaves the shape alone. -/
theorem blankAll_draw (scope : List Instance) (id : String) (expanded : Bool) :
    blankAll (updateInstance scope id fun i => { i with expanded }) = blankAll scope := by
  refine blankAll_updateInstance (fun i => ?_) scope id
  exact blank_congr rfl rfl

end Breadboard
