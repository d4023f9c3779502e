import Breadboard.Proofs.Resaved

/-!
# What is stored determines what is kept

A circuit that was built from a catalog and only stimulated since has no memory but its switches and
flip-flops. Old bits could survive in three places: in outputs that no pass writes, in a main output
that no pin map names, and in the outputs of a flip-flop that was never clocked. The first two are
excluded by `Instance.Plain`, and priming the circuit removes the third.

* `Scope.SameStored`, `Scope.SameState`: the same bits in switches and flip-flops, and everywhere;
* `corresponds_of_agreeAll`, `instanceAt?_of_agreeAll`: circuits that agree agree at every place;
* `Instance.Grown`: what holds of such a circuit;
* **`keepsStored`**, `keptAll_primedAll_of`: two grown circuits of one shape that store the same
  keep the same, once both are primed.
-/

namespace Breadboard

variable {catalog : Catalog}

/-! ## The same state -/

/-- The instances are of one part and hold the same bits, as far as these can be read: pins may come
in another order, and a low output may be missing. -/
structure Instance.SameState (i j : Instance) : Prop where
  part : i.part = j.part
  value : i.value = j.value
  next : i.next = j.next
  inputs : ∀ pin, i.signals.inputs.get? pin = j.signals.inputs.get? pin
  output : ∀ pin, i.output pin = j.output pin

/-- The circuits have instances in the same state at every place. -/
def Scope.SameState (s t : Scope) : Prop :=
  ∀ path k, Option.Rel Instance.SameState (s.instanceAt? path k) (t.instanceAt? path k)

/-- Switches and flip-flops at the same places have the same bits. -/
def Scope.SameStored (s t : Scope) : Prop :=
  ∀ path k i j, s.instanceAt? path k = some i → t.instanceAt? path k = some j →
    i.isStored = true → i.value = j.value

theorem Scope.SameStored.inside {s t u v : Scope} (h : s.SameStored t) {k : Nat}
    (hu : s.inside? k = some u) (hv : t.inside? k = some v) : u.SameStored v := by
  intro path m i j hi hj
  refine h (k :: path) m i j ?_ ?_
  · unfold Scope.instanceAt? Scope.at?
    rw [hu]
    exact hi
  · unfold Scope.instanceAt? Scope.at?
    rw [hv]
    exact hj

/-- Circuits that keep the same store the same. -/
theorem sameStored_of_keptAll {s t : Scope} (h : keptAll s.instances = keptAll t.instances) :
    s.SameStored t := by
  intro path k i j hi hj hstored
  exact value_of_kept hstored (rel_some (instanceAt?_of_keptAll h path k) hi hj)

/-- Instances that agree are in the same state. -/
theorem sameState_of_agree {i j : Instance} (h : i.agree j = true) : i.SameState j := by
  obtain ⟨hpart, -, -, hsignals⟩ := Instance.agree_spec h
  obtain ⟨hvalue, hnext, hinputs, -⟩ := Signals.agree_iff.1 hsignals
  exact ⟨hpart, hvalue, hnext, hinputs, fun pin => Instance.read_of_agree h (some pin)⟩

theorem inside?_of_agree {i j : Instance} (h : i.agree j = true) :
    Option.Rel (fun u v => agreeAll u.instances v.instances = true) i.inside? j.inside? := by
  obtain ⟨part, expanded, s, body⟩ := i
  obtain ⟨part', expanded', s', body'⟩ := j
  rw [Instance.agree.eq_def, Bool.and_eq_true] at h
  cases body <;> cases body' <;> simp only [Bool.false_eq_true, and_false] at h
  · exact .none
  · exact .none
  · exact .some (Bool.and_eq_true _ _ ▸ h.2).1

/-- **Circuits that agree correspond.** -/
theorem corresponds_of_agreeAll {s t : Scope} (h : agreeAll s.instances t.instances = true) :
    s.Corresponds (fun i j => i.agree j = true) t := by
  refine Scope.corresponds_of (P := fun u v => agreeAll u.instances v.instances = true)
    (fun u v huv k => getElem?_rel_of_agreeAll huv k) (fun u v huv k => ?_) h
  exact rel_bind (fun _ _ hij => inside?_of_agree hij) (getElem?_rel_of_agreeAll huv k)

/-- Circuits that agree agree at every place. -/
theorem instanceAt?_of_agreeAll {s t : Scope} (h : agreeAll s.instances t.instances = true)
    (path : List Nat) (k : Nat) :
    Option.Rel (fun i j => i.agree j = true) (s.instanceAt? path k) (t.instanceAt? path k) :=
  (corresponds_of_agreeAll h).instanceAt? path k

/-! ## What was only stimulated -/

/-- Nobody has drawn the inside, and only a flip-flop takes down a next value. -/
structure Instance.Untouched (i : Instance) : Prop where
  expanded : i.expanded = false
  next : i.isFlipFlop = false → i.next = false

theorem Instance.Untouched.of_kept {i j : Instance} (h : i.Untouched) (hkept : j.kept = i.kept) :
    j.Untouched := by
  obtain ⟨part, expanded, s, body⟩ := i
  obtain ⟨hexpanded, hnext⟩ := h
  cases body with
  | unknown =>
    obtain ⟨s', rfl, hsame⟩ := kept_eq_unknown hkept
    exact ⟨hexpanded, fun hf => hsame.trans (hnext hf)⟩
  | composite parts inner =>
    obtain ⟨s', parts', rfl, -⟩ := kept_eq_composite hkept
    rw [kept_composite, kept_composite] at hkept
    have hsame : s'.next = s.next := congrArg (fun k => k.signals.next) hkept
    exact ⟨hexpanded, fun hf => hsame.trans (hnext hf)⟩
  | primitive kind =>
    obtain ⟨s', rfl, hstored⟩ := kept_eq_primitive hkept
    refine ⟨hexpanded, fun hf => ?_⟩
    have hsame := congrArg Signals.next hstored
    cases kind with
    | dff => exact absurd hf (by simp [Instance.isFlipFlop])
    | input | and | or | nand | not | xor => exact hsame.trans (hnext hf)

theorem untouched_commit (i : Instance) (h : i.Untouched) : i.commit.1.Untouched := by
  refine commit_of (P := Instance.Untouched) (fun _ _ _ h => ?_) (fun _ _ _ _ _ _ h => ?_) i h
  · exact ⟨h.expanded, fun hf => absurd hf (by simp [Instance.isFlipFlop])⟩
  · exact ⟨h.expanded, fun _ => h.next rfl⟩

/-! ## What is stored determines what is kept -/

/-- A primed plain flip-flop drives its bit. -/
theorem outputs_primed_of_plain {part : Part} {expanded : Bool} {s : Signals}
    (h : Instance.Plain catalog ⟨part, expanded, s, .primitive .dff⟩) :
    s.primed.outputs = outOnly s.value := by
  rcases h with ⟨hempty, -⟩ | hdriven
  · rw [Signals.primed_of_isEmpty (by rw [hempty]; rfl), Signals.drive_outputs]
  · have hsome : s.outputs.isEmpty = false := by
      rw [show s.outputs = outOnly s.value from hdriven]
      rfl
    rw [Signals.primed_of_not_isEmpty hsome]
    exact hdriven

/-- Two primed primitives that store the same keep the same. -/
theorem kept_primed_primitive {part : Part} {expanded expanded' : Bool} {s s' : Signals}
    {kind : PrimitiveKind} (hplain : Instance.Plain catalog ⟨part, expanded, s, .primitive kind⟩)
    (hplain' : Instance.Plain catalog ⟨part, expanded', s', .primitive kind⟩)
    (huntouched : Instance.Untouched ⟨part, expanded, s, .primitive kind⟩)
    (huntouched' : Instance.Untouched ⟨part, expanded', s', .primitive kind⟩)
    (hvalue : Instance.isStored ⟨part, expanded, s, .primitive kind⟩ = true → s.value = s'.value) :
    (Instance.primed ⟨part, expanded, s, .primitive kind⟩).kept =
      (Instance.primed ⟨part, expanded', s', .primitive kind⟩).kept := by
  obtain ⟨rfl, hnext⟩ := huntouched
  obtain ⟨rfl, hnext'⟩ := huntouched'
  by_cases hk : kind = .dff
  · subst hk
    have hsame := hvalue rfl
    rw [primed_flipFlop, primed_flipFlop, kept_primitive, kept_primitive]
    simp only [Signals.stored, Signals.primed_value, outputs_primed_of_plain hplain,
      outputs_primed_of_plain hplain', hsame]
  · have hprimitive : Body.primitive kind ≠ (.primitive .dff : Body Instance) := by simpa using hk
    rw [primed_leaf rfl hprimitive, primed_leaf rfl hprimitive, kept_primitive, kept_primitive]
    cases kind with
    | dff => exact absurd rfl hk
    | input =>
      have hsame := hvalue rfl
      have hlow := (hnext rfl).trans (hnext' rfl).symm
      simp only [Instance.next] at hlow
      simp only [Signals.stored, hsame, hlow]
    | and | or | nand | not | xor =>
      have hlow := (hnext rfl).trans (hnext' rfl).symm
      simp only [Instance.next] at hlow
      simp only [Signals.stored, hlow]

/-- What holds of a circuit that was built from a catalog and only stimulated since. -/
def Instance.Grown (catalog : Catalog) (i : Instance) : Prop := i.Plain catalog ∧ i.Untouched

/-- What the instance keeps, once it is primed, is a matter of what is stored in it. -/
def Instance.KeepsStored (catalog : Catalog) (i : Instance) : Prop :=
  ∀ j : Instance, i.blank = j.blank → i.Throughout (Instance.Grown catalog) →
    j.Throughout (Instance.Grown catalog) → (i.isStored = true → i.value = j.value) →
      (∀ u v, i.inside? = some u → j.inside? = some v → u.SameStored v) →
        i.primed.kept = j.primed.kept

/-- From the instances of a scope to the scope. -/
theorem keptAll_primedAll_of {s t : Scope} (hblank : blankAll s.instances = blankAll t.instances)
    (hs : Throughout (Instance.Grown catalog) s.instances)
    (ht : Throughout (Instance.Grown catalog) t.instances) (hstored : s.SameStored t)
    (h : ∀ i ∈ s.instances, i.KeepsStored catalog) :
    keptAll (primedAll s.instances) = keptAll (primedAll t.instances) := by
  rw [keptAll_eq_map, keptAll_eq_map, primedAll_eq_map, primedAll_eq_map, List.map_map,
    List.map_map]
  refine map_eq_map_of_getElem? (length_of_blankAll hblank) fun k i j hi hj => ?_
  have hmem := List.mem_of_getElem? hi
  have hmem' := List.mem_of_getElem? hj
  refine h i hmem j (blank_of_blankAll hblank hi hj) (throughout_iff.1 hs i hmem)
    (throughout_iff.1 ht j hmem') (hstored [] k i j hi hj) fun u v hu hv => ?_
  have hu' : s.inside? k = some u := by
    unfold Scope.inside?
    rw [hi]
    exact hu
  have hv' : t.inside? k = some v := by
    unfold Scope.inside?
    rw [hj]
    exact hv
  exact hstored.inside hu' hv'

/-- **What is stored determines what a primed instance keeps.** -/
theorem keepsStored (i : Instance) : i.KeepsStored catalog := by
  induction i using Instance.induct with
  | leaf i hleaf =>
    intro j hblank hi hj hvalue _
    obtain ⟨part, expanded, s, body⟩ := i
    have hown := hi.1
    have hown' := hj.1
    cases body with
    | composite => exact absurd hleaf (by simp [Instance.isComposite])
    | unknown =>
      obtain ⟨expanded', s', rfl⟩ := blank_eq_unknown hblank.symm
      obtain ⟨-, rfl, hnext⟩ := hown
      obtain ⟨-, rfl, hnext'⟩ := hown'
      have hlow := (hnext rfl).trans (hnext' rfl).symm
      simp only [Instance.next] at hlow
      rw [primed_leaf rfl (by simp), primed_leaf rfl (by simp), kept_unknown, kept_unknown, hlow]
    | primitive kind =>
      obtain ⟨expanded', s', rfl⟩ := blank_eq_primitive hblank.symm
      exact kept_primed_primitive hown.1 hown'.1 hown.2 hown'.2 hvalue
  | composite part expanded s parts inner ih =>
    intro j hblank hi hj _ hinside
    obtain ⟨expanded', s', parts', rfl, hparts⟩ := blank_eq_composite hblank.symm
    rw [Instance.throughout_composite] at hi hj
    obtain ⟨⟨-, rfl, hnext⟩, hall⟩ := hi
    obtain ⟨⟨-, rfl, hnext'⟩, hall'⟩ := hj
    have hkept : keptAll (primedAll parts) = keptAll (primedAll parts') :=
      keptAll_primedAll_of (s := ⟨parts, inner, s.inputs⟩) (t := ⟨parts', inner, s'.inputs⟩)
        hparts.symm hall hall' (hinside _ _ rfl rfl) ih
    have hlow := (hnext rfl).trans (hnext' rfl).symm
    simp only [Instance.next] at hlow
    rw [primed_composite, primed_composite, kept_composite, kept_composite, hkept, hlow]

/-- Priming leaves a plain instance plain, at every depth. -/
theorem throughout_plain_primed (i : Instance) : i.Throughout (Instance.Plain catalog) →
    i.primed.Throughout (Instance.Plain catalog) := by
  induction i using Instance.induct with
  | leaf i hleaf =>
    intro h
    have hown := h.1
    refine (Instance.throughout_leaf (isComposite_of_blank (blank_primed i) ▸ hleaf)).2 ?_
    by_cases hk : i.body = .primitive .dff
    · obtain ⟨part, expanded, s, body⟩ := i
      cases hk
      rw [primed_flipFlop]
      refine Or.inr ?_
      rw [outputs_primed_of_plain hown]
      exact congrArg outOnly (Signals.primed_value s).symm
    · rw [primed_leaf hleaf hk]
      exact hown
  | composite part expanded s parts inner ih =>
    intro h
    rw [primed_composite]
    rw [Instance.throughout_composite] at h ⊢
    exact ⟨h.1, throughout_primedAll.2 fun i hi => ih i hi (throughout_iff.1 h.2 i hi)⟩

end Breadboard
