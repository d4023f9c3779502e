import Breadboard.Proofs.Pins

/-!
# Scopes and what is read in them

A `Scope` is one level of a circuit: instances, the wires between them, and the inputs of the chip
around them. `Scope.Holds` leads from a scope to every scope inside it, at any depth, and
`Throughout P` says that `P` holds of every instance of a scope at every depth.

A wire names its source by id, which means the first instance of that id: the one on its `seat?`.
Two scopes with the same ids have the same seats, so a wire reads the same bit in both as soon as
the instances on its seat agree about it (`Wire.read_congr`), and an instance resolves the same
inputs as soon as its wires read the same bits (`resolveInputs_congr`).
-/

namespace Breadboard

/-- Instances, the wires between them, and the inputs of the chip around them. -/
structure Scope where
  instances : List Instance
  wires : List Wire
  inherited : Pins := ∅

/-- `s.Holds t`: `t` is `s`, or the inside of a composite in `s`, or inside that, and so on. -/
inductive Scope.Holds : Scope → Scope → Prop
  | refl (s : Scope) : Holds s s
  | inside {s t : Scope} {part : Part} {expanded : Bool} {signals : Signals}
      {parts : List Instance} {wires : List Wire}
      (hi : ⟨part, expanded, signals, .composite parts wires⟩ ∈ s.instances)
      (ht : Holds ⟨parts, wires, signals.inputs⟩ t) : Holds s t

theorem Scope.holds_of_body {s : Scope} {i : Instance} (hi : i ∈ s.instances)
    {parts : List Instance} {wires : List Wire} (h : i.body = .composite parts wires) :
    s.Holds ⟨parts, wires, i.signals.inputs⟩ := by
  obtain ⟨part, expanded, signals, body⟩ := i
  cases h
  exact .inside hi (.refl _)

/-- The parts of an instance in a scope stand in a scope inside. -/
theorem Scope.exists_holds_of_mem_parts {s : Scope} {i j : Instance} (hi : i ∈ s.instances)
    (hj : j ∈ i.parts) : ∃ t, s.Holds t ∧ j ∈ t.instances := by
  obtain ⟨part, expanded, signals, body⟩ := i
  cases body with
  | unknown | primitive => exact absurd hj List.not_mem_nil
  | composite parts wires => exact ⟨_, .inside hi (.refl _), hj⟩

/-! ## Every instance at every depth -/

/-- `P` holds of the instance and of all inside it. -/
def Instance.Throughout (P : Instance → Prop) (i : Instance) : Prop :=
  P i ∧ ∀ j ∈ i.descendants, P j

/-- `P` holds of the instances of a scope and of all inside them. -/
def Throughout (P : Instance → Prop) (scope : List Instance) : Prop :=
  ∀ i ∈ scopeInstances scope, P i

section Throughout

variable {P Q : Instance → Prop}

theorem throughout_nil : Throughout P [] := by
  intro i hi
  simp only [scopeInstances, List.not_mem_nil] at hi

theorem throughout_cons {i : Instance} {rest : List Instance} :
    Throughout P (i :: rest) ↔ i.Throughout P ∧ Throughout P rest := by
  unfold Throughout Instance.Throughout
  simp only [scopeInstances, List.mem_cons, List.mem_append]
  constructor
  · intro h
    exact ⟨⟨h i (Or.inl rfl), fun j hj => h j (Or.inr (Or.inl hj))⟩,
      fun j hj => h j (Or.inr (Or.inr hj))⟩
  · rintro ⟨⟨hi, hin⟩, hrest⟩ j (rfl | hj | hj)
    · exact hi
    · exact hin j hj
    · exact hrest j hj

theorem throughout_iff {scope : List Instance} :
    Throughout P scope ↔ ∀ i ∈ scope, i.Throughout P := by
  induction scope with
  | nil => simp [throughout_nil]
  | cons i rest ih => simp [throughout_cons, ih]

theorem throughout_append {scope scope' : List Instance} :
    Throughout P (scope ++ scope') ↔ Throughout P scope ∧ Throughout P scope' := by
  simp only [throughout_iff, List.forall_mem_append]

theorem Instance.throughout_composite {part : Part} {expanded : Bool} {signals : Signals}
    {parts : List Instance} {wires : List Wire} :
    Instance.Throughout P ⟨part, expanded, signals, .composite parts wires⟩ ↔
      P ⟨part, expanded, signals, .composite parts wires⟩ ∧ Breadboard.Throughout P parts := by
  unfold Instance.Throughout Breadboard.Throughout
  rw [Instance.descendants]

theorem Instance.descendants_leaf {i : Instance} (h : i.isComposite = false) :
    i.descendants = [] := by
  obtain ⟨part, expanded, signals, body⟩ := i
  cases body with
  | composite parts wires => exact absurd h (by simp [isComposite])
  | unknown => rfl
  | primitive kind => rfl

theorem Instance.throughout_leaf {i : Instance} (h : i.isComposite = false) :
    i.Throughout P ↔ P i := by
  unfold Instance.Throughout
  simp [i.descendants_leaf h]

theorem Throughout.mono {scope : List Instance} (h : Throughout P scope)
    (hPQ : ∀ i, P i → Q i) : Throughout Q scope :=
  fun i hi => hPQ i (h i hi)

theorem Throughout.perm {scope scope' : List Instance} (h : Throughout P scope)
    (hperm : scope'.Perm scope) : Throughout P scope' :=
  throughout_iff.2 fun i hi => throughout_iff.1 h i (hperm.mem_iff.1 hi)

/-- What holds throughout a scope holds throughout every scope inside it. -/
theorem Throughout.holds {s t : Scope} (h : Throughout P s.instances) (hst : s.Holds t) :
    Throughout P t.instances := by
  induction hst with
  | refl => exact h
  | inside hi _ ih => exact ih (Instance.throughout_composite.1 (throughout_iff.1 h _ hi)).2

end Throughout

/-! ## Seats -/

/-- The place of the first instance with the given id. -/
def seat? (scope : List Instance) (id : String) : Option Nat :=
  scope.findIdx? fun i => i.id == id

theorem findInstance?_eq_seat (scope : List Instance) (id : String) :
    findInstance? scope id = (seat? scope id).bind fun j => scope[j]? :=
  List.find?_eq_bind_findIdx?_getElem?

theorem findInstance?_eq_none_iff {scope : List Instance} {id : String} :
    findInstance? scope id = none ↔ id ∉ scope.map Instance.id := by
  unfold findInstance?
  rw [List.find?_eq_none, List.mem_map]
  constructor
  · rintro h ⟨i, hi, rfl⟩
    exact h i hi (beq_self_eq_true _)
  · intro h i hi hid
    exact h ⟨i, hi, by simpa using hid⟩

/-- What an id finds where every instance was changed, if its own id finds the changed one. -/
theorem findInstance?_map {f : Instance → Instance} {scope : List Instance} {id id' : String}
    (h : ∀ i ∈ scope, (f i).id = id' ↔ i.id = id) :
    findInstance? (scope.map f) id' = (findInstance? scope id).map f := by
  induction scope with
  | nil => rfl
  | cons i rest ih =>
    have hrest := ih fun j hj => h j (List.mem_cons_of_mem i hj)
    have hsame : ((f i).id == id') = (i.id == id) := by
      rw [Bool.eq_iff_iff, beq_iff_eq, beq_iff_eq]
      exact h i List.mem_cons_self
    unfold findInstance? at hrest ⊢
    rw [List.map_cons, List.find?_cons, List.find?_cons, hrest, hsame]
    cases i.id == id <;> rfl

/-- An id is found among those that alone have it. -/
theorem findInstance?_filter {id : String} {q : Instance → Bool} :
    ∀ {scope : List Instance}, (∀ i ∈ scope, i.id = id → q i = true) →
      findInstance? (scope.filter q) id = findInstance? scope id
  | [], _ => rfl
  | i :: rest, h => by
    have hrest := findInstance?_filter fun j hj => h j (List.mem_cons_of_mem i hj)
    unfold findInstance? at hrest ⊢
    by_cases hid : i.id = id
    · rw [List.filter_cons_of_pos (h i List.mem_cons_self hid), List.find?_cons, List.find?_cons,
        hid, beq_self_eq_true]
    · have hne : (i.id == id) = false := by simpa using hid
      rw [List.find?_cons, hne, ← hrest, List.filter_cons]
      split
      · rw [List.find?_cons, hne]
      · rfl

/-- Seats are a matter of ids. -/
theorem seat?_congr {scope scope' : List Instance}
    (h : scope.map Instance.id = scope'.map Instance.id) (id : String) :
    seat? scope id = seat? scope' id := by
  have key : ∀ l : List Instance, seat? l id = (l.map Instance.id).findIdx? (· == id) := by
    intro l
    rw [List.findIdx?_map]
    rfl
  rw [key, key, h]

theorem seat?_spec {scope : List Instance} {id : String} {j : Nat} (h : seat? scope id = some j) :
    ∃ i, scope[j]? = some i ∧ i.id = id := by
  obtain ⟨hj, hid, -⟩ := List.findIdx?_eq_some_iff_getElem.1 h
  exact ⟨scope[j], List.getElem?_eq_getElem hj, by simpa using hid⟩

/-- Two lists with the same ids have the same places. -/
theorem getElem?_of_map_eq {α β : Type} {f : α → β} {l l' : List α} (h : l.map f = l'.map f)
    {k : Nat} {a : α} (ha : l[k]? = some a) : ∃ a', l'[k]? = some a' ∧ f a' = f a := by
  have hk : (l'.map f)[k]? = some (f a) := by rw [← h, List.getElem?_map, ha]; rfl
  rw [List.getElem?_map] at hk
  exact Option.map_eq_some_iff.1 hk

theorem eq_of_map_eq {α β : Type} {f : α → β} {l l' : List α} (h : l.map f = l'.map f)
    {k : Nat} {a a' : α} (ha : l[k]? = some a) (ha' : l'[k]? = some a') : f a = f a' := by
  obtain ⟨a'', hk, heq⟩ := getElem?_of_map_eq h ha
  rw [ha'] at hk
  cases hk
  exact heq.symm

/-- Two lists of one length have the same images if they have them place by place. -/
theorem map_eq_map_of_getElem? {α β γ : Type} {f : α → γ} {g : β → γ} {l : List α} {l' : List β}
    (hlength : l.length = l'.length)
    (h : ∀ (k : Nat) (a : α) (b : β), l[k]? = some a → l'[k]? = some b → f a = g b) :
    l.map f = l'.map g := by
  refine List.ext_getElem (by rw [List.length_map, List.length_map, hlength]) fun k hk hk' => ?_
  rw [List.length_map] at hk hk'
  rw [List.getElem_map, List.getElem_map]
  exact h k _ _ (List.getElem?_eq_getElem hk) (List.getElem?_eq_getElem hk')

/-! ## Reading -/

/-- **A wire reads its seat**: two scopes with the same ids whose instances on the seat of the wire
read alike give the same bit. -/
theorem Wire.read_congr {scope scope' : List Instance} {inherited inherited' : Pins} {wire : Wire}
    (hids : scope.map Instance.id = scope'.map Instance.id)
    (hinh : ∀ pin, inherited.get? pin = inherited'.get? pin)
    (hread : ∀ j i i', seat? scope wire.source = some j → scope[j]? = some i →
      scope'[j]? = some i' → i.read wire.sourcePin = i'.read wire.sourcePin) :
    wire.read scope inherited = wire.read scope' inherited' := by
  unfold Wire.read
  rw [findInstance?_eq_seat, findInstance?_eq_seat, ← seat?_congr hids, hinh]
  cases hj : seat? scope wire.source with
  | none => rfl
  | some j =>
    obtain ⟨i, hi, -⟩ := seat?_spec hj
    obtain ⟨i', hi', -⟩ := getElem?_of_map_eq hids hi
    simp only [Option.bind_some, hi, hi']
    exact hread j i i' hj hi hi'

theorem mem_assignFrom {declared taken : List String} {wires : List Wire} {e : Wire × String}
    (h : e ∈ assignFrom declared taken wires) : e.1 ∈ wires :=
  (assignFrom_sublist declared taken wires).subset (List.mem_map_of_mem h)

/-- Only wires into the target are given pins. -/
theorem mem_assignPins {declared : List String} {wires : List Wire} {target : String}
    {e : Wire × String} (h : e ∈ assignPins declared wires target) :
    e.1 ∈ wires ∧ e.1.target = target := by
  have hm := List.mem_filter.1 (mem_assignFrom h)
  exact ⟨hm.1, by simpa using hm.2⟩

/-- An instance resolves the same inputs where the wires into it are the same and read the same. -/
theorem resolveInputs_congr {catalog : Catalog} {scope scope' : List Instance}
    {wires wires' : List Wire} {inherited inherited' : Pins} {target : Part}
    (hwires : (wires.filter fun w => w.target == target.id) =
      wires'.filter fun w => w.target == target.id)
    (hread : ∀ wire ∈ wires, wire.target = target.id →
      wire.read scope inherited = wire.read scope' inherited') :
    resolveInputs catalog scope wires inherited target =
      resolveInputs catalog scope' wires' inherited' target := by
  unfold resolveInputs
  have hassign : assignPins (catalog.inputsOf target.chip) wires target.id =
      assignPins (catalog.inputsOf target.chip) wires' target.id := by
    unfold assignPins
    rw [hwires]
  rw [← hassign]
  refine congrArg NameMap.ofList (List.map_congr_left fun e he => ?_)
  obtain ⟨hm, ht⟩ := mem_assignPins he
  exact Prod.ext rfl (hread e.1 hm ht)

/-- The last of the wires that are given a pin. -/
def lastWire? (assigned : List (Wire × String)) (pin : String) : Option Wire :=
  ((assigned.filter fun e => e.2 == pin).getLast?).map Prod.fst

/-- The last wire that is given a pin is one of those into the target. -/
theorem mem_of_lastWire? {declared : List String} {wires : List Wire} {target pin : String}
    {wire : Wire} (h : lastWire? (assignPins declared wires target) pin = some wire) :
    wire ∈ wires ∧ wire.target = target := by
  obtain ⟨e, he, rfl⟩ := Option.map_eq_some_iff.1 h
  exact mem_assignPins (List.mem_filter.1 (List.mem_of_getLast? he)).1

/-- **The inputs of an instance, pin by pin**: the bit on the last wire that is given the pin. -/
theorem get?_resolveInputs (catalog : Catalog) (scope : List Instance) (wires : List Wire)
    (inherited : Pins) (target : Part) (pin : String) :
    (resolveInputs catalog scope wires inherited target).get? pin =
      (lastWire? (assignPins (catalog.inputsOf target.chip) wires target.id) pin).map
        (Wire.read scope inherited) := by
  unfold resolveInputs lastWire?
  rw [NameMap.get?_ofList, List.filter_map, List.getLast?_map, Option.map_map, Option.map_map]
  rfl

end Breadboard
