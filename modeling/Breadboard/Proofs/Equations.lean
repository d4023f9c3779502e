import Breadboard.Chip.Standard
import Breadboard.Proofs.Plain

/-!
# The circuit equations

`Scope.Solved` states what a circuit should compute, scope by scope: every input carries the bit of
the last wire that is given its pin, every gate computes its function, every flip-flop has taken
down its input, and every composite shows what its pin map says. All of it is read in one and the
same state, whereas a pass reads each instance at another moment.

* `Scope.AtRest.solved`: a plain scope at rest solves its equations;
* **`converged_solves_every_scope`**: after any run of settlings, toggles and clock edges on fresh
  chips, a settling that converges leaves a state that solves the equations at every depth.
-/

namespace Breadboard

variable {catalog : Catalog} {wires : List Wire} {inherited inputs : Pins}

/-- **The equations of one scope.** -/
structure Scope.Solved (catalog : Catalog) (s : Scope) : Prop where
  /-- The inputs are the pins that wires are given, each with the bit of its last wire. -/
  inputs : ∀ i ∈ s.instances, ∀ pin,
    i.signals.inputs.get? pin =
      (lastWire? (assignPins (catalog.inputsOf i.chip) s.wires i.id) pin).map
        (Wire.read s.instances s.inherited)
  /-- A gate drives the function of its first two inputs, whatever its bit was before. -/
  gate : ∀ i ∈ s.instances, ∀ kind, i.body = .primitive kind → kind ≠ .input → kind ≠ .dff →
    (∀ current, i.value = kind.evaluate (i.signals.bit (catalog.inputsOf i.chip) 0)
      (i.signals.bit (catalog.inputsOf i.chip) 1) current) ∧
      i.signals.outputs = outOnly i.value
  /-- A switch drives its bit. -/
  switch : ∀ i ∈ s.instances, i.body = .primitive .input → i.signals.outputs = outOnly i.value
  /-- A chip of which nothing is known drives low. -/
  unknown : ∀ i ∈ s.instances, i.body = .unknown →
    i.value = false ∧ i.signals.outputs = outOnly false
  /-- A flip-flop has taken down its first input. -/
  flipFlop : ∀ i ∈ s.instances, i.body = .primitive .dff →
    i.next = i.signals.bit (catalog.inputsOf i.chip) 0
  /-- A composite shows the taps of its pin map and nothing else, and the main part's bit. -/
  composite : ∀ i ∈ s.instances, ∀ parts inner, i.body = .composite parts inner →
    (∀ pin, i.signals.outputs.get? pin =
      ((catalog.pinMapOf i.chip).outputs.get? pin).map (Tap.read parts)) ∧
      i.value = match (catalog.pinMapOf i.chip).main with
        | some id => mainOutput parts id
        | none => false

/-! ## A scope at rest -/

/-- The outputs of a plain composite at rest are the taps of its pin map. -/
theorem get?_outputs_of_atRest {part : Part} {expanded : Bool} {s : Signals}
    {parts : List Instance} {inner : List Wire}
    (h : Instance.AtRest catalog inputs ⟨part, expanded, s, .composite parts inner⟩)
    (hplain : Instance.Plain catalog ⟨part, expanded, s, .composite parts inner⟩) (pin : String) :
    s.outputs.get? pin =
      ((catalog.pinMapOf part.chip).outputs.get? pin).map (Tap.read parts) := by
  obtain ⟨-, -, hpublished, -⟩ := atRest_composite.1 h
  cases hpin : (catalog.pinMapOf part.chip).outputs.get? pin with
  | none => exact hplain.1 pin hpin
  | some tap => exact hpublished (pin, tap) (NameMap.get?_eq_some_iff.1 hpin)

/-- The main output of a plain composite at rest is that of its main part. -/
theorem value_of_atRest {part : Part} {expanded : Bool} {s : Signals}
    {parts : List Instance} {inner : List Wire}
    (h : Instance.AtRest catalog inputs ⟨part, expanded, s, .composite parts inner⟩)
    (hplain : Instance.Plain catalog ⟨part, expanded, s, .composite parts inner⟩) :
    s.value = match (catalog.pinMapOf part.chip).main with
      | some id => mainOutput parts id
      | none => false := by
  obtain ⟨-, -, -, hmain⟩ := atRest_composite.1 h
  cases hm : (catalog.pinMapOf part.chip).main with
  | none => exact hplain.2 hm
  | some id => exact hmain id hm

/-- A gate does not look at its old bit. -/
theorem evaluate_current {kind : PrimitiveKind} (hi : kind ≠ .input) (hd : kind ≠ .dff)
    (a b c c' : Bool) : kind.evaluate a b c = kind.evaluate a b c' := by
  cases kind with
  | input => exact absurd rfl hi
  | dff => exact absurd rfl hd
  | and | or | nand | not | xor => rfl

/-- **A plain scope at rest solves its equations.** -/
theorem Scope.AtRest.solved {s : Scope} (h : s.AtRest catalog)
    (hplain : Throughout (Instance.Plain catalog) s.instances) : s.Solved catalog := by
  have hrest := Scope.atRest_iff.1 h
  refine ⟨fun i hi pin => ?_, ?_, ?_, ?_, ?_, ?_⟩
  · have hagree := NameMap.agree_iff_get?.1 (hrest i hi).agree pin
    rw [hagree]
    exact get?_resolveInputs catalog s.instances s.wires s.inherited i.part pin
  · rintro ⟨part, expanded, signals, body⟩ hi kind rfl hinput hdff
    obtain ⟨-, hvalue, houtputs⟩ := (atRest_gate hdff).1 (hrest _ hi)
    refine ⟨fun current => ?_, houtputs⟩
    change signals.value = _
    rw [hvalue]
    exact evaluate_current hinput hdff _ _ _ _
  · rintro ⟨part, expanded, signals, body⟩ hi rfl
    exact ((atRest_gate (by decide)).1 (hrest _ hi)).2.2
  · rintro ⟨part, expanded, signals, body⟩ hi rfl
    exact (atRest_unknown.1 (hrest _ hi)).2
  · rintro ⟨part, expanded, signals, body⟩ hi rfl
    exact (atRest_flipFlop.1 (hrest _ hi)).2
  · rintro ⟨part, expanded, signals, body⟩ hi parts inner rfl
    have hown := (Instance.throughout_composite.1 (throughout_iff.1 hplain _ hi)).1
    exact ⟨get?_outputs_of_atRest (hrest _ hi) hown, value_of_atRest (hrest _ hi) hown⟩

/-! ## Runs on a list of instances -/

/-- What can be done to a circuit without building it anew. -/
inductive Action where
  /-- Settle it by at most `limit` passes. -/
  | settle (limit : Nat)
  /-- Flip the first instance with the given id, if it is a switch. -/
  | toggle (id : String)
  /-- Let every flip-flop take its next value. -/
  | commit

/-- The instances after an action. -/
def Action.apply (catalog : Catalog) (wires : List Wire) (scope : List Instance) :
    Action → List Instance
  | .settle limit => (Breadboard.settle catalog wires limit scope).1
  | .toggle id => toggleInput scope id
  | .commit => (commitAll scope).1

/-- The instances after some actions, one after the other. -/
def applyAll (catalog : Catalog) (wires : List Wire) (scope : List Instance)
    (actions : List Action) : List Instance :=
  actions.foldl (Action.apply catalog wires) scope

theorem throughout_plain_apply {scope : List Instance}
    (h : Throughout (Instance.Plain catalog) scope) (action : Action) :
    Throughout (Instance.Plain catalog) (action.apply catalog wires scope) := by
  cases action with
  | settle limit => exact throughout_plain_settle limit h
  | toggle id => exact throughout_plain_toggleInput id h
  | commit => exact throughout_commitAll plain_commit h

/-- **Every run leaves a plain circuit plain.** -/
theorem throughout_plain_applyAll (actions : List Action) :
    ∀ scope, Throughout (Instance.Plain catalog) scope →
      Throughout (Instance.Plain catalog) (applyAll catalog wires scope actions) := by
  induction actions with
  | nil => exact fun _ h => h
  | cons action rest ih => exact fun scope h => ih _ (throughout_plain_apply h action)

/-- A settling that converges leaves a plain circuit at rest. -/
theorem atRest_settle_of_plain {scope : List Instance} {limit : Nat}
    (hplain : Throughout (Instance.Plain catalog) scope)
    (h : (settle catalog wires limit scope).2.converged = true) :
    Scope.AtRest catalog ⟨(settle catalog wires limit scope).1, wires, ∅⟩ :=
  atRest_of_converged h (Or.inl (hplain.mono fun _ hi => hi.tidy))

/-- Fresh chips after some actions. -/
def applyFresh (catalog : Catalog) (parts : List Part) (wires : List Wire)
    (actions : List Action) : List Instance :=
  applyAll catalog wires (parts.map (Instance.fresh catalog)) actions

/-- **A settling that converges solves the circuit**, at every depth and after every run. -/
theorem converged_solves_every_scope (catalog : Catalog) (parts : List Part) (wires : List Wire)
    (actions : List Action) (limit : Nat)
    (h : (settle catalog wires limit
      (applyFresh catalog parts wires actions)).2.converged = true) :
    ∀ s, Scope.Holds ⟨(settle catalog wires limit
      (applyFresh catalog parts wires actions)).1, wires, ∅⟩ s → s.Solved catalog := by
  intro s hs
  have hplain : Throughout (Instance.Plain catalog) (applyFresh catalog parts wires actions) :=
    throughout_plain_applyAll actions _ (throughout_plain_fresh catalog parts)
  have hrest := (atRest_settle_of_plain hplain h).holds hs
  exact hrest.solved ((throughout_plain_settle limit hplain).holds hs)

/-- An exclusive or made of gates, one input of it high, as it settles after a run. -/
theorem converged_solves_xor :
    (settle Standard.catalog [Standard.feed "a" "x"] 10
      (applyFresh Standard.catalog [⟨"a", "INPUT", none⟩, ⟨"x", "XOR", none⟩]
        [Standard.feed "a" "x"] [.settle 1, .toggle "a", .commit])).2.converged = true ∧
    ∀ s, Scope.Holds ⟨(settle Standard.catalog [Standard.feed "a" "x"] 10
      (applyFresh Standard.catalog [⟨"a", "INPUT", none⟩, ⟨"x", "XOR", none⟩]
        [Standard.feed "a" "x"] [.settle 1, .toggle "a", .commit])).1,
      [Standard.feed "a" "x"], ∅⟩ s → s.Solved Standard.catalog :=
  have h : (settle Standard.catalog [Standard.feed "a" "x"] 10
      (applyFresh Standard.catalog [⟨"a", "INPUT", none⟩, ⟨"x", "XOR", none⟩]
        [Standard.feed "a" "x"] [.settle 1, .toggle "a", .commit])).2.converged = true := by
    decide +kernel
  ⟨h, converged_solves_every_scope _ _ _ _ _ h⟩

end Breadboard
