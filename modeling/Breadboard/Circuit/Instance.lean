import Breadboard.Chip.Basic

/-!
# Instances

An `Instance` is one placed chip with its own signals. What it does is its `Body`: nothing is known
of it, it is a primitive, or it is a composite with instances of its own and the wires between them.
Two instances never share state: a composite owns its parts.

`Instance.induct` is induction over an instance through its parts at every depth.
-/

namespace Breadboard

/-- Bits by pin. -/
abbrev Pins := NameMap Bool

/-- The bits an instance holds. -/
structure Signals where
  /-- The main output. -/
  value : Bool := false
  /-- What a flip-flop will take on the next clock edge. -/
  next : Bool := false
  /-- The inputs of the last pass. -/
  inputs : Pins := ∅
  /-- The named outputs. -/
  outputs : Pins := ∅
deriving DecidableEq, Repr

namespace Signals

/-- An output that was never driven is low. -/
def output (s : Signals) (pin : String) : Bool := (s.outputs.get? pin).getD false

/-- Set the main output, and make `OUT` the only named one, with the same bit. -/
def drive (s : Signals) (bit : Bool) : Signals :=
  { s with value := bit, outputs := NameMap.empty.insert outPin bit }

/-- Equality up to the order of pins. -/
def agree (a b : Signals) : Bool :=
  a.value == b.value && a.next == b.next && a.inputs.agree b.inputs && a.outputs.agree b.outputs

end Signals

/-- What an instance does, with instances of type `α` inside. -/
inductive Body (α : Type) where
  /-- Its type is not in the catalog: the output is always low. -/
  | unknown
  | primitive (kind : PrimitiveKind)
  | composite (parts : List α) (wires : List Wire)
deriving Repr

/-- A placed chip with its state. -/
structure Instance where
  part : Part
  /-- Whether a viewer draws the inside. -/
  expanded : Bool := false
  signals : Signals := {}
  body : Body Instance

instance : Inhabited Instance := ⟨{ part := ⟨"", "", none⟩, body := .unknown }⟩

namespace Instance

def id (i : Instance) : String := i.part.id

def chip (i : Instance) : String := i.part.chip

def value (i : Instance) : Bool := i.signals.value

def next (i : Instance) : Bool := i.signals.next

/-- A named output; one that was never driven is low. -/
def output (i : Instance) (pin : String) : Bool := i.signals.output pin

/-- The output that a wire or tap with this pin reads: the named one, or the main one. -/
def read (i : Instance) : Option String → Bool
  | some pin => i.output pin
  | none => i.value

/-- Is it a switch? -/
def isInput (i : Instance) : Bool :=
  match i.body with
  | .primitive .input => true
  | _ => false

/-- The instances inside, none unless it is a composite. -/
def parts (i : Instance) : List Instance :=
  match i.body with
  | .composite parts _ => parts
  | _ => []

/-- Is it a composite? -/
def isComposite (i : Instance) : Bool :=
  match i.body with
  | .composite .. => true
  | _ => false

/-- Set the main output and `OUT`. -/
def drive (i : Instance) (bit : Bool) : Instance := { i with signals := i.signals.drive bit }

end Instance

/-- The first instance of a scope with the given id. -/
def findInstance? (scope : List Instance) (id : String) : Option Instance :=
  scope.find? fun i => i.id == id

/-- Apply `f` to the first instance of a scope with the given id. -/
def updateInstance (scope : List Instance) (id : String) (f : Instance → Instance) :
    List Instance :=
  match scope with
  | [] => []
  | i :: rest => if i.id = id then f i :: rest else i :: updateInstance rest id f

/-! ## Walking through the parts -/

mutual

/-- All instances inside, at every depth, each before its own parts. -/
def Instance.descendants : Instance → List Instance
  | ⟨_, _, _, .composite parts _⟩ => scopeInstances parts
  | _ => []

/-- The instances of a scope at every depth, each before its own parts. -/
def scopeInstances : List Instance → List Instance
  | [] => []
  | i :: rest => i :: (i.descendants ++ scopeInstances rest)

end

/-- The instance reached from a scope by ids, one for each level. -/
def Instance.atPath? : List Instance → List String → Option Instance
  | _, [] => none
  | scope, [id] => findInstance? scope id
  | scope, id :: path => (findInstance? scope id).bind fun i => atPath? i.parts path

mutual

/-- Equality of every field at every depth, up to the order of pins. -/
def Instance.agree : Instance → Instance → Bool
  | ⟨part, expanded, signals, body⟩, ⟨part', expanded', signals', body'⟩ =>
    part == part' && expanded == expanded' && signals.agree signals' &&
      match body, body' with
      | .unknown, .unknown => true
      | .primitive kind, .primitive kind' => kind == kind'
      | .composite parts wires, .composite parts' wires' =>
        agreeAll parts parts' && wires == wires'
      | _, _ => false

/-- `Instance.agree` for two scopes, instance by instance. -/
def agreeAll : List Instance → List Instance → Bool
  | [], [] => true
  | i :: rest, i' :: rest' => i.agree i' && agreeAll rest rest'
  | _, _ => false

end

/-- **Induction through the parts**: what holds of an instance whenever it holds of its parts holds
of every instance. -/
theorem Instance.induct {P : Instance → Prop}
    (leaf : ∀ i : Instance, i.isComposite = false → P i)
    (composite : ∀ part expanded signals parts wires, (∀ i ∈ parts, P i) →
      P ⟨part, expanded, signals, .composite parts wires⟩) : ∀ i, P i :=
  fun i => Instance.rec (motive_1 := P)
    (motive_2 := fun body => ∀ part expanded signals, P ⟨part, expanded, signals, body⟩)
    (motive_3 := fun l => ∀ i ∈ l, P i)
    (fun part expanded signals _ h => h part expanded signals)
    (fun _ _ _ => leaf _ rfl)
    (fun _ _ _ _ => leaf _ rfl)
    (fun parts wires h part expanded signals => composite part expanded signals parts wires h)
    (fun _ h => absurd h List.not_mem_nil)
    (fun _ _ h hs j hj => (List.mem_cons.1 hj).elim (fun he => he ▸ h) (hs j))
    i

end Breadboard
