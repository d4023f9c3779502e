import Breadboard.Circuit.Blueprint

/-!
# Snapshots

A snapshot is the state of a circuit without its structure: only the types of the chips are kept.
To restore an instance it is built anew from the catalog, and the saved state is laid over it.
Saved parts meet the built ones by id; a saved part that meets none is dropped.
-/

namespace Breadboard

/-- The saved state of an instance and of its parts. -/
structure InstanceSnapshot where
  part : Part := ⟨"", "", none⟩
  expanded : Bool := false
  signals : Signals := {}
  parts : List InstanceSnapshot := []

/-- The saved state of a circuit. -/
structure Snapshot where
  clock : UInt64 := 0
  instances : List InstanceSnapshot := []
  wires : List Wire := []

/-! ## Saving -/

mutual

/-- The state of an instance. -/
def Instance.save : Instance → InstanceSnapshot
  | ⟨part, expanded, signals, body⟩ =>
    match body with
    | .composite parts _ => ⟨part, expanded, signals, saveAll parts⟩
    | _ => ⟨part, expanded, signals, []⟩

/-- The states of the instances of a scope. -/
def saveAll : List Instance → List InstanceSnapshot
  | [] => []
  | i :: rest => i.save :: saveAll rest

end

/-! ## Restoring -/

mutual

/-- Lay saved state over an instance. A primitive saved without outputs drives its value. -/
def InstanceSnapshot.overlay : InstanceSnapshot → Instance → Instance
  | ⟨_, expanded, signals, saved⟩, i =>
    match i.body with
    | .unknown => { i with expanded, signals }
    | .primitive _ =>
      { i with
        expanded
        signals := if signals.outputs.isEmpty then signals.drive signals.value else signals }
    | .composite parts wires =>
      { i with expanded, signals, body := .composite (overlayAll saved parts) wires }

/-- Lay each saved state over the first part of its id, in order. -/
def overlayAll : List InstanceSnapshot → List Instance → List Instance
  | [], parts => parts
  | saved :: rest, parts =>
    overlayAll rest (updateInstance parts saved.part.id fun i => saved.overlay i)

end

/-- Build an instance from the catalog and lay the saved state over it. -/
def InstanceSnapshot.restore (catalog : Catalog) (saved : InstanceSnapshot) : Instance :=
  saved.overlay (Instance.fresh catalog saved.part)

/-! ## Comparing -/

mutual

/-- Equality of every field at every depth, up to the order of pins. -/
def InstanceSnapshot.agree : InstanceSnapshot → InstanceSnapshot → Bool
  | ⟨part, expanded, signals, parts⟩, ⟨part', expanded', signals', parts'⟩ =>
    part == part' && expanded == expanded' && signals.agree signals' && agreeSaved parts parts'

/-- `InstanceSnapshot.agree`, one by one. -/
def agreeSaved : List InstanceSnapshot → List InstanceSnapshot → Bool
  | [], [] => true
  | s :: rest, s' :: rest' => s.agree s' && agreeSaved rest rest'
  | _, _ => false

end

/-- Equality of every field, up to the order of pins. -/
def Snapshot.agree (a b : Snapshot) : Bool :=
  a.clock == b.clock && agreeSaved a.instances b.instances && a.wires == b.wires

end Breadboard
