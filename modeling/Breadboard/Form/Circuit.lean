import Breadboard.Form.Chip
import Breadboard.Simulator

/-!
# Written forms of options and snapshots

* options: [`max_passes`]
* instance: [`id`], [`type`], [`position`], [`expanded`], [`value`], [`next_value`], [`inputs`],
  [`outputs`], [`internals`]
* snapshot: [`clock`], [`instances`], [`wires`]

All members of a snapshot are written always, an absent position as `null`.
-/

namespace Breadboard

open Datum Reading

namespace SimOptions

def toDatum (o : SimOptions) : Datum := .table [("max_passes", ofUInt64 o.maxPasses)]

def ofDatum? : Reading SimOptions := fun t d => do
  let r ← Record.ofDatum? ["max_passes"] t d
  return ⟨← r.withDefault "max_passes" 100 uint64⟩

instance : Form SimOptions := ⟨toDatum, ofDatum?⟩

end SimOptions

namespace InstanceSnapshot

/-- The fields of a saved instance in their order. -/
def fieldNames : List String :=
  ["id", "type", "position", "expanded", "value", "next_value", "inputs", "outputs", "internals"]

mutual

def toDatum : InstanceSnapshot → Datum
  | ⟨part, expanded, signals, parts⟩ =>
    .table [("id", .text part.id), ("type", .text part.chip),
      ("position", match part.position with
        | some pos => Form.write pos
        | none => .null),
      ("expanded", .bool expanded), ("value", .bool signals.value),
      ("next_value", .bool signals.next), ("inputs", ofNames .bool signals.inputs),
      ("outputs", ofNames .bool signals.outputs), ("internals", .list (toData parts))]

/-- The written forms of saved instances. -/
def toData : List InstanceSnapshot → List Datum
  | [] => []
  | s :: rest => s.toDatum :: toData rest

end

/-- A saved instance with parts nested at most `n` deep. -/
def ofNestedDatum? : Nat → Reading InstanceSnapshot
  | 0, _, _ => none
  | n + 1, t, d => do
    let r ← Record.ofDatum? fieldNames t d
    return {
      part := {
        id := ← r.withDefault "id" "" string
        chip := ← r.withDefault "type" "" string
        position := ← r.withDefault "position" none (optional Form.read) }
      expanded := ← r.withDefault "expanded" false flag
      signals := {
        value := ← r.withDefault "value" false flag
        next := ← r.withDefault "next_value" false flag
        inputs := ← r.withDefault "inputs" ∅ (tableOf flag)
        outputs := ← r.withDefault "outputs" ∅ (tableOf flag) }
      parts := ← r.withDefault "internals" [] (listOf (ofNestedDatum? n)) }

/-- A saved instance. Its parts cannot be nested deeper than lists and tables may be. -/
def ofDatum? : Reading InstanceSnapshot := fun t d => ofNestedDatum? t.room t d

instance : Form InstanceSnapshot := ⟨toDatum, ofDatum?⟩

end InstanceSnapshot

namespace Snapshot

def toDatum (s : Snapshot) : Datum :=
  .table [("clock", ofUInt64 s.clock), ("instances", .list (s.instances.map Form.write)),
    ("wires", .list (s.wires.map Form.write))]

def ofDatum? : Reading Snapshot := fun t d => do
  let r ← Record.ofDatum? ["clock", "instances", "wires"] t d
  return {
    clock := ← r.withDefault "clock" 0 uint64
    instances := ← r.withDefault "instances" [] (listOf Form.read)
    wires := ← r.withDefault "wires" [] (listOf Form.read) }

instance : Form Snapshot := ⟨toDatum, ofDatum?⟩

end Snapshot

end Breadboard
