import Breadboard.Chip.Catalog
import Breadboard.Circuit.Instance

/-!
# Building instances from a catalog

`bodyOf catalog chip` is what a chip of that type does: a switch if the type is `INPUT`, nothing
known if the catalog has no such type, and for a composite one instance for each of its parts, all
signals low.

The parts of a composite are built from the catalog **without** the composite itself. A type that
contains itself is therefore unknown inside itself, and every step has one type less to build from,
so building ends on every catalog.
-/

namespace Breadboard

/-- What a chip of type `chip` does. -/
def bodyOf (catalog : Catalog) (chip : String) : Body Instance :=
  if chip = inputType then .primitive .input
  else
    match _h : catalog.get? chip with
    | none => .unknown
    | some (.primitive d) => .primitive d.kind
    | some (.composite d) =>
      .composite
        (d.parts.map fun part => { part, body := bodyOf (catalog.erase chip) part.chip }) d.wires
termination_by catalog.size
decreasing_by exact Catalog.size_erase_lt _h

/-- A new chip with all signals low; its type is put in upper case. -/
def Instance.fresh (catalog : Catalog) (part : Part) : Instance :=
  { part := part.fold, body := bodyOf catalog part.fold.chip }

/-- The parts and wires inside a chip of type `chip`, if it is a composite. -/
def instantiate? (catalog : Catalog) (chip : String) : Option (List Instance × List Wire) :=
  match bodyOf catalog chip with
  | .composite parts wires => some (parts, wires)
  | _ => none

/-! ## Lemmas -/

theorem Instance.fresh_fold (catalog : Catalog) (part : Part) :
    Instance.fresh catalog part.fold = Instance.fresh catalog part := by
  unfold Instance.fresh
  rw [Part.fold_fold]

theorem bodyOf_input (catalog : Catalog) : bodyOf catalog inputType = .primitive .input := by
  rw [bodyOf, if_pos rfl]

theorem bodyOf_unknown {catalog : Catalog} {chip : String} (hi : chip ≠ inputType)
    (h : catalog.get? chip = none) : bodyOf catalog chip = .unknown := by
  rw [bodyOf, if_neg hi]
  split <;> simp_all

theorem bodyOf_primitive {catalog : Catalog} {chip : String} (hi : chip ≠ inputType)
    {d : Primitive} (h : catalog.get? chip = some (.primitive d)) :
    bodyOf catalog chip = .primitive d.kind := by
  rw [bodyOf, if_neg hi]
  split <;> simp_all

/-- **The parts of a composite are built from the catalog without it.** -/
theorem bodyOf_composite {catalog : Catalog} {chip : String} (hi : chip ≠ inputType)
    {d : Composite} (h : catalog.get? chip = some (.composite d)) :
    bodyOf catalog chip = .composite
      (d.parts.map fun part => { part, body := bodyOf (catalog.erase chip) part.chip })
      d.wires := by
  rw [bodyOf, if_neg hi]
  split <;> simp_all

end Breadboard
