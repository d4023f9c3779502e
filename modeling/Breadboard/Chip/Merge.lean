import Breadboard.Chip.Catalog

/-!
# Merging composites into a catalog

Composites are merged all or none: if the name of one of them is that of a primitive, in letters of
either case, the first such name is what is wrong (`clash?`) and the catalog stays as it is.
-/

namespace Breadboard.Catalog

open Text (upper)

/-- Is `chip`, in upper case, a primitive of the catalog? -/
def hasPrimitive (c : Catalog) (chip : String) : Bool :=
  match c.get? (upper chip) with
  | some (.primitive _) => true
  | _ => false

/-- The first name that belongs to a primitive. -/
def clash? (c : Catalog) (chips : NameMap Composite) : Option String :=
  chips.keys.find? c.hasPrimitive

/-- Define each of the composites, in order. -/
def insertAll (c : Catalog) (chips : NameMap Composite) : Catalog :=
  chips.entries.foldl (fun c e => c.insert e.1 (.composite e.2)) c

/-- Define all of the composites, or tell the name that none of them may have. -/
def merge (c : Catalog) (chips : NameMap Composite) : Except String Catalog :=
  match c.clash? chips with
  | some chip => .error chip
  | none => .ok (c.insertAll chips)

end Breadboard.Catalog
