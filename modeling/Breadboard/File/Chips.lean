import Breadboard.Chip.Merge
import Breadboard.File.Basic
import Breadboard.Form.Chip

/-!
# Catalog files

A catalog file has one table `[chips.NAME]` for each composite.
-/

namespace Breadboard

/-- Why a catalog file was not merged. -/
inductive CatalogFileError where
  /-- The text is no TOML, or its chips are no composites. -/
  | malformed
  /-- A chip, named as in the file, would replace a primitive. -/
  | redefinesPrimitive (chip : String)
deriving DecidableEq, Repr

namespace CatalogFileError

def text : CatalogFileError → String
  | malformed => "could not parse catalog"
  | redefinesPrimitive chip => "cannot redefine primitive chip `" ++ chip ++ "`"

end CatalogFileError

namespace File

/-- The composites of a catalog file. -/
def chips : Reading (NameMap Composite) := fun t d => do
  let r ← Record.ofDatum? ["chips"] t d
  r.withDefault "chips" ∅ (Reading.tableOf Form.read)

end File

namespace Catalog

/-- Merge the composites of a catalog file, and tell how many there are. -/
def mergeFile (c : Catalog) (text : String) : Except CatalogFileError (Catalog × Nat) :=
  match File.read? File.chips text with
  | none => .error .malformed
  | some chips =>
    match c.merge chips with
    | .error chip => .error (.redefinesPrimitive chip)
    | .ok merged => .ok (merged, chips.size)

end Catalog

end Breadboard
