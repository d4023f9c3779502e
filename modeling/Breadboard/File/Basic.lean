import Breadboard.Datum.Reading
import Breadboard.Datum.Toml.Parse

/-!
# Files

Catalogs and settings are kept in TOML files. Whatever a file may nest may also be read, and a list
that stands for a record may have items to spare.
-/

namespace Breadboard.File

/-- The value that the text of a file writes. -/
def read? {α : Type} (reading : Reading α) (text : String) : Option α :=
  (Toml.parse? text).bind fun d => reading { room := d.depth, spareItems := true } d

end Breadboard.File
