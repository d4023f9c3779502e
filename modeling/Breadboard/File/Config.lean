import Breadboard.File.Basic
import Breadboard.File.Path
import Breadboard.Form.Circuit

/-!
# Settings files

An options file holds the options of a simulator. A configuration file lists `catalogs`, by paths
relative to its own directory, and holds the options in a table `[sim]`.
-/

namespace Breadboard

/-- The options that the text of a file holds. -/
def SimOptions.ofFile? (text : String) : Option SimOptions := File.read? Form.read text

/-- What a configuration file says. -/
structure Config where
  /-- Paths of catalog files, in the order in which they are merged. -/
  catalogs : List String := []
  sim : SimOptions := {}
deriving DecidableEq, Repr

namespace Config

def ofDatum? : Reading Config := fun t d => do
  let r ← Record.ofDatum? ["catalogs", "sim"] t d
  return {
    catalogs := ← r.withDefault "catalogs" [] (Reading.listOf Reading.string)
    sim := ← r.withDefault "sim" {} Form.read }

/-- The configuration that the text of the file at `path` holds. -/
def ofFile? (path text : String) : Option Config :=
  (File.read? ofDatum? text).map fun config =>
    { config with catalogs := config.catalogs.map (Path.join (Path.parent path)) }

end Config

end Breadboard
