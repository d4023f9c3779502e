import Breadboard.Text.Quoted

/-!
# What stops a run
-/

namespace Breadboard.CommandLine

/-- Why a run stopped without a result. -/
inductive Failure where
  /-- There is no such file, or it is no text. -/
  | unreadable (path : String)
  | badConfig (path : String)
  | badCatalog (path : String)
  /-- The check of the merged catalog found an error. -/
  | unfitCatalog
deriving DecidableEq, Repr

def Failure.text : Failure → String
  | unreadable path => "Failed to read " ++ Text.quoted path ++ "."
  | badConfig path => "Failed to parse config file " ++ Text.quoted path ++ "."
  | badCatalog path => "Failed to load catalog " ++ Text.quoted path ++ "."
  | unfitCatalog => "One or more errors in chip catalog identified; aborting."

end Breadboard.CommandLine
