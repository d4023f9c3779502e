import Breadboard.Issue.Severity

/-!
# What a check of a catalog reports

An error makes the catalog unfit for use; a warning says what will read as 0.
-/

namespace Breadboard

/-- What is wrong with a composite. -/
inductive CatalogProblem where
  /-- Types each of which has a part of the next type; the last is the first again. -/
  | cyclicDefinition (chain : List String)
  /-- Two parts of a composite with the same id. -/
  | duplicateComponentIds (chip id : String)
  /-- A part of a type that the catalog does not have. -/
  | unknownComponentType (chip id componentType : String)
  /-- A pin that the pin map ties to a part that does not exist. The main output counts as a pin
  of the name `output`. -/
  | danglingMapping (chip pin id : String)
  /-- An end of a wire that is no part and, for a source, no input pin either. -/
  | unknownWireEndpoint (chip endpoint : String)
  /-- An input pin in the pin map that the composite does not declare. -/
  | unknownInputPin (chip pin : String)
deriving DecidableEq, Repr

/-- A report on a catalog. -/
structure CatalogIssue where
  cause : CatalogProblem
  severity : Severity
deriving DecidableEq, Repr

def CatalogProblem.text : CatalogProblem → String
  | cyclicDefinition chain => "cyclic chip definition: " ++ " -> ".intercalate chain
  | duplicateComponentIds chip id =>
    "duplicate component IDs: found two or more components named `" ++ id ++ "` in chip `" ++
      chip ++ "`"
  | unknownComponentType chip id componentType =>
    "unknown component type: component `" ++ id ++ "` in chip `" ++ chip ++ "` has type `" ++
      componentType ++ "`, which is not in the catalog; it will always output 0"
  | danglingMapping chip pin id =>
    "dangling I/O mapping: pin `" ++ pin ++ "` of chip `" ++ chip ++ "` references component `" ++
      id ++ "`, which does not exist"
  | unknownWireEndpoint chip endpoint =>
    "unknown wire endpoint: a wire in chip `" ++ chip ++ "` references `" ++ endpoint ++
      "`, which is neither a component nor an input pin; it will read as 0"
  | unknownInputPin chip pin =>
    "unknown input pin: the I/O mapping of chip `" ++ chip ++ "` maps pin `" ++ pin ++
      "`, which the chip does not declare"

instance : Diagnostic CatalogIssue where
  text issue := issue.cause.text
  severity := CatalogIssue.severity

end Breadboard
