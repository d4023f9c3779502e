/-!
# Paths

A path is a sequence of names between slashes; it is absolute if it begins with a slash. `join`
says what a path means that is written in a file of the directory `base`.
-/

namespace Breadboard.Path

/-- Does the path begin with a slash? -/
def isAbsolute (path : String) : Bool := path.toList.head? == some '/'

/-- A directory path, written backwards and with its slash in front, without that slash and without
empty and `.` names before it. The root keeps its slash. -/
def trimBack : List Char → List Char
  | ['/'] => ['/']
  | '/' :: '/' :: cs => trimBack ('/' :: cs)
  | '/' :: '.' :: '/' :: cs => trimBack ('/' :: cs)
  | '/' :: cs => cs
  | cs => cs

/-- The directory of a path that ends with the name of a file. -/
def parent (path : String) : String :=
  .ofList (trimBack (path.toList.reverse.dropWhile (· != '/'))).reverse

/-- The path `path` as seen from the directory `base`. -/
def join (base path : String) : String :=
  if isAbsolute path then path
  else
    match base.toList.getLast? with
    | none | some '/' => base ++ path
    | some _ => base ++ "/" ++ path

end Breadboard.Path
