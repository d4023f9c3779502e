import Breadboard.Datum.Toml.Value

/-!
# Data from TOML

A text is read line by line, where line ends inside brackets do not count: a header begins a new
table, and a key with its value goes into the table that was begun last.
-/

namespace Breadboard.Toml

/-- A line that is not empty. -/
inductive Line where
  /-- The header of a table. -/
  | header (path : List String) (name : String)
  /-- The header of one of several tables of a name. -/
  | listHeader (path : List String) (name : String)
  | entry (path : List String) (name : String) (d : Datum)

/-- The trees of each line. -/
def linesOf : List Tree → List (List Tree)
  | [] => [[]]
  | .token .newline :: rest => [] :: linesOf rest
  | t :: rest =>
    match linesOf rest with
    | [] => [[t]]
    | line :: lines => (t :: line) :: lines

/-- Is it a blank? -/
def Tree.isBlank : Tree → Bool
  | .token (.blank _) => true
  | _ => false

/-- The key that a header encloses. -/
def headerKey? (inner : List Tree) : Option (List String × String) := (pieces? inner).bind key?

/-- The meaning of a line without blanks at its ends. -/
def line? : List Tree → Option Line
  | [.brackets [.brackets inner]] =>
    (headerKey? inner).map fun (path, name) => .listHeader path name
  | [.brackets inner] => (headerKey? inner).map fun (path, name) => .header path name
  | ts =>
    if depthAll ts ≤ limit then
      ((pieces? ts).bind entry?).map fun (path, name, d) => .entry path name d
    else none

/-- The meanings of the lines that are not empty. -/
def lines? (ts : List Tree) : Option (List Line) :=
  let trimmed := (linesOf ts).map fun line =>
    ((line.dropWhile Tree.isBlank).reverse.dropWhile Tree.isBlank).reverse
  (trimmed.filter fun line => !line.isEmpty).mapM line?

/-- A header, absent for the top of the file, with the entries below it. -/
structure Section where
  header : Option Line
  entries : List (List String × String × Datum)

/-- The sections of a file that begins with the entries of a section under `header`. -/
def sectionsFrom (header : Option Line) : List Line → List Section
  | [] => [⟨header, []⟩]
  | .entry path name d :: rest =>
    match sectionsFrom header rest with
    | [] => []
    | s :: ss => { s with entries := (path, name, d) :: s.entries } :: ss
  | line :: rest => ⟨header, []⟩ :: sectionsFrom (some line) rest

/-- Add a section to a file. -/
def addSection (root : Members) (s : Section) : Option Members :=
  match s.header with
  | some (.header path name) => defineTable root path name s.entries
  | some (.listHeader path name) => appendTable root path name s.entries
  | _ => addMembers root s.entries

/-- The text without a byte order mark. -/
def dropMark : List Char → List Char
  | '\ufeff' :: cs => cs
  | cs => cs

/-- The table that a text writes. -/
def parse? (text : String) : Option Datum := do
  let ts ← tokens (dropMark text.toList)
  let lines ← lines? (← group ts)
  let root ← (sectionsFrom none lines).foldlM addSection []
  return .table (toData root)

end Breadboard.Toml
