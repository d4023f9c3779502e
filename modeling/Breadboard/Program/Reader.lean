import Breadboard.Issue.IssueSet
import Breadboard.Program.Basic
import Breadboard.Program.Issue
import Breadboard.Text.Blank
import Breadboard.Text.Line
import Breadboard.Text.Numeral
import Breadboard.Text.Upper

/-!
# Reading a program

Reading never fails: a line that is not understood is skipped or kept in part, and reported. Lines
are read one by one and nothing carries over from one to the next.

* `statement? line` is the statement of one line;
* `problem? line` is what there is to report about it.
-/

namespace Breadboard

open Text

/-- A program with the issues found in reading it. -/
structure ParsedProgram where
  program : Program
  issues : IssueSet LineIssue

namespace Program

/-- A position, if the first two words are integers of 64 bits. -/
def position? : List (List Char) → Option Position
  | x :: y :: _ => return ⟨← readInt64? x, ← readInt64? y⟩
  | _ => none

/-- Is the word the keyword of a wire, in any case? -/
def isWireKeyword (word : List Char) : Bool := upper (String.ofList word) == wireKeyword

/-- The wire declared by the words after the keyword. -/
def wire? : List (List Char) → Option WireDecl
  | [source, target] => some ⟨.ofList source, .ofList target, .implicit⟩
  | [source, target, pin] => some ⟨.ofList source, .ofList target, .ambiguous (.ofList pin)⟩
  | source :: target :: sourcePin :: targetPin :: _ =>
    some ⟨.ofList source, .ofList target, .both (.ofList sourcePin) (.ofList targetPin)⟩
  | _ => none

/-- The statement of a line. -/
def statement? (line : List Char) : Option Statement :=
  match words line with
  | chip :: id :: rest =>
    if isWireKeyword chip then (wire? (id :: rest)).map .wire
    else some (.part ⟨.ofList id, upper (.ofList chip), position? rest⟩)
  | _ => none

/-- What there is to report about a line. -/
def problem? (line : List Char) : Option LineProblem :=
  match words line with
  | [] => none
  | [_] => some (.tooFewTokens (.ofList line))
  | chip :: id :: rest =>
    if isWireKeyword chip then
      if (wire? (id :: rest)).isNone then some (.tooFewTokens (.ofList line)) else none
    else if !rest.isEmpty && (position? rest).isNone then
      some (.invalidCoordinates (.ofList line))
    else none

/-- The issues of lines of which the first has the number `n`. -/
def lineIssues (n : Nat) : List (List Char) → List LineIssue
  | [] => []
  | line :: rest =>
    match problem? line with
    | some cause => ⟨.ofNat n, cause, .info⟩ :: lineIssues (n + 1) rest
    | none => lineIssues (n + 1) rest

/-- The program of a text and the issues of its lines. -/
def parse (text : String) : ParsedProgram :=
  let ls := lines text.toList
  ⟨⟨ls.filterMap statement?⟩, .ofList (lineIssues 1 ls)⟩

end Program

end Breadboard
