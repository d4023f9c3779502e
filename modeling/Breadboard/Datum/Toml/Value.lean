import Breadboard.Datum.Toml.Scalar
import Breadboard.Datum.Toml.Table
import Breadboard.Datum.Toml.Tree

/-!
# The values of TOML

A value is found from the inside out: what brackets and braces enclose is turned into data first
(`Tree.piece?`), so that the text around it is a plain sequence of pieces to be cut at its commas.
-/

namespace Breadboard.Toml

/-- How deep brackets and braces may be nested in a value, and how many names a key may have. -/
def limit : Nat := 79

/-- A token outside of brackets, or the data that brackets stand for. -/
inductive Piece where
  | token (t : Token)
  | datum (d : Datum)

namespace Piece

/-- Is it a token that satisfies `p`? -/
def isToken (p : Token → Bool) : Piece → Bool
  | token t => p t
  | datum _ => false

def isBlank : Piece → Bool := isToken fun
  | .blank _ => true
  | _ => false

def isBlankOrNewline : Piece → Bool := isToken fun
  | .blank _ => true
  | .newline => true
  | _ => false

/-- The characters of a piece of a scalar without quotes. -/
def scalarChars? : Piece → Option (List Char)
  | token (.word cs) => some cs
  | token .plus => some ['+']
  | token .colon => some [':']
  | token .dot => some ['.']
  | token (.blank true) => some [' ']
  | _ => none

end Piece

/-- What is left after the pieces that satisfy `p` are taken off both ends. -/
def trim (p : Piece → Bool) (ps : List Piece) : List Piece :=
  ((ps.dropWhile p).reverse.dropWhile p).reverse

/-- The parts between the pieces that satisfy `p`. -/
def cutAt (p : Piece → Bool) : List Piece → List (List Piece)
  | [] => [[]]
  | x :: rest =>
    if p x then [] :: cutAt p rest
    else
      match cutAt p rest with
      | [] => [[x]]
      | part :: parts => (x :: part) :: parts

/-! ## Keys -/

/-- The name that a part of a key writes. -/
def name? (ps : List Piece) : Option String :=
  match trim Piece.isBlank ps with
  | [.token (.word cs)] => some (.ofList cs)
  | [.token (.line s)] => some s
  | _ => none

/-- The names of a key: those before the last, and the last. -/
def key? (ps : List Piece) : Option (List String × String) := do
  let names ← (cutAt (Piece.isToken (· == .dot)) ps).mapM name?
  if names.length ≤ limit then return (names.dropLast, ← names.getLast?) else none

/-! ## Values -/

/-- The value that pieces without blanks at their ends write. -/
def valueOf? : List Piece → Option Datum
  | [.datum d] => some d
  | [.token (.line s)] => some (.text s)
  | [.token (.block s)] => some (.text s)
  | ps => (ps.mapM Piece.scalarChars?).bind fun css => scalar? css.flatten

/-- A key and its value. -/
def entry? (ps : List Piece) : Option (List String × String × Datum) := do
  let isKey := fun p => !Piece.isToken (· == .equals) p
  let (path, name) ← key? (ps.takeWhile isKey)
  let value ← valueOf? (trim Piece.isBlank ((ps.dropWhile isKey).drop 1))
  return (path, name, value)

/-- The list that brackets enclose: values between commas, blanks and line ends around them, and
perhaps a comma after the last. -/
def listOf? (ps : List Piece) : Option Datum := do
  let parts := (cutAt (Piece.isToken (· == .comma)) ps).map (trim Piece.isBlankOrNewline)
  let parts := if parts.getLast?.any List.isEmpty then parts.dropLast else parts
  return .list (← parts.mapM valueOf?)

/-- The table that braces enclose: keys and values between commas, all on one line. -/
def tableOf? (ps : List Piece) : Option Datum := do
  let entries ←
    if (trim Piece.isBlank ps).isEmpty then some []
    else (cutAt (Piece.isToken (· == .comma)) ps).mapM entry?
  return .table (toData (← addMembers [] entries))

mutual

/-- The piece that a tree stands for where a value may stand. -/
def Tree.piece? : Tree → Option Piece
  | .token t => some (.token t)
  | .brackets inner => do return .datum (← listOf? (← pieces? inner))
  | .braces inner => do return .datum (← tableOf? (← pieces? inner))

/-- The pieces that trees stand for where values may stand. -/
def pieces? : List Tree → Option (List Piece)
  | [] => some []
  | t :: rest => do
    let p ← t.piece?
    return p :: (← pieces? rest)

end

end Breadboard.Toml
