import Breadboard.Datum.Basic
import Breadboard.Text.Numeral

/-!
# Writing data as JSON

Two forms: `compact` without any blank, and `pretty` with two blanks for each level and one item or
member a line, where an empty list or table stays on its line.

A quote and a backslash in a string are escaped by a backslash, and so are the control characters
below 0x20, by a letter where there is one and else by their number. All others stand as they are.

`real` and `unreadable` have no written form, and no writer of this library makes them; `null`
stands in for them.
-/

namespace Breadboard.Json

open Text (writeInt)

/-! ## Scalars -/

/-- A digit below 16. -/
def hexDigit (n : Nat) : Char := Nat.digitChar n

/-- A character inside a string. -/
def escape (c : Char) : List Char :=
  if c = '"' then ['\\', '"']
  else if c = '\\' then ['\\', '\\']
  else if c = '\x08' then ['\\', 'b']
  else if c = '\x0c' then ['\\', 'f']
  else if c = '\n' then ['\\', 'n']
  else if c = '\r' then ['\\', 'r']
  else if c = '\t' then ['\\', 't']
  else if c.toNat < 0x20 then
    ['\\', 'u', '0', '0', hexDigit (c.toNat / 16), hexDigit (c.toNat % 16)]
  else [c]

/-- A string between its quotes. -/
def quote (s : String) : List Char := '"' :: s.toList.flatMap escape ++ ['"']

/-! ## Without blanks -/

mutual

/-- The compact form of a piece of data. -/
def compactChars : Datum → List Char
  | .null | .real | .unreadable => ['n', 'u', 'l', 'l']
  | .bool true => ['t', 'r', 'u', 'e']
  | .bool false => ['f', 'a', 'l', 's', 'e']
  | .integer n => writeInt n
  | .text s => quote s
  | .list items => '[' :: compactItems items ++ [']']
  | .table members => '\x7b' :: compactMembers members ++ ['\x7d']

/-- The compact forms of items, between commas. -/
def compactItems : List Datum → List Char
  | [] => []
  | [d] => compactChars d
  | d :: rest => compactChars d ++ ',' :: compactItems rest

/-- The compact forms of members, between commas. -/
def compactMembers : List (String × Datum) → List Char
  | [] => []
  | [(name, d)] => quote name ++ ':' :: compactChars d
  | (name, d) :: rest => quote name ++ ':' :: compactChars d ++ ',' :: compactMembers rest

end

/-- The compact form of a piece of data. -/
def compact (d : Datum) : String := .ofList (compactChars d)

/-! ## With blanks -/

/-- A new line at a level. -/
def newline (level : Nat) : List Char := '\n' :: List.replicate (2 * level) ' '

mutual

/-- The pretty form of a piece of data that begins at a level. -/
def prettyChars (level : Nat) : Datum → List Char
  | .list [] => ['[', ']']
  | .list (d :: rest) =>
    '[' :: newline (level + 1) ++ prettyItems (level + 1) (d :: rest) ++ newline level ++ [']']
  | .table [] => ['\x7b', '\x7d']
  | .table (m :: rest) =>
    '\x7b' :: newline (level + 1) ++ prettyMembers (level + 1) (m :: rest) ++ newline level ++
      ['\x7d']
  | .null => compactChars .null
  | .bool b => compactChars (.bool b)
  | .integer n => compactChars (.integer n)
  | .real => compactChars .real
  | .text s => compactChars (.text s)
  | .unreadable => compactChars .unreadable

/-- The pretty forms of items at a level, one a line. -/
def prettyItems (level : Nat) : List Datum → List Char
  | [] => []
  | [d] => prettyChars level d
  | d :: rest => prettyChars level d ++ ',' :: newline level ++ prettyItems level rest

/-- The pretty forms of members at a level, one a line. -/
def prettyMembers (level : Nat) : List (String × Datum) → List Char
  | [] => []
  | [(name, d)] => quote name ++ ':' :: ' ' :: prettyChars level d
  | (name, d) :: rest =>
    quote name ++ ':' :: ' ' :: prettyChars level d ++ ',' :: newline level ++
      prettyMembers level rest

end

/-- The pretty form of a piece of data. -/
def pretty (d : Datum) : String := .ofList (prettyChars 0 d)

end Breadboard.Json
