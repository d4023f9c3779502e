import Breadboard.Datum.Json.Token

/-!
# Data from JSON

The tokens of a text are read one by one. What is still open is kept as a stack of frames, so the
reader needs no more than one step for each token, however deep the text is nested.

A table with an unreadable name is unreadable as a whole: whoever reads a table reads its names.
-/

namespace Breadboard.Json

/-- The members of a table so far, the last one first; a name may be unreadable. -/
abbrev Members := List (Option String × Datum)

/-- A list or table that is still open. -/
inductive Frame where
  /-- The items so far, the last one first. -/
  | list (items : List Datum)
  /-- The members so far and the name of the next one. -/
  | table (members : Members) (name : Option String)

/-- What must come next. -/
inductive Expect where
  | value
  /-- The first item of a list, or its end. -/
  | firstItem
  /-- The first name of a table, or its end. -/
  | firstName
  /-- The next name of a table with these members. -/
  | name (members : Members)
  /-- The colon after a name. -/
  | colon (members : Members) (name : Option String)
  /-- What may follow this value. -/
  | afterValue (d : Datum)

/-- The table of these members. -/
def tableOf (members : Members) : Datum :=
  match members.reverse.mapM fun (name, d) => name.map (·, d) with
  | some members => .table members
  | none => .unreadable

/-- Read the rest of a text. -/
def parseFrom : Expect → List Frame → List Token → Option Datum
  | .afterValue d, [], [] => some d
  | _, _, [] => none
  | .value, frames, token :: rest =>
    match token with
    | .openList => parseFrom .firstItem frames rest
    | .openTable => parseFrom .firstName frames rest
    | token =>
      match token.value? with
      | some d => parseFrom (.afterValue d) frames rest
      | none => none
  | .firstItem, frames, token :: rest =>
    match token with
    | .closeList => parseFrom (.afterValue (.list [])) frames rest
    | .openList => parseFrom .firstItem (.list [] :: frames) rest
    | .openTable => parseFrom .firstName (.list [] :: frames) rest
    | token =>
      match token.value? with
      | some d => parseFrom (.afterValue d) (.list [] :: frames) rest
      | none => none
  | .firstName, frames, token :: rest =>
    match token with
    | .closeTable => parseFrom (.afterValue (.table [])) frames rest
    | .string name => parseFrom (.colon [] name) frames rest
    | _ => none
  | .name members, frames, token :: rest =>
    match token with
    | .string name => parseFrom (.colon members name) frames rest
    | _ => none
  | .colon members name, frames, token :: rest =>
    match token with
    | .colon => parseFrom .value (.table members name :: frames) rest
    | _ => none
  | .afterValue d, .list items :: frames, token :: rest =>
    match token with
    | .comma => parseFrom .value (.list (d :: items) :: frames) rest
    | .closeList => parseFrom (.afterValue (.list (d :: items).reverse)) frames rest
    | _ => none
  | .afterValue d, .table members name :: frames, token :: rest =>
    match token with
    | .comma => parseFrom (.name ((name, d) :: members)) frames rest
    | .closeTable => parseFrom (.afterValue (tableOf ((name, d) :: members))) frames rest
    | _ => none
  | .afterValue _, [], _ :: _ => none

/-- The single value that a text writes, with nothing around it but blanks. -/
def parse? (text : String) : Option Datum :=
  (tokens text.toList).bind (parseFrom .value [])

end Breadboard.Json
