import Breadboard.Datum.Toml.Token

/-!
# Brackets in TOML

The tokens of a text are grouped by their brackets and braces. In a well-formed text these are
balanced, whatever they enclose: a header, an array or an inline table.
-/

namespace Breadboard.Toml

/-- A token, or what a pair of brackets or braces encloses. -/
inductive Tree where
  | token (t : Token)
  | brackets (inner : List Tree)
  | braces (inner : List Tree)

/-- Group the rest of the tokens. `outer` holds what comes before each bracket that is still open,
the last token first, and whether the bracket is a brace; `done` is what comes after the last of
them. -/
def groupFrom : List (Bool × List Tree) → List Tree → List Token → Option (List Tree)
  | [], done, [] => some done.reverse
  | _ :: _, _, [] => none
  | outer, done, t :: rest =>
    match t, outer with
    | .openBracket, outer => groupFrom ((false, done) :: outer) [] rest
    | .openBrace, outer => groupFrom ((true, done) :: outer) [] rest
    | .closeBracket, (false, before) :: outer =>
      groupFrom outer (.brackets done.reverse :: before) rest
    | .closeBrace, (true, before) :: outer =>
      groupFrom outer (.braces done.reverse :: before) rest
    | .closeBracket, _ => none
    | .closeBrace, _ => none
    | t, outer => groupFrom outer (.token t :: done) rest

/-- Group tokens by their brackets and braces. -/
def group (ts : List Token) : Option (List Tree) := groupFrom [] [] ts

mutual

/-- How deep brackets and braces are nested. -/
def Tree.depth : Tree → Nat
  | .token _ => 0
  | .brackets inner => 1 + depthAll inner
  | .braces inner => 1 + depthAll inner

/-- The depth of the deepest tree. -/
def depthAll : List Tree → Nat
  | [] => 0
  | t :: rest => max t.depth (depthAll rest)

end

end Breadboard.Toml
