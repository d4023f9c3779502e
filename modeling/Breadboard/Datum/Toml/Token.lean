import Breadboard.Text.Hex

/-!
# The tokens of TOML

A text is cut into words, strings, punctuation, blanks and line ends. What a word means depends on
where it stands, so a number or date may still be several tokens here: `1.5` is a word, a dot and a
word. A comment counts as a blank.

The body of a string is found first (`cut`) and then its escapes are undone (`undoEscapes`).
-/

namespace Breadboard.Toml

/-- A token. -/
inductive Token where
  | newline
  /-- Spaces and tabs, or a comment; `single` says that it is one space. -/
  | blank (single : Bool)
  /-- Letters, digits, `_` and `-`. -/
  | word (cs : List Char)
  /-- A string on one line. -/
  | line (s : String)
  /-- A string that may span lines. -/
  | block (s : String)
  | plus
  | colon
  | dot
  | comma
  | equals
  | openBracket
  | closeBracket
  | openBrace
  | closeBrace
deriving DecidableEq, Repr

/-! ## Characters -/

/-- A character of a word. -/
def isWordChar (c : Char) : Bool := c.isAlphanum || c == '_' || c == '-'

def isSpace (c : Char) : Bool := c == ' ' || c == '\t'

/-- A character that may stand in a comment or string: no control character but the tab. -/
def isTextChar (c : Char) : Bool := c == '\t' || (0x20 ≤ c.toNat && c.toNat != 0x7F)

/-! ## Strings -/

/-- Does a character have the meaning of a quote or backslash that a backslash takes away? -/
def isMeant (quote c : Char) : Bool := c == quote || c == '\\'

/-- The body of a string that `quote` ends, and the text after it. A block ends at three quotes, and
up to two more quotes before them belong to it; its line ends become line feeds. With `escapes`, a
backslash keeps the next quote or backslash from meaning anything, and `escaped` says that the last
character was such a backslash. -/
def cut (quote : Char) (escapes block escaped : Bool) :
    List Char → Option (List Char × List Char)
  | [] => none
  | c :: rest =>
    if escaped && isMeant quote c then
      (cut quote escapes block false rest).map fun (body, after) => (c :: body, after)
    else if c == quote then
      let run := min 5 ((c :: rest).takeWhile (· == quote)).length
      if !block then some ([], rest)
      else if 3 ≤ run then some (List.replicate (run - 3) quote, rest.drop (run - 1))
      else (cut quote escapes block false rest).map fun (body, after) => (c :: body, after)
    else if block && c == '\r' && rest.head? == some '\n' then
      cut quote escapes block false rest
    else if isTextChar c || (block && c == '\n') then
      (cut quote escapes block (escapes && c == '\\') rest).map fun (body, after) =>
        (c :: body, after)
    else none

/-- The character whose number the digits write. -/
def charOf? (digits : List Char) : Option Char :=
  match Text.hexNumber? digits with
  | some n => if (Char.ofNat n).toNat = n then some (.ofNat n) else none
  | none => none

/-- The character after a backslash stands for this one. -/
def unescape? : Char → Option Char
  | 'b' => some '\x08'
  | 't' => some '\t'
  | 'n' => some '\n'
  | 'f' => some '\x0c'
  | 'r' => some '\r'
  | '"' => some '"'
  | '\\' => some '\\'
  | _ => none

/-- Where a backslash at the end of a line has led. -/
inductive Fill where
  /-- Nowhere. -/
  | text
  /-- The line must end here. -/
  | gap
  /-- Blanks and line ends are left out. -/
  | skip
deriving DecidableEq, Repr

/-- The body of a string with its escapes undone. -/
def undoEscapes (fill : Fill) : List Char → Option (List Char)
  | [] => if fill = .gap then none else some []
  | c :: rest =>
    if fill = .gap then
      if isSpace c then undoEscapes .gap rest
      else if c = '\n' then undoEscapes .skip rest
      else none
    else if fill = .skip ∧ (isSpace c ∨ c = '\n') then undoEscapes .skip rest
    else if c = '\\' then
      match rest with
      | [] => none
      | 'u' :: a :: b :: c :: d :: rest => do
        let x ← charOf? [a, b, c, d]
        return x :: (← undoEscapes .text rest)
      | 'U' :: a :: b :: c :: d :: e :: f :: g :: h :: rest => do
        let x ← charOf? [a, b, c, d, e, f, g, h]
        return x :: (← undoEscapes .text rest)
      | e :: rest =>
        if isSpace e then undoEscapes .gap rest
        else if e = '\n' then undoEscapes .skip rest
        else do
          let x ← unescape? e
          return x :: (← undoEscapes .text rest)
    else (undoEscapes .text rest).map (c :: ·)

/-- The characters that the body of a string stands for. The line end directly after the opening
quotes of a block is left out. -/
def textOf? (escapes block : Bool) (body : List Char) : Option String :=
  let body := match block, body with
    | true, '\n' :: body => body
    | _, body => body
  (if escapes then undoEscapes .text body else some body).map .ofList

/-- A string that begins after its opening quotes, and the text after it. -/
def scanString (quote : Char) (block : Bool) (cs : List Char) : Option (String × List Char) :=
  let escapes := quote == '"'
  match cut quote escapes block false cs with
  | some (body, rest) => (textOf? escapes block body).map (·, rest)
  | none => none

/-! ## Tokens -/

/-- Is this the quote of some string? -/
def isQuote (c : Char) : Bool := c == '"' || c == '\''

/-- The token of a single character. -/
def mark? : Char → Option Token
  | '\n' => some .newline
  | '+' => some .plus
  | ':' => some .colon
  | '.' => some .dot
  | ',' => some .comma
  | '=' => some .equals
  | '[' => some .openBracket
  | ']' => some .closeBracket
  | '\x7b' => some .openBrace
  | '\x7d' => some .closeBrace
  | _ => none

/-- The string that begins after a quote; three quotes begin a block. -/
def scanQuoted (quote : Char) (cs : List Char) : Option (Token × List Char) :=
  if cs.take 2 = [quote, quote] then
    (scanString quote true (cs.drop 2)).map fun (s, rest) => (.block s, rest)
  else (scanString quote false cs).map fun (s, rest) => (.line s, rest)

/-- The comment that begins after its mark. -/
def scanComment (cs : List Char) : Option (Token × List Char) :=
  let isInside := fun d => d != '\n' && d != '\r'
  if (cs.takeWhile isInside).all isTextChar then some (.blank false, cs.dropWhile isInside)
  else none

/-- The token at the front of a text that begins with `c`. -/
def scanToken (c : Char) (rest : List Char) : Option (Token × List Char) :=
  if isSpace c then
    some (.blank (c == ' ' && !rest.head?.any isSpace), rest.dropWhile isSpace)
  else if isWordChar c then
    some (.word (c :: rest.takeWhile isWordChar), rest.dropWhile isWordChar)
  else if isQuote c then scanQuoted c rest
  else if c = '#' then scanComment rest
  else if c = '\r' then if rest.head? = some '\n' then some (.newline, rest.drop 1) else none
  else (mark? c).map (·, rest)

/-! ## Every scan takes something off the text -/

theorem length_cut {quote : Char} {escapes block escaped : Bool} {cs body rest : List Char}
    (h : cut quote escapes block escaped cs = some (body, rest)) : rest.length ≤ cs.length := by
  fun_induction cut quote escapes block escaped cs generalizing body rest
  case case2 | case5 | case7 =>
    obtain ⟨⟨_, _⟩, _, _⟩ := Option.map_eq_some_iff.1 h
    grind
  all_goals grind

theorem length_scanString {quote : Char} {block : Bool} {cs rest : List Char} {s : String}
    (h : scanString quote block cs = some (s, rest)) : rest.length ≤ cs.length := by
  simp only [scanString] at h
  split at h
  · rename_i hc
    have := length_cut hc
    obtain ⟨_, _, _⟩ := Option.map_eq_some_iff.1 h
    grind
  · exact absurd h (by simp)

theorem length_dropWhile (p : Char → Bool) (cs : List Char) :
    (cs.dropWhile p).length ≤ cs.length :=
  (List.dropWhile_sublist p).length_le

theorem length_scanQuoted {quote : Char} {cs rest : List Char} {t : Token}
    (h : scanQuoted quote cs = some (t, rest)) : rest.length ≤ cs.length := by
  unfold scanQuoted at h
  split at h
  all_goals
    obtain ⟨⟨_, _⟩, hs, _⟩ := Option.map_eq_some_iff.1 h
    have := length_scanString hs
    grind

theorem length_scanComment {cs rest : List Char} {t : Token}
    (h : scanComment cs = some (t, rest)) : rest.length ≤ cs.length := by
  simp only [scanComment] at h
  grind [length_dropWhile]

theorem length_scanToken {c : Char} {rest rest' : List Char} {t : Token}
    (h : scanToken c rest = some (t, rest')) : rest'.length ≤ rest.length := by
  unfold scanToken at h
  split at h
  · grind [length_dropWhile]
  split at h
  · grind [length_dropWhile]
  split at h
  · exact length_scanQuoted h
  split at h
  · exact length_scanComment h
  split at h
  · grind
  · obtain ⟨_, _, _⟩ := Option.map_eq_some_iff.1 h
    grind

/-- The tokens of a text. -/
def tokens : List Char → Option (List Token)
  | [] => some []
  | c :: cs =>
    match _h : scanToken c cs with
    | some (t, rest) => (tokens rest).map (t :: ·)
    | none => none
termination_by cs => cs.length
decreasing_by
  have := length_scanToken _h
  simp only [List.length_cons]
  omega

end Breadboard.Toml
