import Breadboard.Datum.Basic
import Breadboard.Datum.Binary64
import Breadboard.Text.Hex

/-!
# The tokens of JSON

A text is cut into punctuation and scalars; blanks between them are dropped. Strings are read in
two steps, since an escape names a unit of UTF-16 and not a character: first the pieces of a string
(`scanString`), then the characters that its units make up (`charsOf?`). A unit that is half of a
pair without the other half makes no character, and the string is then unreadable.

A number is unreadable if it is out of range. Only the digits that fit a word of 64 bits count for
that: each later digit before the point is a power of ten, and each later one after it is nothing.
-/

namespace Breadboard.Json

open Text (hexNumber?)

/-- A token. -/
inductive Token where
  | openList
  | closeList
  | openTable
  | closeTable
  | comma
  | colon
  /-- A string; none if it is no sequence of characters. -/
  | string (s : Option String)
  /-- A number, a truth value or `null`. -/
  | scalar (d : Datum)
deriving Repr

/-- The value of a token that is a value by itself. -/
def Token.value? : Token → Option Datum
  | string (some s) => some (.text s)
  | string none => some .unreadable
  | scalar d => some d
  | _ => none

/-! ## Strings -/

/-- A piece of a string: a character as it stands, or an escaped unit of UTF-16. -/
inductive Piece where
  | char (c : Char)
  | unit (n : Nat)
deriving DecidableEq, Repr

/-- The character after a backslash stands for this one. -/
def unescape? : Char → Option Char
  | '"' => some '"'
  | '\\' => some '\\'
  | '/' => some '/'
  | 'b' => some '\x08'
  | 'f' => some '\x0c'
  | 'n' => some '\n'
  | 'r' => some '\r'
  | 't' => some '\t'
  | _ => none

/-- The pieces of a string up to its closing quote, and the text after it. -/
def scanString : List Char → Option (List Piece × List Char)
  | [] => none
  | '"' :: rest => some ([], rest)
  | '\\' :: 'u' :: a :: b :: c :: d :: rest =>
    match hexNumber? [a, b, c, d], scanString rest with
    | some n, some (ps, rest) => some (.unit n :: ps, rest)
    | _, _ => none
  | '\\' :: e :: rest =>
    match unescape? e, scanString rest with
    | some c, some (ps, rest) => some (.char c :: ps, rest)
    | _, _ => none
  | c :: rest =>
    match scanString rest with
    | some (ps, rest) => if c.toNat < 0x20 then none else some (.char c :: ps, rest)
    | none => none

/-- The characters that pieces make up: two units that are the halves of a pair make one. -/
def charsOf? : List Piece → Option (List Char)
  | [] => some []
  | .char c :: ps => (charsOf? ps).map (c :: ·)
  | .unit n :: .unit m :: ps =>
    if 0xD800 ≤ n ∧ n < 0xDC00 then
      if 0xDC00 ≤ m ∧ m < 0xE000 then
        (charsOf? ps).map (.ofNat (0x10000 + (n - 0xD800) * 0x400 + (m - 0xDC00)) :: ·)
      else none
    else if 0xDC00 ≤ n ∧ n < 0xE000 then none
    else (charsOf? (.unit m :: ps)).map (.ofNat n :: ·)
  | .unit n :: ps =>
    if 0xD800 ≤ n ∧ n < 0xE000 then none else (charsOf? ps).map (.ofNat n :: ·)

/-! ## Numbers -/

/-- The digits at the front of a text, at least one, and the text after them. -/
def scanDigits (cs : List Char) : Option (List Char × List Char) :=
  let ds := cs.takeWhile Char.isDigit
  if ds.isEmpty then none else some (ds, cs.dropWhile Char.isDigit)

/-- The digits before the point: a zero stands alone. -/
def scanWhole : List Char → Option (List Char × List Char)
  | '0' :: rest => some (['0'], rest)
  | cs => scanDigits cs

/-- The digits after a point, if there is one. -/
def scanFraction : List Char → Option (List Char × List Char)
  | '.' :: rest => scanDigits rest
  | cs => some ([], cs)

/-- Digits after a sign, if there is one. -/
def scanSigned : List Char → Option (Int × List Char)
  | '-' :: rest => (scanDigits rest).map fun (ds, rest) => (-Nat.ofDigitChars 10 ds 0, rest)
  | '+' :: rest => (scanDigits rest).map fun (ds, rest) => (Nat.ofDigitChars 10 ds 0, rest)
  | cs => (scanDigits cs).map fun (ds, rest) => (Nat.ofDigitChars 10 ds 0, rest)

/-- The power of ten, if there is one. -/
def scanExponent : List Char → Option (Option Int × List Char)
  | 'e' :: rest => (scanSigned rest).map fun (e, rest) => (some e, rest)
  | 'E' :: rest => (scanSigned rest).map fun (e, rest) => (some e, rest)
  | cs => some (none, cs)

/-- Append digits to a number as long as it fits a word of 64 bits, and tell how many did. -/
def appendDigits (m : Nat) : List Char → Nat × Nat
  | [] => (m, 0)
  | d :: ds =>
    let next := Nat.ofDigitChars 10 [d] m
    if next < UInt64.size then
      let (m, count) := appendDigits next ds
      (m, count + 1)
    else (m, 0)

/-- Is the number with these digits in range? -/
def inRange (whole fraction : List Char) (exponent : Int) : Bool :=
  let (m, places) := appendDigits 0 whole
  let (m, decimals) := appendDigits m fraction
  productFitsBinary64 m (exponent + (whole.length - places) - decimals)

/-- The scalar of a number with these digits. Minus zero is no integer. -/
def numberOf (negative : Bool) (whole fraction : List Char) (exponent : Option Int) : Datum :=
  let m := Nat.ofDigitChars 10 whole 0
  if !inRange whole fraction (exponent.getD 0) then .unreadable
  else if !fraction.isEmpty || exponent.isSome || (negative && m == 0) then .real
  else .integer (if negative then -(m : Int) else m)

/-- A number at the front of a text, after its sign. -/
def scanNumber (negative : Bool) (cs : List Char) : Option (Datum × List Char) :=
  match scanWhole cs with
  | none => none
  | some (whole, cs) =>
    match scanFraction cs with
    | none => none
    | some (fraction, cs) =>
      (scanExponent cs).map fun (exponent, cs) => (numberOf negative whole fraction exponent, cs)

/-! ## Tokens -/

def isSpace (c : Char) : Bool := c == ' ' || c == '\n' || c == '\t' || c == '\r'

/-- The token at the front of a text that begins with none of the spaces. -/
def scanToken : List Char → Option (Token × List Char)
  | '[' :: rest => some (.openList, rest)
  | ']' :: rest => some (.closeList, rest)
  | '\x7b' :: rest => some (.openTable, rest)
  | '\x7d' :: rest => some (.closeTable, rest)
  | ',' :: rest => some (.comma, rest)
  | ':' :: rest => some (.colon, rest)
  | '"' :: rest => (scanString rest).map fun (ps, rest) =>
    (.string ((charsOf? ps).map .ofList), rest)
  | 't' :: 'r' :: 'u' :: 'e' :: rest => some (.scalar (.bool true), rest)
  | 'f' :: 'a' :: 'l' :: 's' :: 'e' :: rest => some (.scalar (.bool false), rest)
  | 'n' :: 'u' :: 'l' :: 'l' :: rest => some (.scalar .null, rest)
  | '-' :: rest => (scanNumber true rest).map fun (d, rest) => (.scalar d, rest)
  | cs => (scanNumber false cs).map fun (d, rest) => (.scalar d, rest)

/-! ## Every scan takes something off the text -/

theorem length_scanString {cs : List Char} {ps : List Piece} {rest : List Char}
    (h : scanString cs = some (ps, rest)) : rest.length < cs.length := by
  fun_induction scanString cs generalizing ps rest
  case case3 ih =>
    simp only [List.length_cons]
    grind
  all_goals grind

theorem length_scanDigits {cs ds rest : List Char} (h : scanDigits cs = some (ds, rest)) :
    rest.length < cs.length := by
  simp only [scanDigits] at h
  split at h
  · exact absurd h (by simp)
  · rename_i hd
    obtain ⟨rfl, rfl⟩ := Prod.mk.inj (Option.some.inj h)
    have hl := congrArg List.length (List.takeWhile_append_dropWhile (p := Char.isDigit) (l := cs))
    have hp := List.length_pos_iff.2 (mt List.isEmpty_iff.2 hd)
    rw [List.length_append] at hl
    omega

theorem length_scanWhole {cs ds rest : List Char} (h : scanWhole cs = some (ds, rest)) :
    rest.length < cs.length := by
  unfold scanWhole at h
  split at h
  · grind
  · exact length_scanDigits h

theorem length_scanFraction {cs ds rest : List Char} (h : scanFraction cs = some (ds, rest)) :
    rest.length ≤ cs.length := by
  unfold scanFraction at h
  split at h
  · have := length_scanDigits h
    grind
  · grind

theorem length_scanSigned {cs rest : List Char} {e : Int}
    (h : scanSigned cs = some (e, rest)) : rest.length < cs.length := by
  unfold scanSigned at h
  split at h <;>
  · obtain ⟨⟨_, _⟩, hp, hr⟩ := Option.map_eq_some_iff.1 h
    have := length_scanDigits hp
    grind

theorem length_scanExponent {cs rest : List Char} {e : Option Int}
    (h : scanExponent cs = some (e, rest)) : rest.length ≤ cs.length := by
  unfold scanExponent at h
  split at h
  · obtain ⟨⟨_, _⟩, hp, hr⟩ := Option.map_eq_some_iff.1 h
    have := length_scanSigned hp
    grind
  · obtain ⟨⟨_, _⟩, hp, hr⟩ := Option.map_eq_some_iff.1 h
    have := length_scanSigned hp
    grind
  · grind

theorem length_scanNumber {negative : Bool} {cs rest : List Char} {d : Datum}
    (h : scanNumber negative cs = some (d, rest)) : rest.length < cs.length := by
  unfold scanNumber at h
  split at h
  · exact absurd h (by simp)
  · rename_i hw
    have := length_scanWhole hw
    split at h
    · exact absurd h (by simp)
    · rename_i hf
      have := length_scanFraction hf
      obtain ⟨⟨_, _⟩, hp, hr⟩ := Option.map_eq_some_iff.1 h
      have := length_scanExponent hp
      grind

theorem length_scanToken {cs rest : List Char} {t : Token}
    (h : scanToken cs = some (t, rest)) : rest.length < cs.length := by
  unfold scanToken at h
  split at h
  case h_7 =>
    obtain ⟨⟨_, _⟩, hp, hr⟩ := Option.map_eq_some_iff.1 h
    have := length_scanString hp
    grind
  case h_11 | h_12 =>
    obtain ⟨⟨_, _⟩, hp, hr⟩ := Option.map_eq_some_iff.1 h
    have := length_scanNumber hp
    grind
  all_goals grind

/-- The tokens of a text. -/
def tokens : List Char → Option (List Token)
  | [] => some []
  | c :: cs =>
    if isSpace c then tokens cs
    else
      match _h : scanToken (c :: cs) with
      | some (t, rest) => (tokens rest).map (t :: ·)
      | none => none
termination_by cs => cs.length
decreasing_by
  · simp
  · exact length_scanToken _h

end Breadboard.Json
