import Breadboard.Datum.Basic
import Breadboard.Datum.Binary64
import Breadboard.Text.Hex

/-!
# The scalars of TOML

What a scalar without quotes means: a truth value, an integer of 64 bits in base ten, sixteen, eight
or two, a floating-point number, or a date and time. An underscore may stand between two digits.

A date or time is read as a table with a single member of a reserved name. Its text is the date in
its usual spelling, whatever the spelling in the file.
-/

namespace Breadboard.Toml

/-! ## Numbers -/

/-- At least one digit, underscores between digits left out. -/
def digitRun? (isDigit : Char → Bool) : List Char → Option (List Char)
  | [] => none
  | [c] => if isDigit c then some [c] else none
  | c :: '_' :: rest => if isDigit c then (digitRun? isDigit rest).map (c :: ·) else none
  | c :: rest => if isDigit c then (digitRun? isDigit rest).map (c :: ·) else none

/-- Decimal digits without a leading zero. -/
def wholeRun? (cs : List Char) : Option (List Char) :=
  match digitRun? Char.isDigit cs with
  | some ('0' :: _ :: _) => none
  | r => r

/-- Is there a minus sign, and what comes after the sign? -/
def splitSign : List Char → Bool × List Char
  | '-' :: cs => (true, cs)
  | '+' :: cs => (false, cs)
  | cs => (false, cs)

/-- The number that digits write in a base. -/
def ofDigits? (base : Nat) (digits : List Char) : Option Int :=
  (digits.mapM Text.hexValue?).map fun ds => Int.ofNat (ds.foldl (fun n d => base * n + d) 0)

/-- The integer that a scalar writes. -/
def integer? : List Char → Option Int
  | '0' :: 'x' :: cs => (digitRun? (fun c => (Text.hexValue? c).isSome) cs).bind (ofDigits? 16)
  | '0' :: 'o' :: cs => (digitRun? (fun c => '0' ≤ c && c ≤ '7') cs).bind (ofDigits? 8)
  | '0' :: 'b' :: cs => (digitRun? (fun c => c == '0' || c == '1') cs).bind (ofDigits? 2)
  | cs =>
    let (negative, cs) := splitSign cs
    ((wholeRun? cs).bind (ofDigits? 10)).map fun n => if negative then -n else n

/-- The power of ten after its letter. -/
def exponent? (cs : List Char) : Option Int :=
  let (negative, cs) := splitSign cs
  ((digitRun? Char.isDigit cs).bind (ofDigits? 10)).map fun n => if negative then -n else n

/-- The digits after the point, if there is one, and the power of ten, if there is one; at least one
of the two. -/
def fractionAndExponent? : List Char → Option (List Char × Int)
  | '.' :: cs => do
    let isFraction := fun c => c != 'e' && c != 'E'
    let fraction ← digitRun? Char.isDigit (cs.takeWhile isFraction)
    match cs.dropWhile isFraction with
    | [] => return (fraction, 0)
    | _ :: e => return (fraction, ← exponent? e)
  | c :: e => if c = 'e' ∨ c = 'E' then (exponent? e).map ([], ·) else none
  | [] => none

/-- Does the scalar write a floating-point number? One that is too large must be negative. -/
def isReal (cs : List Char) : Bool :=
  let (negative, cs) := splitSign cs
  cs == ['i', 'n', 'f'] || cs == ['n', 'a', 'n'] ||
    let isWhole := fun c => c != '.' && c != 'e' && c != 'E'
    match wholeRun? (cs.takeWhile isWhole), fractionAndExponent? (cs.dropWhile isWhole) with
    | some whole, some (fraction, e) =>
      negative ||
        fitsBinary64 (Nat.ofDigitChars 10 (whole ++ fraction) 0) (e - fraction.length)
    | _, _ => false

/-! ## Dates and times -/

/-- The number that two digits write, if it is between the bounds. -/
def twoDigits? (low high : Nat) (a b : Char) : Option Nat :=
  match Text.readNat? [a, b] with
  | some n => if low ≤ n ∧ n ≤ high then some n else none
  | none => none

/-- The number of days of a month. -/
def daysOf (year month : Nat) : Nat :=
  if month = 2 then
    if year % 4 = 0 ∧ (year % 100 ≠ 0 ∨ year % 400 = 0) then 29 else 28
  else if month = 4 ∨ month = 6 ∨ month = 9 ∨ month = 11 then 30
  else 31

/-- The date at the front of a scalar, as it is written, and what comes after it. -/
def date? : List Char → Option (List Char × List Char)
  | y₁ :: y₂ :: y₃ :: y₄ :: '-' :: m₁ :: m₂ :: '-' :: d₁ :: d₂ :: rest => do
    let year ← Text.readNat? [y₁, y₂, y₃, y₄]
    let month ← twoDigits? 1 12 m₁ m₂
    let _ ← twoDigits? 1 (daysOf year month) d₁ d₂
    return ([y₁, y₂, y₃, y₄, '-', m₁, m₂, '-', d₁, d₂], rest)
  | _ => none

/-- The fraction of a second in its usual spelling: nine digits at most, no zeros at the end, and
nothing for zero. -/
def usualFraction (digits : List Char) : List Char :=
  match ((digits.take 9).reverse.dropWhile (· == '0')).reverse with
  | [] => []
  | ds => '.' :: ds

/-- The time at the front of a scalar, in its usual spelling, and what comes after it. -/
def time? : List Char → Option (List Char × List Char)
  | h₁ :: h₂ :: ':' :: m₁ :: m₂ :: ':' :: s₁ :: s₂ :: rest => do
    let _ ← twoDigits? 0 23 h₁ h₂
    let _ ← twoDigits? 0 59 m₁ m₂
    let _ ← twoDigits? 0 60 s₁ s₂
    let time := [h₁, h₂, ':', m₁, m₂, ':', s₁, s₂]
    match rest with
    | '.' :: rest =>
      let digits := rest.takeWhile Char.isDigit
      if digits.isEmpty then none
      else some (time ++ usualFraction digits, rest.dropWhile Char.isDigit)
    | _ => some (time, rest)
  | _ => none

/-- The offset that a scalar ends with, in its usual spelling. -/
def offset? : List Char → Option (List Char)
  | [] => some []
  | ['Z'] => some ['Z']
  | ['z'] => some ['Z']
  | [sign, h₁, h₂, ':', m₁, m₂] => do
    let h ← twoDigits? 0 23 h₁ h₂
    let m ← twoDigits? 0 59 m₁ m₂
    if sign = '+' then some ['+', h₁, h₂, ':', m₁, m₂]
    else if sign = '-' then some [if h + m = 0 then '+' else '-', h₁, h₂, ':', m₁, m₂]
    else none
  | _ => none

/-- The date, time or both that a scalar writes, in the usual spelling. -/
def moment? (cs : List Char) : Option (List Char) :=
  match date? cs with
  | some (date, []) => some date
  | some (date, c :: rest) =>
    if c = 'T' ∨ c = 't' ∨ c = ' ' then do
      let (time, rest) ← time? rest
      return date ++ 'T' :: time ++ (← offset? rest)
    else none
  | none =>
    match time? cs with
    | some (time, []) => some time
    | _ => none

/-- The reserved name of the member that holds a date or time. -/
def momentName : String := "$__toml_private_datetime"

/-! ## Scalars -/

/-- What a scalar without quotes means. -/
def scalar? (cs : List Char) : Option Datum :=
  match cs with
  | ['t', 'r', 'u', 'e'] => some (.bool true)
  | ['f', 'a', 'l', 's', 'e'] => some (.bool false)
  | _ =>
    match moment? cs with
    | some moment => some (.table [(momentName, .text (.ofList moment))])
    | none =>
      match integer? cs with
      | some n => if (Text.int64? n).isSome then some (.integer n) else none
      | none => if isReal cs then some .real else none

end Breadboard.Toml
