import Breadboard.Program.Basic
import Breadboard.Text.Numeral

/-!
# Writing a program

One statement a line, its words separated by single spaces. What `Program.parse` makes of the text
is the same program whenever each name is a word of its own.
-/

namespace Breadboard

open Text

/-- The words that name the pins of a wire. -/
def WirePins.words : WirePins → List String
  | implicit => []
  | ambiguous pin => [pin]
  | both sourcePin targetPin => [sourcePin, targetPin]

/-- The words of a statement. -/
def Statement.words : Statement → List String
  | .part p =>
    [p.chip, p.id] ++
      match p.position with
      | some pos => [showInt pos.x.toInt, showInt pos.y.toInt]
      | none => []
  | .wire decl => [wireKeyword, decl.source, decl.target] ++ decl.pins.words

/-- The line of a statement. -/
def Statement.write (s : Statement) : String := " ".intercalate s.words

/-- The text of a program. -/
def Program.write (p : Program) : String := String.join (p.statements.map fun s => s.write ++ "\n")

end Breadboard
