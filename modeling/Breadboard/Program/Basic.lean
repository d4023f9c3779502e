import Breadboard.Chip.Basic

/-!
# Programs

A program lists the instances of a netlist and the wires between them, one statement a line:

    TYPE ID [X Y]
    WIRE SOURCE TARGET [PIN [TARGET_PIN]]
-/

namespace Breadboard

/-- The word that begins a wire statement. -/
def wireKeyword : String := "WIRE"

/-- The pins of a wire statement. -/
inductive WirePins where
  /-- No pin: the source's main value, to the next free input of the target. -/
  | implicit
  /-- One pin: an input of the target if it has one of that name, else an output of the source. -/
  | ambiguous (pin : String)
  /-- A pin of the source and a pin of the target. -/
  | both (sourcePin targetPin : String)
deriving DecidableEq, Repr

/-- A wire statement. -/
structure WireDecl where
  source : String
  target : String
  pins : WirePins
deriving DecidableEq, Repr

/-- A statement of a program. -/
inductive Statement where
  | part (part : Part)
  | wire (decl : WireDecl)
deriving DecidableEq, Repr

/-- Statements in the order of their lines. -/
structure Program where
  statements : List Statement := []
deriving DecidableEq, Repr

namespace Program

/-- The instances that the program declares. -/
def parts (p : Program) : List Part :=
  p.statements.filterMap fun
    | .part part => some part
    | .wire _ => none

/-- The wires that the program declares. -/
def wires (p : Program) : List WireDecl :=
  p.statements.filterMap fun
    | .part _ => none
    | .wire decl => some decl

end Program

end Breadboard
