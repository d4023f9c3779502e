import Breadboard.NameMap

/-!
# Chips

A chip type is either primitive, a boolean function of its first two inputs (or a switch, or a
flip-flop), or composite: parts of other types, wires between them, and a pin map that ties the
chip's own pins to its parts.

`Wire.targetPin` is often absent: then the wire takes the first input of its target that no earlier
wire drives. An absent `Wire.sourcePin` reads the source's main value.
-/

namespace Breadboard

/-- The type of the switches that stimulate a circuit. -/
def inputType : String := "INPUT"

/-- The output pin of every primitive. -/
def outPin : String := "OUT"

/-- A place on the drawing. -/
structure Position where
  x : Int64
  y : Int64
deriving DecidableEq, Repr

/-- A connection from an output of one part to an input of another. -/
structure Wire where
  /-- The driving part, or an input pin of the enclosing chip. -/
  source : String := ""
  sourcePin : Option String := none
  /-- The driven part. -/
  target : String := ""
  targetPin : Option String := none
deriving DecidableEq, Repr

/-- The kinds of chips without parts. -/
inductive PrimitiveKind where
  /-- A switch: keeps the value it was last set to. -/
  | input
  | and
  | or
  | nand
  | not
  | xor
  /-- A flip-flop: takes the value of its input on a clock edge. -/
  | dff
deriving DecidableEq, Repr

namespace PrimitiveKind

/-- Does the kind change its value only on a clock edge? -/
def isEdgeTriggered : PrimitiveKind → Bool
  | dff => true
  | _ => false

/-- The value for the first two inputs `a` and `b`. A kind that computes nothing keeps its
`current` value. -/
def evaluate (kind : PrimitiveKind) (a b current : Bool) : Bool :=
  match kind with
  | and => a && b
  | or => a || b
  | nand => !(a && b)
  | not => !a
  | xor => a != b
  | input | dff => current

/-- The type name of the kind. -/
def name : PrimitiveKind → String
  | input => inputType
  | and => "AND"
  | or => "OR"
  | nand => "NAND"
  | not => "NOT"
  | xor => "XOR"
  | dff => "DFF"

end PrimitiveKind

/-- A chip type without parts. -/
structure Primitive where
  kind : PrimitiveKind
  inputs : List String
  outputs : List String
deriving DecidableEq, Repr

/-- A place for a chip: its name among its siblings, its type, and where it is drawn. -/
structure Part where
  id : String
  chip : String
  position : Option Position := none
deriving DecidableEq, Repr

/-- An input pin of a part. -/
structure PinRef where
  id : String
  pin : String
deriving DecidableEq, Repr

/-- The source of an output of a composite: an output pin of a part, or the part's main value. -/
structure Tap where
  id : String
  pin : Option String := none
deriving DecidableEq, Repr

/-- How the pins of a composite are tied to its parts. The inputs reach the parts through the
wires; `inputs` only documents where they lead. -/
structure PinMap where
  inputs : NameMap (List PinRef) := ∅
  outputs : NameMap Tap := ∅
  /-- The part whose main value is the chip's main value. -/
  main : Option String := none
deriving DecidableEq, Repr

/-- A chip type made of parts. -/
structure Composite where
  inputs : List String := []
  outputs : List String := []
  parts : List Part := []
  wires : List Wire := []
  pinMap : PinMap := {}
deriving DecidableEq, Repr

/-- A chip type. -/
inductive ChipType where
  | primitive (d : Primitive)
  | composite (d : Composite)
deriving DecidableEq, Repr

namespace ChipType

/-- The input pins, in the order in which wires take them. -/
def inputs : ChipType → List String
  | primitive d => d.inputs
  | composite d => d.inputs

/-- The output pins. -/
def outputs : ChipType → List String
  | primitive d => d.outputs
  | composite d => d.outputs

def hasInput (d : ChipType) (pin : String) : Bool := d.inputs.contains pin

def kind? : ChipType → Option PrimitiveKind
  | primitive d => some d.kind
  | composite _ => none

def composite? : ChipType → Option Composite
  | primitive _ => none
  | composite d => some d

def isComposite (d : ChipType) : Bool := d.composite?.isSome

end ChipType

end Breadboard
