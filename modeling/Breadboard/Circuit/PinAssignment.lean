import Breadboard.Chip.Basic

/-!
# Which pin a wire drives

The wires into a chip take its input pins in the order of declaration. A wire that names its pin
takes that one. Any other takes the first declared pin that no earlier wire has, and is dropped if
there is none.
-/

namespace Breadboard

/-- The pin of a wire when the pins in `taken` are driven already. -/
def pinFor (declared taken : List String) (wire : Wire) : Option String :=
  match wire.targetPin with
  | some pin => some pin
  | none => declared.find? fun pin => !taken.contains pin

/-- Give each of `wires` its pin when the pins in `taken` are driven already. -/
def assignFrom (declared taken : List String) : List Wire → List (Wire × String)
  | [] => []
  | wire :: rest =>
    match pinFor declared taken wire with
    | some pin => (wire, pin) :: assignFrom declared (pin :: taken) rest
    | none => assignFrom declared taken rest

/-- The wires into `target`, each with the pin it drives. -/
def assignPins (declared : List String) (wires : List Wire) (target : String) :
    List (Wire × String) :=
  assignFrom declared [] (wires.filter fun wire => wire.target == target)

/-- The wires that are given pins come in the order of the wires. -/
theorem assignFrom_sublist (declared : List String) :
    ∀ (taken : List String) (wires : List Wire),
      ((assignFrom declared taken wires).map Prod.fst).Sublist wires
  | _, [] => List.Sublist.slnil
  | taken, wire :: rest => by
    rw [assignFrom]
    split
    · exact (assignFrom_sublist declared _ rest).cons_cons wire
    · exact (assignFrom_sublist declared taken rest).cons wire

end Breadboard
