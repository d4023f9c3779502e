import Breadboard.Chip.Basic
import Breadboard.Text.Upper

/-!
# Catalogs

A `Catalog` is a table of chip types in the order in which their names first came. Names are in
upper case, and so are the types of the parts of a composite, so that a look-up needs no folding;
the type keeps both facts (`upper_name`, `upper_parts`), and `insert` folds what it is given.
-/

namespace Breadboard

open Text (upper upper_upper)

/-- A part with its type in upper case. -/
def Part.fold (p : Part) : Part := { p with chip := upper p.chip }

/-- The definition with the types of its parts in upper case. -/
def ChipType.fold : ChipType → ChipType
  | .primitive d => .primitive d
  | .composite d => .composite { d with parts := d.parts.map Part.fold }

@[simp] theorem Part.fold_fold (p : Part) : p.fold.fold = p.fold := by
  simp [fold]

@[simp] theorem ChipType.fold_fold (d : ChipType) : d.fold.fold = d.fold := by
  cases d <;> simp [fold, Function.comp_def]

/-- Chip types by name, names and types of parts in upper case. -/
structure Catalog where
  chips : NameMap ChipType
  upper_name : ∀ e ∈ chips.entries, upper e.1 = e.1
  upper_parts : ∀ e ∈ chips.entries, e.2.fold = e.2
deriving DecidableEq

namespace Catalog

/-- The catalog without chips. -/
def empty : Catalog where
  chips := ∅
  upper_name := fun _ h => absurd h List.not_mem_nil
  upper_parts := fun _ h => absurd h List.not_mem_nil

instance : EmptyCollection Catalog := ⟨empty⟩
instance : Inhabited Catalog := ⟨empty⟩

/-- The definition of the type written exactly `chip`. -/
def get? (c : Catalog) (chip : String) : Option ChipType := c.chips.get? chip

def contains (c : Catalog) (chip : String) : Bool := c.chips.contains chip

/-- The type names, in order. -/
def names (c : Catalog) : List String := c.chips.keys

/-- The number of types. -/
def size (c : Catalog) : Nat := c.chips.size

def isEmpty (c : Catalog) : Bool := c.chips.isEmpty

/-- Define `chip`, in the place of an older definition of that name if there is one. -/
def insert (c : Catalog) (chip : String) (d : ChipType) : Catalog where
  chips := c.chips.insert (upper chip) d.fold
  upper_name := fun e he => by
    rcases NameMap.mem_insert he with rfl | he
    · simp
    · exact c.upper_name e he
  upper_parts := fun e he => by
    rcases NameMap.mem_insert he with rfl | he
    · simp
    · exact c.upper_parts e he

/-- The catalog without `chip`. -/
def erase (c : Catalog) (chip : String) : Catalog where
  chips := c.chips.erase chip
  upper_name := fun e he => c.upper_name e (List.mem_filter.1 he).1
  upper_parts := fun e he => c.upper_parts e (List.mem_filter.1 he).1

/-- The composite of the type written exactly `chip`. -/
def composite? (c : Catalog) (chip : String) : Option Composite :=
  (c.get? chip).bind ChipType.composite?

/-- The input pins of a chip type, in the order in which wires take them. A type that is not in the
catalog has the pins `A` and `B`. -/
def inputsOf (c : Catalog) (chip : String) : List String :=
  match c.get? chip with
  | some d => d.inputs
  | none => ["A", "B"]

/-! ## Lemmas -/

theorem get?_erase (c : Catalog) (chip q : String) :
    (c.erase chip).get? q = if q = chip then none else c.get? q :=
  NameMap.get?_erase ..

/-- Taking a type out leaves fewer. -/
theorem size_erase_lt {c : Catalog} {chip : String} {d : ChipType} (h : c.get? chip = some d) :
    (c.erase chip).size < c.size :=
  NameMap.size_erase_lt h

end Catalog

end Breadboard
