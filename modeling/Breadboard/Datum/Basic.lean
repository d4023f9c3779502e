/-!
# Data

A `Datum` is what a data file says, before anyone asks what it means: scalars, lists, and tables
whose members keep their order and may repeat a name.

Two kinds of scalars stand for what no field of this library holds. `real` is a number that is not
written as an integer. `unreadable` is a piece of a file that can be skipped but not read: a number
beyond every floating-point range, or text that is no sequence of characters.
-/

namespace Breadboard

/-- A piece of data. -/
inductive Datum where
  | null
  | bool (b : Bool)
  | integer (n : Int)
  /-- A number not written as an integer. -/
  | real
  | text (s : String)
  /-- Something that may only be skipped. -/
  | unreadable
  | list (items : List Datum)
  | table (members : List (String × Datum))
deriving Repr

namespace Datum

instance : Inhabited Datum := ⟨null⟩

mutual

/-- How deep lists and tables are nested. -/
def depth : Datum → Nat
  | list items => 1 + depthList items
  | table members => 1 + depthTable members
  | _ => 0

/-- The depth of the deepest of the items. -/
def depthList : List Datum → Nat
  | [] => 0
  | d :: rest => max d.depth (depthList rest)

/-- The depth of the deepest of the members. -/
def depthTable : List (String × Datum) → Nat
  | [] => 0
  | (_, d) :: rest => max d.depth (depthTable rest)

end

mutual

/-- Can all of it be read? -/
def isReadable : Datum → Bool
  | unreadable => false
  | list items => isReadableList items
  | table members => isReadableTable members
  | _ => true

/-- Can all items be read? -/
def isReadableList : List Datum → Bool
  | [] => true
  | d :: rest => d.isReadable && isReadableList rest

/-- Can all members be read? -/
def isReadableTable : List (String × Datum) → Bool
  | [] => true
  | (_, d) :: rest => d.isReadable && isReadableTable rest

end

end Datum

end Breadboard
