import Breadboard.Datum.Json.Parse
import Breadboard.Datum.Json.Write
import Breadboard.Datum.Reading

/-!
# Written forms

A type with a `Form` can be written as data and read back. The text of a value is the compact JSON
of its data; a text is read with lists and tables nested at most `maxDepth` deep where they are
read.
-/

namespace Breadboard

/-- How values of a type are written as data, and read. -/
class Form (α : Type) where
  write : α → Datum
  read : Reading α

namespace Form

variable {α : Type} [Form α]

/-- How deep the lists and tables of a text may be nested. -/
def maxDepth : Nat := 127

/-- The text of a value. -/
def toJson (a : α) : String := Json.compact (write a)

/-- The value of a text. -/
def ofJson? (text : String) : Option α :=
  (Json.parse? text).bind (read { room := maxDepth })

/-- The value of a piece of data that has been read already. Its depth is no concern then, and the
fields of a case of an enumeration must have their names. -/
def ofDatum? (d : Datum) : Option α := read { room := d.depth, listedCases := false } d

end Form

/-! ## Parts of forms -/

namespace Datum

def ofInt64 (n : Int64) : Datum := .integer n.toInt

def ofUInt64 (n : UInt64) : Datum := .integer n.toNat

def ofTexts (l : List String) : Datum := .list (l.map .text)

/-- A table whose members are absent where there is no value. -/
def record (members : List (String × Option Datum)) : Datum :=
  .table (members.filterMap fun (name, d) => d.map (name, ·))

/-- A table of the entries of a table by name. -/
def ofNames {α : Type} (write : α → Datum) (m : NameMap α) : Datum :=
  .table (m.entries.map fun (name, a) => (name, write a))

/-- A case of an enumeration with what comes with it. -/
def case (name : String) (payload : Datum) : Datum := .table [(name, payload)]

end Datum

/-- The value of `a` in a list of names and values. -/
def nameIn {α : Type} [DecidableEq α] (values : List (String × α)) (a : α) : String :=
  match values.find? fun e => e.2 = a with
  | some e => e.1
  | none => ""

end Breadboard
