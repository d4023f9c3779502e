import Breadboard.Datum.Basic
import Breadboard.NameMap
import Breadboard.Text.Numeral

/-!
# Reading values out of data

A `Reading α` makes a value of a piece of data, or refuses it. Types are strict: a number is no
text, `null` stands only for an absent value, and an integer must fit its word.

A **record** is a table with a member for each field, or a list of the fields in their order. In a
table members of other names are ignored, and a field may not occur twice. `Terms.spareItems` says
whether a list may have more items than there are fields; they are ignored. A field that is missing
takes its default if it has one.

A **case** of an enumeration is its bare name, or a table with that name as its only member.

Lists and tables that are read may not be nested too deeply: `Terms.room` says how many more of
them may be opened. What is ignored may be nested at will.
-/

namespace Breadboard

/-- How data are read. -/
structure Terms where
  /-- How many more lists and tables may be opened, one inside the other. -/
  room : Nat
  /-- Whether the fields of a case of an enumeration may come as a list. -/
  listedCases : Bool := true
  /-- Whether a list of the fields of a record may have items after the last field. -/
  spareItems : Bool := false

/-- How values of type `α` are read from data. -/
abbrev Reading (α : Type) := Terms → Datum → Option α

namespace Terms

/-- The terms inside a list or table. -/
def open? (t : Terms) : Option Terms :=
  match t.room with
  | 0 => none
  | n + 1 => some { t with room := n }

end Terms

namespace Reading

variable {α : Type}

/-! ## Scalars -/

def flag : Reading Bool
  | _, .bool b => some b
  | _, _ => none

def string : Reading String
  | _, .text s => some s
  | _, _ => none

def int64 : Reading Int64
  | _, .integer n => Text.int64? n
  | _, _ => none

def uint64 : Reading UInt64
  | _, .integer n => Text.uint64? n
  | _, _ => none

/-- A value, or `null` for none. -/
def optional (r : Reading α) : Reading (Option α)
  | _, .null => some none
  | t, d => (r t d).map some

/-! ## Containers -/

/-- A list of values. -/
def listOf (r : Reading α) : Reading (List α)
  | t, .list items => do
    let t ← t.open?
    items.mapM (r t)
  | _, _ => none

/-- A table of values; a name that occurs again keeps its place and takes the later value. -/
def tableOf (r : Reading α) : Reading (NameMap α)
  | t, .table members => do
    let t ← t.open?
    let entries ← members.mapM fun (k, d) => do return (k, ← r t d)
    return .ofList entries
  | _, _ => none

end Reading

/-! ## Records -/

/-- The fields of a record that are there. -/
structure Record where
  terms : Terms
  /-- Whether the fields came as a list. -/
  listed : Bool
  fields : List (String × Datum)

namespace Record

variable {α : Type}

/-- The fields of a table or list that should have the fields `names`. -/
def ofDatum? (names : List String) : Reading Record
  | t, .table members => do
    let t ← t.open?
    let known := members.filter fun e => names.contains e.1
    if (known.map Prod.fst).Nodup then some ⟨t, false, known⟩ else none
  | t, .list items => do
    let t ← t.open?
    if t.spareItems || decide (items.length ≤ names.length) then
      some ⟨t, true, names.zip items⟩
    else none
  | _, _ => none

def field? (r : Record) (name : String) : Option Datum := NameMap.find? r.fields name

/-- A field that must be there. -/
def required (r : Record) (name : String) (reading : Reading α) : Option α :=
  (r.field? name).bind (reading r.terms)

/-- A field that may be missing. -/
def withDefault (r : Record) (name : String) (value : α) (reading : Reading α) : Option α :=
  match r.field? name with
  | some d => reading r.terms d
  | none => some value

/-- A field that may be missing from a table, but not from a list. -/
def unlessListed (r : Record) (name : String) (value : α) (reading : Reading α) : Option α :=
  match r.field? name with
  | some d => reading r.terms d
  | none => if r.listed then none else some value

end Record

/-! ## Cases of enumerations -/

/-- A case of an enumeration: its name, and what comes with it. -/
structure Case where
  terms : Terms
  name : String
  payload : Option Datum

namespace Case

variable {α : Type}

def ofDatum? : Reading Case
  | t, .text name => some ⟨t, name, none⟩
  | t, .table [(name, d)] => do
    let t ← t.open?
    return ⟨t, name, some d⟩
  | _, _ => none

/-- Nothing comes with the case. -/
def plain (c : Case) (value : α) : Option α :=
  match c.payload with
  | none => some value
  | some .null => some value
  | some _ => none

/-- One value comes with the case. -/
def value (c : Case) (reading : Reading α) : Option α := c.payload.bind (reading c.terms)

/-- A record comes with the case. -/
def record (c : Case) (names : List String) : Option Record :=
  match c.payload with
  | none => none
  | some (.list items) =>
    if c.terms.listedCases then Record.ofDatum? names c.terms (.list items) else none
  | some d => Record.ofDatum? names c.terms d

end Case

/-- A value that is one of a few, each with a name of its own. -/
def Reading.enumeration {α : Type} (values : List (String × α)) : Reading α := fun t d => do
  let c ← Case.ofDatum? t d
  c.plain (← NameMap.find? values c.name)

end Breadboard
