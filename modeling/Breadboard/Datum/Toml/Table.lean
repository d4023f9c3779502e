import Breadboard.Datum.Basic
import Breadboard.NameMap

/-!
# The tables of TOML while they are built

A file may come back to a table: by another header below it, by a dotted key through it, or by its
own header after those of its subtables. Which of these is allowed depends on how the table came
about, so a table that is being built keeps that (`Origin`):

* a table that a header or an inline table has **defined** takes no more members from outside;
* a table that is only **implied**, on the way to a header below it, may still be defined, and then
  moves to the place of its own header;
* a table that a **dotted** key made may be extended by other dotted keys only.
-/

namespace Breadboard.Toml

/-- How a table came about. -/
inductive Origin where
  | defined
  | implied
  | dotted
deriving DecidableEq, Repr

/-- What a name stands for while its table is built. -/
inductive Node where
  | value (d : Datum)
  | table (origin : Origin) (members : List (String × Node))
  /-- Tables that share a name, the last one still open. -/
  | tables (done : List (List (String × Node))) (last : List (String × Node))

/-- The members of a table that is being built. -/
abbrev Members := List (String × Node)

/-- Go down a path of names and change the members at its end. Tables that are not there are made,
with the origin `made`. A path of a dotted key does not lead through a defined table. -/
def modifyAt (made : Origin) (change : Origin → Members → Option Members) :
    List String → Origin → Members → Option Members
  | [], origin, members => change origin members
  | name :: path, _, members =>
    match NameMap.find? members name with
    | none => do
      let inner ← modifyAt made change path made []
      return members ++ [(name, .table made inner)]
    | some (.value _) => none
    | some (.tables done last) => do
      let inner ← modifyAt made change path .defined last
      return NameMap.put members name (.tables done inner)
    | some (.table origin inner) =>
      if made = .dotted ∧ origin = .defined then none
      else do
        let inner ← modifyAt made change path origin inner
        return NameMap.put members name (.table origin inner)

/-- Add a member under a dotted key, given as the names before the last and the last. A table that
only headers have led through takes no members by a longer key. -/
def addMember (members : Members) (path : List String) (name : String) (d : Datum) :
    Option Members :=
  modifyAt .dotted
    (fun origin members =>
      if (origin == .dotted) == path.isEmpty then none
      else if (NameMap.find? members name).isSome then none
      else some (members ++ [(name, .value d)]))
    path .defined members

/-- Add members in order. -/
def addMembers (members : Members) (entries : List (List String × String × Datum)) :
    Option Members :=
  entries.foldlM (fun members (path, name, d) => addMember members path name d) members

/-- Define the table at the end of a path, given as the names before the last and the last. -/
def defineTable (root : Members) (path : List String) (name : String)
    (entries : List (List String × String × Datum)) : Option Members :=
  modifyAt .implied
    (fun _ members =>
      match NameMap.find? members name with
      | none => do return members ++ [(name, .table .defined (← addMembers [] entries))]
      | some (.table .implied old) => do
        return members.filter (fun e => e.1 != name) ++
          [(name, .table .defined (← addMembers old entries))]
      | some _ => none)
    path .defined root

/-- Add one more table to those at the end of a path. -/
def appendTable (root : Members) (path : List String) (name : String)
    (entries : List (List String × String × Datum)) : Option Members :=
  modifyAt .implied
    (fun _ members =>
      match NameMap.find? members name with
      | none => do return members ++ [(name, .tables [] (← addMembers [] entries))]
      | some (.tables done last) => do
        return NameMap.put members name (.tables (done ++ [last]) (← addMembers [] entries))
      | some _ => none)
    path .defined root

/-! ## Finished tables -/

mutual

/-- The data of a node. -/
def Node.toDatum : Node → Datum
  | .value d => d
  | .table _ members => .table (toData members)
  | .tables done last => .list (tablesData done ++ [.table (toData last)])

/-- The data of members. -/
def toData : List (String × Node) → List (String × Datum)
  | [] => []
  | (name, node) :: rest => (name, node.toDatum) :: toData rest

/-- The data of tables that share a name. -/
def tablesData : List (List (String × Node)) → List Datum
  | [] => []
  | members :: rest => .table (toData members) :: tablesData rest

end

end Breadboard.Toml
