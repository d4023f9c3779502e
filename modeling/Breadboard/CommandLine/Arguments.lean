import Breadboard.Text.Numeral

/-!
# Command lines

A command line names one program and any number of options:

* `-c`, `--catalog` with a path, any number of times;
* `--config` with a path, once;
* `-t`, `--toggle` with an id, any number of times;
* `--ticks` with a number, once;
* `--json`, once;
* `-v`, `--verbose`, any number of times.

The value of an option follows in the next argument, where it must not look like an option, or in
the same one: after `=`, or right after the letter of a short option. Short options may share a
dash. After `--` nothing is an option any more; a single `-` never is one.

Reading goes in two steps: `items?` tells options from operands, and `Arguments.ofItems?` asks for
what is needed and refuses what is repeated.
-/

namespace Breadboard.CommandLine

/-- An option with a value. -/
inductive Setting where
  | catalog
  | config
  | toggle
  | ticks
deriving DecidableEq, Repr

/-- An option without a value. -/
inductive Flag where
  | json
  | verbose
deriving DecidableEq, Repr

namespace Setting

def ofLetter? : Char → Option Setting
  | 'c' => some catalog
  | 't' => some toggle
  | _ => none

def ofName? : String → Option Setting
  | "catalog" => some catalog
  | "config" => some config
  | "toggle" => some toggle
  | "ticks" => some ticks
  | _ => none

end Setting

namespace Flag

def ofLetter? : Char → Option Flag
  | 'v' => some verbose
  | _ => none

def ofName? : String → Option Flag
  | "json" => some json
  | "verbose" => some verbose
  | _ => none

end Flag

/-! ## Items -/

/-- Something said on a command line. -/
inductive Item where
  | operand (text : String)
  | setting (name : Setting) (value : String)
  | flag (name : Flag)
deriving DecidableEq, Repr

/-- Does the argument look like an option? -/
def looksLikeOption (arg : String) : Bool :=
  match arg.toList with
  | '-' :: _ :: _ => true
  | _ => false

/-- The items behind a single dash, and the option whose value is still to come. -/
def shortItems? : List Char → Option (List Item × Option Setting)
  | [] => some ([], none)
  | c :: cs =>
    match Setting.ofLetter? c with
    | some s =>
      match cs with
      | [] => some ([], some s)
      | '=' :: value => some ([.setting s (.ofList value)], none)
      | value => some ([.setting s (.ofList value)], none)
    | none => do
      let f ← Flag.ofLetter? c
      let (items, pending) ← shortItems? cs
      return (.flag f :: items, pending)

/-- The items behind two dashes, and the option whose value is still to come. -/
def longItems? (cs : List Char) : Option (List Item × Option Setting) :=
  let name := String.ofList (cs.takeWhile (· != '='))
  match cs.dropWhile (· != '=') with
  | [] =>
    match Setting.ofName? name with
    | some s => some ([], some s)
    | none => (Flag.ofName? name).map fun f => ([.flag f], none)
  | _ :: value => (Setting.ofName? name).map fun s => ([.setting s (.ofList value)], none)

/-- What one argument in front of `--` says, and the option whose value is still to come. -/
def argumentItems? (arg : String) : Option (List Item × Option Setting) :=
  match arg.toList with
  | '-' :: '-' :: cs => longItems? cs
  | '-' :: c :: cs => shortItems? (c :: cs)
  | _ => some ([.operand arg], none)

/-- The items of the rest of a command line, where an option may still need its value. -/
def itemsFrom? : Option Setting → List String → Option (List Item)
  | none, [] => some []
  | some _, [] => none
  | some s, value :: rest =>
    if looksLikeOption value then none
    else (itemsFrom? none rest).map (.setting s value :: ·)
  | none, arg :: rest =>
    if arg = "--" then some (rest.map .operand)
    else do
      let (items, pending) ← argumentItems? arg
      return items ++ (← itemsFrom? pending rest)

/-- The items of a command line. -/
def items? (args : List String) : Option (List Item) := itemsFrom? none args

/-! ## Arguments -/

/-- What a command line asks for. -/
structure Arguments where
  /-- The path of the program. -/
  program : String
  /-- The paths of catalog files, in the order in which they are merged. -/
  catalogs : List String := []
  /-- The path of the configuration file. -/
  config : Option String := none
  /-- The ids of the switches to toggle, in order. -/
  toggles : List String := []
  /-- The number of clock ticks after that. -/
  ticks : UInt64 := 0
  /-- Whether the state is printed as JSON and not as a table. -/
  json : Bool := false
  /-- How much is logged. -/
  verbosity : Nat := 0
deriving DecidableEq, Repr

namespace Arguments

/-- The values given to an option, in order. -/
def valuesOf (items : List Item) (s : Setting) : List String :=
  items.filterMap fun
    | .setting s' value => if s' = s then some value else none
    | _ => none

/-- The operands, in order. -/
def operandsOf (items : List Item) : List String :=
  items.filterMap fun
    | .operand text => some text
    | _ => none

/-- How often a flag was given. -/
def countOf (items : List Item) (f : Flag) : Nat := items.count (.flag f)

/-- The only value of an option, if it was given. -/
def single? : List String → Option (Option String)
  | [] => some none
  | [value] => some (some value)
  | _ => none

/-- A path has at least one character. -/
def path? (text : String) : Option String := if text.isEmpty then none else some text

/-- The arguments that the items make up. -/
def ofItems? (items : List Item) : Option Arguments := do
  let program ← single? (operandsOf items)
  let config ← single? (valuesOf items .config)
  let ticks ← single? (valuesOf items .ticks)
  if 1 < countOf items .json then none
  else
    return {
      program := ← path? (← program)
      catalogs := ← (valuesOf items .catalog).mapM path?
      config := ← config.mapM path?
      toggles := valuesOf items .toggle
      ticks := (← ticks.mapM fun text => Text.readUInt64? text.toList).getD 0
      json := countOf items .json = 1
      verbosity := countOf items .verbose }

/-- The arguments of a command line. -/
def parse? (args : List String) : Option Arguments := (items? args).bind ofItems?

end Arguments

end Breadboard.CommandLine
