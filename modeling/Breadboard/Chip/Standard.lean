import Breadboard.Chip.Catalog

/-!
# The standard catalog

Six primitives, and composites built from them: exclusive or, multiplexers, adders, a small
arithmetic unit and registers. Composites of four bits repeat one chip for each bit.

* `XOR`: `(A OR B) AND (A NAND B)`.
* `MUX`, `MUX_4_BIT`: `A` when `Sel` is low and `B` when it is high.
* `HALF_ADDER`, `FULL_ADDER`, `ADDER_4_BIT`: sums; the carry of the last one ripples through the
  four full adders.
* `ALU_4_BIT`: `zx` and `zy` zero an operand, `nx` and `ny` negate it, `f` chooses between AND (low)
  and ADD (high), and `no` negates the result.
* `BIT`, `REGISTER_4_BIT`: take `In` on the clock edge when `Load` is high, else hold their value.
-/

namespace Breadboard.Standard

/-! ## Notation for parts, wires and pin maps -/

/-- A part drawn at a place. -/
def place (id chip : String) (x y : Int64) : Part := ⟨id, chip, some ⟨x, y⟩⟩

/-- A wire from a main output to the next free pin. -/
def feed (source target : String) : Wire := { source, target }

/-- A wire from a main output to a pin. -/
def into (source target pin : String) : Wire := { source, target, targetPin := some pin }

/-- A wire from a pin to the next free pin. -/
def outOf (source pin target : String) : Wire := { source, sourcePin := some pin, target }

/-- A wire from a pin to a pin. -/
def link (source pin target targetPin : String) : Wire :=
  { source, sourcePin := some pin, target, targetPin := some targetPin }

/-- Where the input pins of a composite lead. -/
def inputMap (l : List (String × List (String × String))) : NameMap (List PinRef) :=
  .ofList <| l.map fun (pin, targets) => (pin, targets.map fun (id, pin) => ⟨id, pin⟩)

/-- Output pins that give the main outputs of parts. -/
def mainTaps (l : List (String × String)) : List (String × Tap) :=
  l.map fun (pin, id) => (pin, { id })

/-- Output pins that give output pins of parts. -/
def pinTaps (l : List (String × String × String)) : List (String × Tap) :=
  l.map fun (pin, id, inner) => (pin, { id, pin := some inner })

/-- The names of four bits. -/
def bits : List String := ["0", "1", "2", "3"]

/-- The bits with their coordinates on a drawing that begins at 50. -/
def rows (step : Int64) : List (String × Int64) :=
  [("0", 50), ("1", 50 + step), ("2", 50 + 2 * step), ("3", 50 + 3 * step)]

/-- The pins of a bus. -/
def bus (name : String) : List String := bits.map (name ++ ·)

/-! ## Composites -/

def xor : Composite where
  inputs := ["A", "B"]
  outputs := [outPin]
  parts := [place "n1" "OR" 50 50, place "n2" "NAND" 50 150, place "n3" "AND" 200 100]
  wires := [feed "n1" "n3", feed "n2" "n3", into "A" "n1" "A", into "A" "n2" "A",
    into "B" "n1" "B", into "B" "n2" "B"]
  pinMap := {
    inputs := inputMap [("A", [("n1", "A"), ("n2", "A")]), ("B", [("n1", "B"), ("n2", "B")])]
    main := some "n3" }

def mux : Composite where
  inputs := ["A", "B", "Sel"]
  outputs := [outPin]
  parts := [place "not1" "NOT" 50 150, place "and1" "AND" 200 50, place "and2" "AND" 200 200,
    place "or1" "OR" 350 125]
  wires := [into "Sel" "not1" "In", into "not1" "and1" "B", into "Sel" "and2" "B",
    into "A" "and1" "A", into "B" "and2" "A", into "and1" "or1" "A", into "and2" "or1" "B"]
  pinMap := {
    inputs := inputMap [("A", [("and1", "A")]), ("B", [("and2", "A")]),
      ("Sel", [("not1", "In"), ("and2", "B")])]
    main := some "or1" }

def mux4 : Composite where
  inputs := bus "A" ++ bus "B" ++ ["Sel"]
  outputs := bus "Out"
  parts := (rows 100).map fun (n, y) => place ("m" ++ n) "MUX" 50 y
  wires := (bits.map fun n => into "Sel" ("m" ++ n) "Sel") ++
    bits.flatMap fun n => [into ("A" ++ n) ("m" ++ n) "A", into ("B" ++ n) ("m" ++ n) "B"]
  pinMap := {
    inputs := inputMap <| ("Sel", bits.map fun n => ("m" ++ n, "Sel")) ::
      bits.flatMap fun n => [("A" ++ n, [("m" ++ n, "A")]), ("B" ++ n, [("m" ++ n, "B")])]
    outputs := .ofList (mainTaps (bits.map fun n => ("Out" ++ n, "m" ++ n))) }

def not4 : Composite where
  inputs := bus "In"
  outputs := bus "Out"
  parts := (rows 100).map fun (n, y) => place ("n" ++ n) "NOT" 50 y
  wires := bits.map fun n => into ("In" ++ n) ("n" ++ n) "In"
  pinMap := {
    inputs := inputMap (bits.map fun n => ("In" ++ n, [("n" ++ n, "In")]))
    outputs := .ofList (mainTaps (bits.map fun n => ("Out" ++ n, "n" ++ n))) }

def and4 : Composite where
  inputs := bus "A" ++ bus "B"
  outputs := bus "Out"
  parts := (rows 100).map fun (n, y) => place ("a" ++ n) "AND" 50 y
  wires := bits.flatMap fun n => [into ("A" ++ n) ("a" ++ n) "A", into ("B" ++ n) ("a" ++ n) "B"]
  pinMap := {
    inputs := inputMap <| bits.flatMap fun n =>
      [("A" ++ n, [("a" ++ n, "A")]), ("B" ++ n, [("a" ++ n, "B")])]
    outputs := .ofList (mainTaps (bits.map fun n => ("Out" ++ n, "a" ++ n))) }

def halfAdder : Composite where
  inputs := ["A", "B"]
  outputs := ["SUM", "CARRY"]
  parts := [place "xor0" "XOR" 200 50, place "and0" "AND" 200 200]
  wires := [into "A" "xor0" "A", into "A" "and0" "A", into "B" "xor0" "B", into "B" "and0" "B"]
  pinMap := {
    inputs := inputMap [("A", [("xor0", "A"), ("and0", "A")]),
      ("B", [("xor0", "B"), ("and0", "B")])]
    outputs := .ofList (mainTaps [("SUM", "xor0"), ("CARRY", "and0")])
    main := some "xor0" }

def fullAdder : Composite where
  inputs := ["A", "B", "Cin"]
  outputs := ["SUM", "Cout"]
  parts := [place "ha1" "HALF_ADDER" 50 50, place "ha2" "HALF_ADDER" 400 50,
    place "or1" "OR" 400 250]
  wires := [link "ha1" "SUM" "ha2" "A", outOf "ha1" "CARRY" "or1", outOf "ha2" "CARRY" "or1",
    into "A" "ha1" "A", into "B" "ha1" "B", into "Cin" "ha2" "B"]
  pinMap := {
    inputs := inputMap [("A", [("ha1", "A")]), ("B", [("ha1", "B")]), ("Cin", [("ha2", "B")])]
    outputs := .ofList (mainTaps [("SUM", "ha2"), ("Cout", "or1")])
    main := some "ha2" }

/-- The inputs of the two operands alternate. -/
def adder4 : Composite where
  inputs := bits.flatMap fun n => ["A" ++ n, "B" ++ n]
  outputs := bus "S" ++ ["Cout"]
  parts := (rows 300).map fun (n, x) => place ("fa" ++ n) "FULL_ADDER" x 50
  wires := [link "fa0" "Cout" "fa1" "Cin", link "fa1" "Cout" "fa2" "Cin",
      link "fa2" "Cout" "fa3" "Cin"] ++
    bits.flatMap fun n => [into ("A" ++ n) ("fa" ++ n) "A", into ("B" ++ n) ("fa" ++ n) "B"]
  pinMap := {
    inputs := inputMap <| bits.flatMap fun n =>
      [("A" ++ n, [("fa" ++ n, "A")]), ("B" ++ n, [("fa" ++ n, "B")])]
    outputs := .ofList <| mainTaps [("S0", "fa0"), ("S1", "fa1"), ("S2", "fa2")] ++
      pinTaps [("S3", "fa3", "SUM"), ("Cout", "fa3", "Cout")]
    main := some "fa3" }

/-- The wires that zero an operand of the arithmetic unit, then negate it. -/
def operandWires (operand zero negate zeroMux inverter negateMux : String) : List Wire :=
  [into zero zeroMux "Sel"] ++
    (bits.map fun n => into (operand ++ n) zeroMux ("A" ++ n)) ++
    (bits.map fun n => link zeroMux ("Out" ++ n) inverter ("In" ++ n)) ++
    [into negate negateMux "Sel"] ++
    bits.flatMap fun n => [link zeroMux ("Out" ++ n) negateMux ("A" ++ n),
      link inverter ("Out" ++ n) negateMux ("B" ++ n)]

/-- The wires that lead both operands to a unit of the arithmetic unit. -/
def unitWires (unit : String) : List Wire :=
  bits.flatMap fun n => [link "mux_nx" ("Out" ++ n) unit ("A" ++ n),
    link "mux_ny" ("Out" ++ n) unit ("B" ++ n)]

def alu4 : Composite where
  inputs := bus "X" ++ bus "Y" ++ ["zx", "nx", "zy", "ny", "f", "no"]
  outputs := bus "Out"
  parts := [place "mux_zx" "MUX_4_BIT" 50 50, place "not_nx" "NOT_4_BIT" 200 50,
    place "mux_nx" "MUX_4_BIT" 350 50, place "mux_zy" "MUX_4_BIT" 50 350,
    place "not_ny" "NOT_4_BIT" 200 350, place "mux_ny" "MUX_4_BIT" 350 350,
    place "alu_and" "AND_4_BIT" 600 100, place "alu_add" "ADDER_4_BIT" 600 300,
    place "mux_f" "MUX_4_BIT" 800 200, place "not_no" "NOT_4_BIT" 950 100,
    place "mux_no" "MUX_4_BIT" 1100 200]
  wires := operandWires "X" "zx" "nx" "mux_zx" "not_nx" "mux_nx" ++
    operandWires "Y" "zy" "ny" "mux_zy" "not_ny" "mux_ny" ++
    unitWires "alu_and" ++ unitWires "alu_add" ++
    [into "f" "mux_f" "Sel"] ++
    (bits.flatMap fun n => [link "alu_and" ("Out" ++ n) "mux_f" ("A" ++ n),
      link "alu_add" ("S" ++ n) "mux_f" ("B" ++ n)]) ++
    (bits.map fun n => link "mux_f" ("Out" ++ n) "not_no" ("In" ++ n)) ++
    [into "no" "mux_no" "Sel"] ++
    bits.flatMap fun n => [link "mux_f" ("Out" ++ n) "mux_no" ("A" ++ n),
      link "not_no" ("Out" ++ n) "mux_no" ("B" ++ n)]
  pinMap := {
    inputs := inputMap <|
      [("zx", [("mux_zx", "Sel")]), ("nx", [("mux_nx", "Sel")]), ("zy", [("mux_zy", "Sel")]),
        ("ny", [("mux_ny", "Sel")]), ("f", [("mux_f", "Sel")]), ("no", [("mux_no", "Sel")])] ++
      bits.flatMap fun n =>
        [("X" ++ n, [("mux_zx", "A" ++ n)]), ("Y" ++ n, [("mux_zy", "A" ++ n)])]
    outputs := .ofList (pinTaps (bits.map fun n => ("Out" ++ n, "mux_no", "Out" ++ n))) }

def bit : Composite where
  inputs := ["In", "Load"]
  outputs := ["Out"]
  parts := [place "mux" "MUX" 50 50, place "dff" "DFF" 200 50]
  wires := [into "dff" "mux" "A", into "In" "mux" "B", into "Load" "mux" "Sel",
    into "mux" "dff" "In"]
  pinMap := {
    inputs := inputMap [("In", [("mux", "B")]), ("Load", [("mux", "Sel")])]
    outputs := .ofList (mainTaps [("Out", "dff")])
    main := some "dff" }

def register4 : Composite where
  inputs := bus "In" ++ ["Load"]
  outputs := bus "Out"
  parts := (rows 100).map fun (n, y) => place ("bit" ++ n) "BIT" 50 y
  wires := bits.flatMap fun n =>
    [into ("In" ++ n) ("bit" ++ n) "In", into "Load" ("bit" ++ n) "Load"]
  pinMap := {
    inputs := inputMap <| (bits.map fun n => ("In" ++ n, [("bit" ++ n, "In")])) ++
      [("Load", bits.map fun n => ("bit" ++ n, "Load"))]
    outputs := .ofList (mainTaps (bits.map fun n => ("Out" ++ n, "bit" ++ n))) }

/-! ## The catalog -/

/-- A primitive with the single output `OUT`. -/
def gate (kind : PrimitiveKind) (inputs : List String) : String × ChipType :=
  (kind.name, .primitive ⟨kind, inputs, [outPin]⟩)

/-- The chips of the standard catalog, in order. -/
def chips : List (String × ChipType) :=
  [gate .input [], gate .and ["A", "B"], gate .or ["A", "B"], gate .nand ["A", "B"],
    gate .not ["In"], gate .dff ["In"],
    ("XOR", .composite xor), ("MUX", .composite mux), ("MUX_4_BIT", .composite mux4),
    ("NOT_4_BIT", .composite not4), ("AND_4_BIT", .composite and4),
    ("HALF_ADDER", .composite halfAdder), ("FULL_ADDER", .composite fullAdder),
    ("ADDER_4_BIT", .composite adder4), ("ALU_4_BIT", .composite alu4),
    ("BIT", .composite bit), ("REGISTER_4_BIT", .composite register4)]

/-- The standard catalog. -/
def catalog : Catalog := chips.foldl (fun c e => c.insert e.1 e.2) ∅

end Breadboard.Standard
