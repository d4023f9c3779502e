import Breadboard.Proofs.Components

/-!
# What the standard chips compute

Each chip of the standard catalog has a lemma that says what it makes of its inputs, in any circuit
at rest. A lemma reads the inside of its chip off the blueprint, takes what the parts compute from
their own lemmas, and never looks into them.

Words of four bits are read off the pins of a bus. The adder is shown to add by the numbers that its
full adders carry from one to the next, everything else bit by bit.

* `Instance.Is`: a chip of the standard catalog in a circuit at rest;
* `Instance.Is.wired`, `Instance.Is.part`: its inside;
* `Instance.Is.fullAdder`, `.adder4`, `.mux4`, `.alu4`: its results.
-/

namespace Breadboard

open Standard (bits)

/-! ## The catalog as a list -/

theorem Catalog.ext_chips {c c' : Catalog} (h : c.chips = c'.chips) : c = c' := by
  cases c
  cases c'
  cases h
  rfl

/-- Chips whose names are in upper case already are inserted as they are. -/
theorem Catalog.chips_foldl_insert (l : List (String × ChipType)) : ∀ c : Catalog,
    (∀ e ∈ l, Text.upper e.1 = e.1) → (∀ e ∈ l, e.2.fold = e.2) →
      (l.foldl (fun c e => c.insert e.1 e.2) c).chips =
        l.foldl (fun m e => m.insert e.1 e.2) c.chips := by
  induction l with
  | nil => exact fun _ _ _ => rfl
  | cons e l ih =>
    intro c hname hparts
    rw [List.forall_mem_cons] at hname hparts
    have hchips : (c.insert e.1 e.2).chips = c.chips.insert e.1 e.2 :=
      congrArg₂ c.chips.insert hname.1 hparts.1
    rw [List.foldl_cons, List.foldl_cons, ih _ hname.2 hparts.2, hchips]

/-- **Inserting the chips of a catalog** one after the other makes that catalog. -/
theorem Catalog.foldl_insert_entries (c : Catalog) :
    c.chips.entries.foldl (fun c e => c.insert e.1 e.2) ∅ = c := by
  refine Catalog.ext_chips ?_
  rw [Catalog.chips_foldl_insert _ _ c.upper_name c.upper_parts]
  exact NameMap.ofList_entries c.chips

namespace Standard

theorem upper_name : ∀ e ∈ chips, Text.upper e.1 = e.1 := by decide

/-- The parts of standard chips are standard chips, but no switches. -/
theorem chip_of_mem_parts : ∀ e ∈ chips, ∀ d ∈ e.2.composite?, ∀ part ∈ d.parts,
    part.chip ≠ inputType ∧ part.chip ∈ chips.map Prod.fst := by decide

/-- The standard catalog as its list stands, so that nothing needs to be inserted to look it up. -/
def listed : Catalog where
  chips := ⟨chips, by decide⟩
  upper_name := upper_name
  upper_parts e he := by
    cases hd : e.2 with
    | primitive d => rfl
    | composite d =>
      have hparts : ∀ part ∈ d.parts, part.fold = part := by
        intro part hpart
        obtain ⟨e', he', hname⟩ :=
          List.mem_map.1 (chip_of_mem_parts e he d (by rw [hd]; rfl) part hpart).2
        rw [Part.fold, ← hname, upper_name e' he', hname]
      rw [ChipType.fold, List.map_congr_left hparts, List.map_id']

theorem catalog_eq_listed : catalog = listed := listed.foldl_insert_entries

theorem chip_ne_of_part? {chip id : String} {part : Part}
    (h : listed.part? chip id = some part) : part.chip ≠ inputType := by
  obtain ⟨d, hcomposite, hfound⟩ := Option.bind_eq_some_iff.1 h
  obtain ⟨t, ht, hd⟩ := Option.bind_eq_some_iff.1 hcomposite
  have hmem : (chip, t) ∈ chips := NameMap.get?_eq_some_iff.1 ht
  exact (chip_of_mem_parts _ hmem d hd part (List.mem_of_find?_eq_some hfound)).1

end Standard

/-! ## Chips of the catalog -/

/-- The instance is a standard chip of the given type in a circuit at rest. -/
def Instance.Is (chip : String) (i : Instance) : Prop := i.Works Standard.listed chip

/-- A standard chip in a scope that works. -/
theorem is_of_works {s : Scope} (hs : s.Works Standard.catalog) {i : Instance}
    (hi : i ∈ s.instances) {chip : String} (hchip : i.chip = chip) (hne : chip ≠ inputType) :
    i.Is chip := by
  have hno := standard_noCycle
  rw [Standard.catalog_eq_listed] at hs hno
  exact ⟨hno, hne, hchip, s, hs, hi⟩

namespace Instance.Is

variable {i : Instance} {chip n : String}

/-- **The parts of a standard chip** are standard chips. -/
theorem part (h : i.Is chip) (id inner : String)
    (hpart : (Standard.listed.part? chip id).map Part.chip = some inner) :
    (i.within id).Is inner := by
  obtain ⟨part, hfound, rfl⟩ := Option.map_eq_some_iff.1 hpart
  exact h.within hfound (Standard.chip_ne_of_part? hfound)

/-- **The pins of the parts** of a standard chip. -/
theorem wired (h : i.Is chip) (table : List (String × String × Source))
    (htable : ∀ e ∈ table, Standard.listed.source? chip e.1 e.2.1 = some e.2.2) :
    ∀ e ∈ table, (i.within e.1).input e.2.1 = i.sees (some e.2.2) := fun e he => by
  rw [h.input_within, htable e he]

/-- A pin of a part that is fed from an input pin of the chip. -/
theorem fed (h : i.Is chip) (id pin outer : String)
    (hsource : Standard.listed.source? chip id pin = some (.input outer)) :
    (i.within id).input pin = i.input outer := by
  rw [h.input_within, hsource]
  rfl

/-- The part whose main output is that of the chip. -/
theorem main (h : i.Is chip) (id : String)
    (hmain : (Standard.listed.pinMapOf chip).main = some id) :
    i.value = (i.within id).value :=
  h.value_main hmain

/-- The part whose main output is on a pin. -/
theorem shows (h : i.Is chip) (pin id : String)
    (htap : (Standard.listed.pinMapOf chip).outputs.get? pin = some { id }) :
    i.output pin = (i.within id).value :=
  h.output_main htap

/-- The part one of whose output pins is on a pin. -/
theorem passes (h : i.Is chip) (pin id inner : String)
    (htap : (Standard.listed.pinMapOf chip).outputs.get? pin = some { id, pin := some inner })
    (hinner : (Standard.listed.part? chip id).any (fun part =>
      (Standard.listed.pinMapOf part.chip).outputs.contains inner) = true) :
    i.output pin = (i.within id).output inner := by
  obtain ⟨part, hpart, hdriven⟩ := (Option.any_eq_true _ _).1 hinner
  exact h.output_pin htap hpart (Standard.chip_ne_of_part? hpart) hdriven

end Instance.Is

@[simp] theorem sees_input (i : Instance) (pin : String) :
    i.sees (some (.input pin)) = i.input pin :=
  rfl

@[simp] theorem sees_main (i : Instance) (id : String) :
    i.sees (some (.output id none)) = (i.within id).value := rfl

@[simp] theorem sees_pin (i : Instance) (id pin : String) :
    i.sees (some (.output id (some pin))) = (i.within id).output pin := rfl

namespace Instance.Is

variable {i : Instance} {chip n : String}

/-! ### Gates -/

theorem and (h : i.Is "AND") : i.value = (i.input "A" && i.input "B") :=
  h.gate (d := ⟨.and, ["A", "B"], [outPin]⟩) (by decide) (by decide) (by decide)

theorem or (h : i.Is "OR") : i.value = (i.input "A" || i.input "B") :=
  h.gate (d := ⟨.or, ["A", "B"], [outPin]⟩) (by decide) (by decide) (by decide)

theorem nand (h : i.Is "NAND") : i.value = !(i.input "A" && i.input "B") :=
  h.gate (d := ⟨.nand, ["A", "B"], [outPin]⟩) (by decide) (by decide) (by decide)

theorem not (h : i.Is "NOT") : i.value = !i.input "In" :=
  h.gate (d := ⟨.not, ["In"], [outPin]⟩) (by decide) (by decide) (by decide)

/-! ### Single bits -/

theorem xor (h : i.Is "XOR") : i.value = (i.input "A" ^^ i.input "B") := by
  have hor := (h.part "n1" "OR" rfl).or
  have hnand := (h.part "n2" "NAND" rfl).nand
  have hand := (h.part "n3" "AND" rfl).and
  have hwired := h.wired [("n1", "A", .input "A"), ("n1", "B", .input "B"),
    ("n2", "A", .input "A"), ("n2", "B", .input "B"), ("n3", "A", .output "n1" none),
    ("n3", "B", .output "n2" none)] (by decide)
  simp only [List.forall_mem_cons, sees_input, sees_main] at hwired
  obtain ⟨hA, hB, hA', hB', hC, hD, -⟩ := hwired
  rw [h.main "n3" rfl, hand, hC, hD, hor, hnand, hA, hB, hA', hB']
  cases i.input "A" <;> cases i.input "B" <;> rfl

theorem mux (h : i.Is "MUX") :
    i.value = if i.input "Sel" then i.input "B" else i.input "A" := by
  have hnot := (h.part "not1" "NOT" rfl).not
  have hand := (h.part "and1" "AND" rfl).and
  have hand' := (h.part "and2" "AND" rfl).and
  have hor := (h.part "or1" "OR" rfl).or
  have hwired := h.wired [("not1", "In", .input "Sel"), ("and1", "A", .input "A"),
    ("and1", "B", .output "not1" none), ("and2", "A", .input "B"), ("and2", "B", .input "Sel"),
    ("or1", "A", .output "and1" none), ("or1", "B", .output "and2" none)] (by decide)
  simp only [List.forall_mem_cons, sees_input, sees_main] at hwired
  obtain ⟨hsel, hA, hsel', hB, hsel'', hl, hr, -⟩ := hwired
  rw [h.main "or1" rfl, hor, hl, hr, hand, hand', hA, hB, hsel', hsel'', hnot, hsel]
  cases i.input "Sel" <;> simp

/-- A half adder counts its two inputs. -/
theorem halfAdder (h : i.Is "HALF_ADDER") :
    i.output "SUM" = (i.input "A" ^^ i.input "B") ∧
      i.output "CARRY" = (i.input "A" && i.input "B") := by
  have hxor := (h.part "xor0" "XOR" rfl).xor
  have hand := (h.part "and0" "AND" rfl).and
  have hwired := h.wired [("xor0", "A", .input "A"), ("xor0", "B", .input "B"),
    ("and0", "A", .input "A"), ("and0", "B", .input "B")] (by decide)
  simp only [List.forall_mem_cons, sees_input] at hwired
  obtain ⟨hA, hB, hA', hB', -⟩ := hwired
  rw [h.shows "SUM" "xor0" rfl, h.shows "CARRY" "and0" rfl, hxor, hand, hA, hB, hA', hB']
  exact ⟨rfl, rfl⟩

/-- **A full adder counts its three inputs.** -/
theorem fullAdder (h : i.Is "FULL_ADDER") :
    (i.output "SUM").toNat + 2 * (i.output "Cout").toNat =
      (i.input "A").toNat + (i.input "B").toNat + (i.input "Cin").toNat := by
  obtain ⟨hsum, hcarry⟩ := (h.part "ha1" "HALF_ADDER" rfl).halfAdder
  have hsecond := h.part "ha2" "HALF_ADDER" rfl
  obtain ⟨hsum', hcarry'⟩ := hsecond.halfAdder
  have hor := (h.part "or1" "OR" rfl).or
  have hwired := h.wired [("ha1", "A", .input "A"), ("ha1", "B", .input "B"),
    ("ha2", "A", .output "ha1" (some "SUM")), ("ha2", "B", .input "Cin"),
    ("or1", "A", .output "ha1" (some "CARRY")), ("or1", "B", .output "ha2" (some "CARRY"))]
    (by decide)
  simp only [List.forall_mem_cons, sees_input, sees_pin] at hwired
  obtain ⟨hA, hB, hS, hC, hc, hc', -⟩ := hwired
  have hmain : (i.within "ha2").value = (i.within "ha2").output "SUM" := by
    rw [hsecond.main "xor0" rfl, hsecond.shows "SUM" "xor0" rfl]
  rw [h.shows "SUM" "ha2" rfl, h.shows "Cout" "or1" rfl, hmain, hor, hc, hc', hcarry', hsum', hS,
    hC, hsum, hcarry, hA, hB]
  cases i.input "A" <;> cases i.input "B" <;> cases i.input "Cin" <;> rfl

/-- The main output of a full adder is its sum. -/
theorem fullAdder_main (h : i.Is "FULL_ADDER") : i.value = i.output "SUM" := by
  rw [h.main "ha2" rfl, h.shows "SUM" "ha2" rfl]

end Instance.Is

/-! ## Words -/

/-- The number whose bits are given by their names, the lowest first. -/
def word (f : String → Bool) : BitVec 4 :=
  .ofNat 4 ((f "0").toNat + 2 * (f "1").toNat + 4 * (f "2").toNat + 8 * (f "3").toNat)

theorem toNat_word (f : String → Bool) :
    (word f).toNat = (f "0").toNat + 2 * (f "1").toNat + 4 * (f "2").toNat + 8 * (f "3").toNat := by
  have h0 := (f "0").toNat_le
  have h1 := (f "1").toNat_le
  have h2 := (f "2").toNat_le
  have h3 := (f "3").toNat_le
  rw [word, BitVec.toNat_ofNat]
  omega

theorem word_congr {f g : String → Bool} (h : ∀ n ∈ bits, f n = g n) : word f = word g := by
  unfold word
  rw [h "0" (by decide), h "1" (by decide), h "2" (by decide), h "3" (by decide)]

theorem word_low : word (fun _ => false) = 0 := rfl

theorem word_not (f : String → Bool) : word (fun n => !f n) = ~~~word f := by
  have h : ∀ a0 a1 a2 a3 : Bool,
      BitVec.ofNat 4 ((!a0).toNat + 2 * (!a1).toNat + 4 * (!a2).toNat + 8 * (!a3).toNat) =
        ~~~BitVec.ofNat 4 (a0.toNat + 2 * a1.toNat + 4 * a2.toNat + 8 * a3.toNat) := by
    decide
  exact h _ _ _ _

theorem word_and (f g : String → Bool) : word (fun n => f n && g n) = word f &&& word g := by
  have h : ∀ a0 a1 a2 a3 b0 b1 b2 b3 : Bool,
      BitVec.ofNat 4 ((a0 && b0).toNat + 2 * (a1 && b1).toNat + 4 * (a2 && b2).toNat +
        8 * (a3 && b3).toNat) =
      BitVec.ofNat 4 (a0.toNat + 2 * a1.toNat + 4 * a2.toNat + 8 * a3.toNat) &&&
        BitVec.ofNat 4 (b0.toNat + 2 * b1.toNat + 4 * b2.toNat + 8 * b3.toNat) := by
    decide
  exact h _ _ _ _ _ _ _ _

/-- The number on the input pins of a bus. -/
def Instance.inputWord (i : Instance) (bus : String) : BitVec 4 := word fun n => i.input (bus ++ n)

/-- The number on the output pins of a bus. -/
def Instance.outputWord (i : Instance) (bus : String) : BitVec 4 :=
  word fun n => i.output (bus ++ n)

namespace Instance.Is

variable {i : Instance} {chip n : String}

/-- A bus of a part that is fed from an input bus of the chip. -/
theorem inputWord_input (h : i.Is chip) (id bus outer : String)
    (hsource : ∀ n ∈ bits,
      Standard.listed.source? chip id (bus ++ n) = some (.input (outer ++ n))) :
    (i.within id).inputWord bus = i.inputWord outer :=
  word_congr fun n hn => h.fed _ _ _ (hsource n hn)

/-- A bus of a part that is fed from an output bus of another part. -/
theorem inputWord_output (h : i.Is chip) (id bus id' bus' : String)
    (hsource : ∀ n ∈ bits, Standard.listed.source? chip id (bus ++ n) =
      some (.output id' (some (bus' ++ n)))) :
    (i.within id).inputWord bus = (i.within id').outputWord bus' :=
  word_congr fun n hn => by rw [h.input_within, hsource n hn, sees_pin]

/-- A bus of a part that nothing feeds. -/
theorem inputWord_low (h : i.Is chip) (id bus : String)
    (hsource : ∀ n ∈ bits, Standard.listed.source? chip id (bus ++ n) = none) :
    (i.within id).inputWord bus = 0 :=
  (word_congr fun n hn => by rw [h.input_within, hsource n hn]; rfl).trans word_low

/-! ### Four bits -/

/-- A chip that has one part for each bit and shows it on the pin of that bit. -/
theorem row (h : i.Is chip) (row bus inner : String)
    (hpart : ∀ n ∈ bits, (Standard.listed.part? chip (row ++ n)).map Part.chip = some inner)
    (htap : ∀ n ∈ bits, (Standard.listed.pinMapOf chip).outputs.get? (bus ++ n) =
      some { id := row ++ n }) (hn : n ∈ bits) :
    (i.within (row ++ n)).Is inner ∧ i.output (bus ++ n) = (i.within (row ++ n)).value :=
  ⟨h.part _ _ (hpart n hn), h.shows _ _ (htap n hn)⟩

theorem mux4_bit (h : i.Is "MUX_4_BIT") (hn : n ∈ bits) : i.output ("Out" ++ n) =
    if i.input "Sel" then i.input ("B" ++ n) else i.input ("A" ++ n) := by
  obtain ⟨hmux, hshown⟩ := h.row "m" "Out" "MUX" (by decide) (by decide) hn
  have hsource : ∀ n ∈ bits,
      Standard.listed.source? "MUX_4_BIT" ("m" ++ n) "A" = some (.input ("A" ++ n)) ∧
      Standard.listed.source? "MUX_4_BIT" ("m" ++ n) "B" = some (.input ("B" ++ n)) ∧
      Standard.listed.source? "MUX_4_BIT" ("m" ++ n) "Sel" = some (.input "Sel") := by
    decide
  obtain ⟨hA, hB, hSel⟩ := hsource n hn
  rw [hshown, hmux.mux, h.fed _ _ _ hA, h.fed _ _ _ hB, h.fed _ _ _ hSel]

theorem mux4 (h : i.Is "MUX_4_BIT") : i.outputWord "Out" =
    if i.input "Sel" then i.inputWord "B" else i.inputWord "A" := by
  cases hsel : i.input "Sel" with
  | false =>
    refine (word_congr fun n hn => ?_).trans (if_neg Bool.false_ne_true).symm
    rw [h.mux4_bit hn, hsel, if_neg Bool.false_ne_true]
  | true =>
    refine (word_congr fun n hn => ?_).trans (if_pos rfl).symm
    rw [h.mux4_bit hn, hsel, if_pos rfl]

theorem not4 (h : i.Is "NOT_4_BIT") : i.outputWord "Out" = ~~~i.inputWord "In" := by
  have hsource : ∀ n ∈ bits, Standard.listed.source? "NOT_4_BIT" ("n" ++ n) "In" =
      some (.input ("In" ++ n)) := by decide
  refine (word_congr fun n hn => ?_).trans (word_not fun n => i.input ("In" ++ n))
  obtain ⟨hnot, hshown⟩ := h.row "n" "Out" "NOT" (by decide) (by decide) hn
  rw [hshown, hnot.not, h.fed _ _ _ (hsource n hn)]

theorem and4 (h : i.Is "AND_4_BIT") :
    i.outputWord "Out" = i.inputWord "A" &&& i.inputWord "B" := by
  have hsource : ∀ n ∈ bits,
      Standard.listed.source? "AND_4_BIT" ("a" ++ n) "A" = some (.input ("A" ++ n)) ∧
      Standard.listed.source? "AND_4_BIT" ("a" ++ n) "B" = some (.input ("B" ++ n)) := by
    decide
  refine (word_congr fun n hn => ?_).trans
    (word_and (fun n => i.input ("A" ++ n)) fun n => i.input ("B" ++ n))
  obtain ⟨hand, hshown⟩ := h.row "a" "Out" "AND" (by decide) (by decide) hn
  obtain ⟨hA, hB⟩ := hsource n hn
  rw [hshown, hand.and, h.fed _ _ _ hA, h.fed _ _ _ hB]

/-- **The adder adds**: each place hands its carry to the next one, and the first has none. -/
theorem adder4 (h : i.Is "ADDER_4_BIT") :
    (i.outputWord "S").toNat + 16 * (i.output "Cout").toNat =
      (i.inputWord "A").toNat + (i.inputWord "B").toNat := by
  have hpart : ∀ n ∈ bits, (Standard.listed.part? "ADDER_4_BIT" ("fa" ++ n)).map Part.chip =
      some "FULL_ADDER" := by decide
  have hadder := fun n hn => h.part _ _ (hpart n hn)
  have hsource : ∀ n ∈ bits,
      Standard.listed.source? "ADDER_4_BIT" ("fa" ++ n) "A" = some (.input ("A" ++ n)) ∧
      Standard.listed.source? "ADDER_4_BIT" ("fa" ++ n) "B" = some (.input ("B" ++ n)) := by
    decide
  have hplace : ∀ n ∈ bits, ((i.within ("fa" ++ n)).output "SUM").toNat +
      2 * ((i.within ("fa" ++ n)).output "Cout").toNat = (i.input ("A" ++ n)).toNat +
        (i.input ("B" ++ n)).toNat + ((i.within ("fa" ++ n)).input "Cin").toNat := by
    intro n hn
    rw [(hadder n hn).fullAdder, h.fed _ _ _ (hsource n hn).1, h.fed _ _ _ (hsource n hn).2]
  have hsource0 : Standard.listed.source? "ADDER_4_BIT" "fa0" "Cin" = none := rfl
  have hnone : (i.within "fa0").input "Cin" = false := by
    rw [h.input_within, hsource0]
    rfl
  have hcarries := h.wired [("fa1", "Cin", .output "fa0" (some "Cout")),
    ("fa2", "Cin", .output "fa1" (some "Cout")), ("fa3", "Cin", .output "fa2" (some "Cout"))]
    (by decide)
  simp only [List.forall_mem_cons, sees_pin] at hcarries
  have hlow : ∀ n ∈ ["0", "1", "2"], i.output ("S" ++ n) = (i.within ("fa" ++ n)).output "SUM" := by
    have htap : ∀ n ∈ ["0", "1", "2"],
        (Standard.listed.pinMapOf "ADDER_4_BIT").outputs.get? ("S" ++ n) =
          some { id := "fa" ++ n } := by decide
    intro n hn
    have hbit : n ∈ bits := List.mem_append_left ["3"] hn
    rw [h.shows _ _ (htap n hn), (hadder n hbit).fullAdder_main]
  have hhigh := h.passes "S3" "fa3" "SUM" rfl rfl
  have hout := h.passes "Cout" "fa3" "Cout" rfl rfl
  unfold Instance.outputWord Instance.inputWord
  simp only [bits, List.forall_mem_cons, String.reduceAppend] at hplace hlow
  simp only [toNat_word, String.reduceAppend]
  rw [hlow.1, hlow.2.1, hlow.2.2.1, hhigh, hout]
  rw [hnone, hcarries.1, hcarries.2.1, hcarries.2.2.1] at hplace
  obtain ⟨h0, h1, h2, h3, -⟩ := hplace
  rw [Bool.toNat_false] at h0
  omega

/-- The sum of words wraps around. -/
theorem adder4_word (h : i.Is "ADDER_4_BIT") :
    i.outputWord "S" = i.inputWord "A" + i.inputWord "B" := by
  have hsum := h.adder4
  have hlt := (i.outputWord "S").isLt
  refine BitVec.eq_of_toNat_eq ?_
  rw [BitVec.toNat_add]
  omega

end Instance.Is

/-! ### The arithmetic unit -/

/-- An operand of the arithmetic unit, zeroed and then negated if so told. -/
def operand (zero negate : Bool) (w : BitVec 4) : BitVec 4 :=
  let cleared := if zero then 0 else w
  if negate then ~~~cleared else cleared

namespace Instance.Is

variable {i : Instance}

/-- **An operand of the arithmetic unit** goes through a multiplexer that zeroes it, an inverter,
and a multiplexer that chooses between the two. -/
theorem alu4_operand (h : i.Is "ALU_4_BIT") (bus zero negate zeroMux inverter negateMux : String)
    (hparts : ∀ e ∈ [(zeroMux, "MUX_4_BIT"), (inverter, "NOT_4_BIT"), (negateMux, "MUX_4_BIT")],
      (Standard.listed.part? "ALU_4_BIT" e.1).map Part.chip = some e.2)
    (hselects : ∀ e ∈ [(zeroMux, zero), (negateMux, negate)],
      Standard.listed.source? "ALU_4_BIT" e.1 "Sel" = some (.input e.2))
    (hfed : ∀ n ∈ bits,
      Standard.listed.source? "ALU_4_BIT" zeroMux ("A" ++ n) = some (.input (bus ++ n)))
    (hlow : ∀ n ∈ bits, Standard.listed.source? "ALU_4_BIT" zeroMux ("B" ++ n) = none)
    (hlinked : ∀ e ∈ [(inverter, "In", zeroMux), (negateMux, "A", zeroMux),
      (negateMux, "B", inverter)], ∀ n ∈ bits,
        Standard.listed.source? "ALU_4_BIT" e.1 (e.2.1 ++ n) =
          some (.output e.2.2 (some ("Out" ++ n)))) :
    (i.within negateMux).outputWord "Out" =
      operand (i.input zero) (i.input negate) (i.inputWord bus) := by
  simp only [List.forall_mem_cons] at hparts hselects hlinked
  obtain ⟨hzero, hinvert, hchoose, -⟩ := hparts
  obtain ⟨hinverted, hplain, hnegated, -⟩ := hlinked
  have hcleared : (i.within zeroMux).outputWord "Out" =
      if i.input zero then 0 else i.inputWord bus := by
    rw [(h.part _ _ hzero).mux4, h.fed _ _ _ hselects.1, h.inputWord_input _ _ _ hfed,
      h.inputWord_low _ _ hlow]
  rw [(h.part _ _ hchoose).mux4, h.fed _ _ _ hselects.2.1, h.inputWord_output _ _ _ _ hplain,
    h.inputWord_output _ _ _ _ hnegated, (h.part _ _ hinvert).not4,
    h.inputWord_output _ _ _ _ hinverted, hcleared]
  rfl

/-- **The units of the arithmetic unit**: a multiplexer chooses between the sum and the conjunction
of the two operands. -/
theorem alu4_units (h : i.Is "ALU_4_BIT") :
    let x := operand (i.input "zx") (i.input "nx") (i.inputWord "X")
    let y := operand (i.input "zy") (i.input "ny") (i.inputWord "Y")
    (i.within "mux_f").outputWord "Out" = if i.input "f" then x + y else x &&& y := by
  have hx := h.alu4_operand "X" "zx" "nx" "mux_zx" "not_nx" "mux_nx" (by decide)
    (by decide) (by decide) (by decide) (by decide)
  have hy := h.alu4_operand "Y" "zy" "ny" "mux_zy" "not_ny" "mux_ny" (by decide)
    (by decide) (by decide) (by decide) (by decide)
  have hand := (h.part "alu_and" "AND_4_BIT" rfl).and4
  rw [h.inputWord_output "alu_and" "A" "mux_nx" "Out" (by decide),
    h.inputWord_output "alu_and" "B" "mux_ny" "Out" (by decide), hx, hy] at hand
  have hadd := (h.part "alu_add" "ADDER_4_BIT" rfl).adder4_word
  rw [h.inputWord_output "alu_add" "A" "mux_nx" "Out" (by decide),
    h.inputWord_output "alu_add" "B" "mux_ny" "Out" (by decide), hx, hy] at hadd
  have hchoose := (h.part "mux_f" "MUX_4_BIT" rfl).mux4
  rw [h.fed "mux_f" "Sel" "f" rfl, h.inputWord_output "mux_f" "A" "alu_and" "Out" (by decide),
    h.inputWord_output "mux_f" "B" "alu_add" "S" (by decide), hand, hadd] at hchoose
  exact hchoose

/-- **The arithmetic unit** negates the result of its units if so told. -/
theorem alu4 (h : i.Is "ALU_4_BIT") :
    let x := operand (i.input "zx") (i.input "nx") (i.inputWord "X")
    let y := operand (i.input "zy") (i.input "ny") (i.inputWord "Y")
    let r := if i.input "f" then x + y else x &&& y
    i.outputWord "Out" = if i.input "no" then ~~~r else r := by
  have htaps : ∀ n ∈ bits, (Standard.listed.pinMapOf "ALU_4_BIT").outputs.get? ("Out" ++ n) =
      some { id := "mux_no", pin := some ("Out" ++ n) } := by decide
  have hdriven : ∀ n ∈ bits, (Standard.listed.part? "ALU_4_BIT" "mux_no").any (fun part =>
      (Standard.listed.pinMapOf part.chip).outputs.contains ("Out" ++ n)) = true := by decide
  have hout : i.outputWord "Out" = (i.within "mux_no").outputWord "Out" :=
    word_congr fun n hn => h.passes _ _ _ (htaps n hn) (hdriven n hn)
  have hchoose := (h.part "mux_no" "MUX_4_BIT" rfl).mux4
  rw [h.fed "mux_no" "Sel" "no" rfl, h.inputWord_output "mux_no" "A" "mux_f" "Out" (by decide),
    h.inputWord_output "mux_no" "B" "not_no" "Out" (by decide),
    (h.part "not_no" "NOT_4_BIT" rfl).not4,
    h.inputWord_output "not_no" "In" "mux_f" "Out" (by decide), h.alu4_units] at hchoose
  exact hout.trans hchoose

end Instance.Is

/-! ## Every standard chip in every circuit -/

/-- **The standard arithmetic is right**, in any circuit. Load programs on the standard catalog and
stimulate them in any way, without restoring a saved circuit. If the last settling converged, then
at every depth every adder adds, every multiplexer chooses, and every arithmetic unit computes its
function, of what is on their input pins. -/
theorem standard_arithmetic_is_right (options : SimOptions) (commands : List Command)
    (hcommands : ∀ c ∈ commands, c.restores = false)
    (hconverged : ((Simulator.new Standard.catalog options).run commands).convergedLast = true)
    {s : Scope} (hs : ((Simulator.new Standard.catalog options).run commands).top.Holds s)
    {i : Instance} (hi : i ∈ s.instances) :
    (i.chip = "ADDER_4_BIT" →
      (i.outputWord "S").toNat = ((i.inputWord "A").toNat + (i.inputWord "B").toNat) % 16 ∧
        (i.output "Cout" = true ↔ 15 < (i.inputWord "A").toNat + (i.inputWord "B").toNat)) ∧
    (i.chip = "FULL_ADDER" →
      let sum := (i.input "A").toNat + (i.input "B").toNat + (i.input "Cin").toNat
      (i.output "SUM").toNat = sum % 2 ∧ (i.output "Cout").toNat = sum / 2) ∧
    (i.chip = "MUX_4_BIT" → ∀ n ∈ bits, i.output ("Out" ++ n) =
      if i.input "Sel" then i.input ("B" ++ n) else i.input ("A" ++ n)) ∧
    (i.chip = "ALU_4_BIT" →
      let x := operand (i.input "zx") (i.input "nx") (i.inputWord "X")
      let y := operand (i.input "zy") (i.input "ny") (i.inputWord "Y")
      let r := if i.input "f" then x + y else x &&& y
      i.outputWord "Out" = if i.input "no" then ~~~r else r) := by
  have hrun := (Simulator.Unrestored.new Standard.catalog options).run hcommands
  have hworks := (hrun.works standard_noCycle hconverged).holds hs
  refine ⟨fun hchip => ?_, fun hchip => ?_, fun hchip n hn => ?_, fun hchip => ?_⟩
  · have hsum := (is_of_works hworks hi hchip (by decide)).adder4
    have hlt := (i.outputWord "S").isLt
    have hcarry := (i.output "Cout").toNat_le
    refine ⟨by omega, ?_⟩
    rw [← Bool.toNat_eq_one]
    omega
  · have hsum := (is_of_works hworks hi hchip (by decide)).fullAdder
    have hlow := (i.output "SUM").toNat_le
    have hcarry := (i.output "Cout").toNat_le
    constructor <;> omega
  · exact (is_of_works hworks hi hchip (by decide)).mux4_bit hn
  · exact (is_of_works hworks hi hchip (by decide)).alu4

/-- Two switches wired to a full adder. -/
def switchedAdder : Program :=
  ⟨[.part ⟨"a", "INPUT", none⟩, .part ⟨"b", "INPUT", none⟩, .part ⟨"sum", "FULL_ADDER", none⟩,
    .wire ⟨"a", "sum", .ambiguous "A"⟩, .wire ⟨"b", "sum", .ambiguous "B"⟩]⟩

/-- One and one is two. -/
theorem standard_arithmetic_of_switchedAdder :
    let sim := (Simulator.new Standard.catalog {}).run
      [.assembleProgram switchedAdder, .toggle "a", .toggle "b"]
    sim.convergedLast = true ∧ ∃ i, sim.instance? "sum" = some i ∧ i.input "A" = true ∧
      i.input "B" = true ∧ i.output "SUM" = false ∧ i.output "Cout" = true := by
  intro sim
  obtain ⟨hconverged, hsum⟩ : sim.convergedLast = true ∧ (sim.instance? "sum").map (fun i =>
      (i.chip, i.input "A", i.input "B", i.input "Cin")) =
        some ("FULL_ADDER", true, true, false) := by decide +kernel
  obtain ⟨i, hfound, hpins⟩ := Option.map_eq_some_iff.1 hsum
  simp only [Prod.mk.injEq] at hpins
  obtain ⟨hchip, hA, hB, hCin⟩ := hpins
  obtain ⟨hlow, hhigh⟩ := (standard_arithmetic_is_right {} _ (by decide) hconverged (.refl _)
    (mem_of_findInstance? hfound).1).2.1 hchip
  rw [hA, hB, hCin] at hlow hhigh
  exact ⟨hconverged, i, hfound, hA, hB, Bool.toNat_eq_zero.1 hlow, Bool.toNat_eq_one.1 hhigh⟩

end Breadboard
