import Breadboard.Chip.Standard
import Breadboard.Proofs.Command
import Breadboard.Proofs.InputOrder
import Breadboard.Proofs.Place

/-!
# What an id means

An id that several chips share means the first of them: look-ups, toggles and wires all go by the
first instance that has it. A program declares its chips in an order of its own, and laying it out
moves the switches.

* `findInstance?_pullFront`: among the switches the first one with an id stays the first;
* `findInstance?_refill`: a switch is found before the first other chip with its id if it is among
  as many switches as there are places for switches before that chip (`switchesAhead`);
* `findInstance?_orderInputs_iff`: so an id means what it meant unless its switch is carried past
  its first other chip, in the one or the other direction (`LeavesFirst`);
* `Simulator.Denotes`, `denotes_of_seat`: queries, toggles and wires all go by one instance;
* **`lookup_finds_first_iff`**: after a text is assembled, an id denotes the instance of the first
  statement that declares it exactly if its switch is not carried past another chip.
-/

namespace Breadboard

open Text (upper)

variable {scope ordered : List Instance} {id : String}

/-! ## The order of the switches -/

theorem findInstance?_eraseP {other : String} (h : id ≠ other) (scope : List Instance) :
    findInstance? (scope.eraseP fun j => j.id == other) id = findInstance? scope id := by
  induction scope with
  | nil => rfl
  | cons i rest ih =>
    unfold findInstance? at ih ⊢
    rw [List.eraseP_cons]
    by_cases hi : i.id = other
    · simp [hi, Ne.symm h]
    · have hne : (i.id == other) = false := by simpa using hi
      rw [hne, cond_false, List.find?_cons, List.find?_cons, ih]

/-- **Pulling instances to the front changes no first one**: only first ones are pulled. -/
theorem findInstance?_pullFront (ids : List String) : ∀ scope : List Instance,
    findInstance? (pullFront scope ids) id = findInstance? scope id := by
  induction ids with
  | nil => exact fun _ => rfl
  | cons other ids ih =>
    intro scope
    rw [pullFront]
    split
    · rename_i i hi
      have hother : i.id = other := by simpa using List.find?_some hi
      by_cases hid : id = other
      · subst hid
        rw [hi, findInstance?, List.find?_cons, hother, beq_self_eq_true]
      · have hne : (i.id == id) = false := by simpa [hother] using Ne.symm hid
        have hrest := (ih _).trans (findInstance?_eraseP hid scope)
        rw [← hrest, findInstance?, List.find?_cons, hne]
        rfl
    · exact ih scope

/-! ## Switches and other chips -/

/-- The number of switches before the first other chip with the id `id`. -/
def switchesAhead : List Instance → String → Nat
  | [], _ => 0
  | i :: rest, id =>
    if i.isSwitch then switchesAhead rest id + 1
    else if i.id = id then 0
    else switchesAhead rest id

/-- **What is found where the switches are put in place**: first a switch that has its place before
the first other chip with that id, then that chip. -/
theorem findInstance?_refill (scope : List Instance) : ∀ filling : List Instance,
    filling.length = (scope.filter Instance.isSwitch).length →
      findInstance? (refill filling scope) id =
        (findInstance? (filling.take (switchesAhead scope id)) id).or
          (findInstance? (scope.filter fun i => !i.isSwitch) id) := by
  induction scope with
  | nil =>
    intro filling h
    rw [List.length_eq_zero_iff.1 h]
    rfl
  | cons i rest ih =>
    intro filling h
    by_cases hi : i.isSwitch = true
    · rw [List.filter_cons_of_pos hi] at h
      cases filling with
      | nil => exact absurd h (by simp)
      | cons s filling =>
        have hrest := ih filling (Nat.succ.inj h)
        rw [refill, if_pos hi, switchesAhead, if_pos hi, List.filter_cons_of_neg (by simp [hi])]
        unfold findInstance? at hrest ⊢
        rw [List.take_succ_cons, List.find?_cons, List.find?_cons]
        cases s.id == id with
        | true => rfl
        | false => exact hrest
    · rw [List.filter_cons_of_neg hi] at h
      have hrest := ih filling h
      rw [refill_cons_of_not_switch hi, switchesAhead, if_neg hi,
        List.filter_cons_of_pos (by simp [hi])]
      unfold findInstance? at hrest ⊢
      rw [List.find?_cons, List.find?_cons]
      by_cases hid : i.id = id
      · simp [hid]
      · have hne : (i.id == id) = false := by simpa using hid
        rw [if_neg hid, hne]
        exact hrest

/-- The reordering of the switches of a scope as `ordered` leaves its id to the same chip: before
the first other chip with that id there is a switch with it exactly if there was one. -/
def LeavesFirst (scope ordered : List Instance) (id : String) : Prop :=
  id ∈ (ordered.take (switchesAhead scope id)).map Instance.id ↔
    id ∈ ((scope.filter Instance.isSwitch).take (switchesAhead scope id)).map Instance.id

instance (scope ordered : List Instance) (id : String) : Decidable (LeavesFirst scope ordered id) :=
  inferInstanceAs (Decidable (_ ↔ _))

theorem findInstance?_take {n : Nat} {i : Instance} (h : findInstance? (scope.take n) id = some i) :
    findInstance? scope id = some i := by
  unfold findInstance? at h ⊢
  rw [← List.take_append_drop n scope, List.find?_append, h]
  rfl

theorem findInstance?_take_congr {n : Nat} (h : findInstance? ordered id = findInstance? scope id)
    (hmem : id ∈ (ordered.take n).map Instance.id ↔ id ∈ (scope.take n).map Instance.id) :
    findInstance? (ordered.take n) id = findInstance? (scope.take n) id := by
  cases hold : findInstance? (scope.take n) id with
  | none =>
    rw [findInstance?_eq_none_iff] at hold ⊢
    exact fun hnew => hold (hmem.1 hnew)
  | some i =>
    cases hnew : findInstance? (ordered.take n) id with
    | none =>
      rw [findInstance?_eq_none_iff, hmem, ← findInstance?_eq_none_iff, hold] at hnew
      exact absurd hnew (by simp)
    | some j => rw [← findInstance?_take hnew, ← findInstance?_take hold, h]

/-- What is found first in one of two lists of switches, and then elsewhere among other chips, says
whether the list has it. -/
theorem isSome_of_or_eq {a b c : Option Instance} (ha : ∀ i, a = some i → i.isSwitch = true)
    (hb : ∀ i, b = some i → i.isSwitch = true) (hc : ∀ i, c = some i → i.isSwitch = false)
    (h : a.or c = b.or c) : a.isSome = b.isSome := by
  cases a with
  | some i =>
    cases b with
    | some j => rfl
    | none =>
      have hswitch := ha i rfl
      rw [hc i h.symm] at hswitch
      exact absurd hswitch Bool.false_ne_true
  | none =>
    cases b with
    | some j =>
      have hswitch := hb j rfl
      rw [hc j h] at hswitch
      exact absurd hswitch Bool.false_ne_true
    | none => rfl

theorem findInstance?_isSome_iff {scope : List Instance} {id : String} :
    (findInstance? scope id).isSome = true ↔ id ∈ scope.map Instance.id := by
  rw [← not_iff_not, Option.not_isSome_iff_eq_none]
  exact findInstance?_eq_none_iff

/-- **An id means what it meant**, if its first switch is still the first of its switches, exactly
if the reordering leaves it to the same chip. -/
theorem findInstance?_refill_iff (hperm : ordered.Perm (scope.filter Instance.isSwitch))
    (hfirst : findInstance? ordered id = findInstance? (scope.filter Instance.isSwitch) id) :
    findInstance? (refill ordered scope) id = findInstance? scope id ↔
      LeavesFirst scope ordered id := by
  have hold : findInstance? scope id = _ :=
    (congrArg (findInstance? · id) (refill_filter scope)).symm.trans
      (findInstance?_refill scope _ rfl)
  rw [findInstance?_refill scope ordered hperm.length_eq, hold]
  refine ⟨fun h => ?_, fun h => by rw [findInstance?_take_congr hfirst h]⟩
  have hswitches : ∀ (n : Nat) (i : Instance),
      findInstance? ((scope.filter Instance.isSwitch).take n) id = some i → i.isSwitch = true :=
    fun n i hi => (List.mem_filter.1 (List.mem_of_mem_take (List.mem_of_find?_eq_some hi))).2
  have hordered : ∀ (n : Nat) (i : Instance),
      findInstance? (ordered.take n) id = some i → i.isSwitch = true := by
    intro n i hi
    have hmem := List.mem_of_mem_take (List.mem_of_find?_eq_some hi)
    exact (List.mem_filter.1 (hperm.mem_iff.1 hmem)).2
  have hothers : ∀ i, findInstance? (scope.filter fun i => !i.isSwitch) id = some i →
      i.isSwitch = false := by
    intro i hi
    simpa using (List.mem_filter.1 (List.mem_of_find?_eq_some hi)).2
  have hsome := isSome_of_or_eq (hordered _) (hswitches _) hothers h
  rw [LeavesFirst, ← findInstance?_isSome_iff, ← findInstance?_isSome_iff, hsome]

/-! ## The order of a netlist -/

/-- **An id means what it meant before the switches were ordered** exactly if they leave it to the
same chip. -/
theorem findInstance?_orderInputs_iff (catalog : Catalog) (wires : List Wire)
    (scope : List Instance) (id : String) :
    findInstance? (orderInputs catalog wires scope) id = findInstance? scope id ↔
      LeavesFirst scope ((orderInputs catalog wires scope).filter Instance.isSwitch) id := by
  obtain ⟨ids, hordered⟩ := orderInputs_eq_refill catalog wires scope
  rw [hordered, (filter_refill_pullFront scope ids).1]
  exact findInstance?_refill_iff (pullFront_perm ids _) (findInstance?_pullFront ids _)

/-- An id that no switch shares with another chip means what it meant. -/
theorem findInstance?_orderInputs_of_unshared (catalog : Catalog) (wires : List Wire)
    (h : ∀ i ∈ scope, ∀ j ∈ scope, i.id = id → j.id = id → i.isSwitch = j.isSwitch) :
    findInstance? (orderInputs catalog wires scope) id = findInstance? scope id := by
  have hperm := orderInputs_perm catalog wires scope
  obtain ⟨ids, hordered⟩ := orderInputs_eq_refill catalog wires scope
  obtain ⟨hswitches, hothers⟩ := filter_refill_pullFront scope ids
  rw [← hordered] at hswitches hothers
  by_cases hany : ∃ i ∈ scope, i.id = id ∧ i.isSwitch = true
  · obtain ⟨i, hi, hid, hswitch⟩ := hany
    have hall : ∀ j ∈ scope, j.id = id → j.isSwitch = true :=
      fun j hj hjd => (h i hi j hj hid hjd).symm.trans hswitch
    rw [← findInstance?_filter fun j hj => hall j (hperm.mem_iff.1 hj), hswitches,
      findInstance?_pullFront, findInstance?_filter hall]
  · have hnone : ∀ j ∈ scope, j.id = id → (!j.isSwitch) = true :=
      fun j hj hjd => by simpa using fun hswitch => hany ⟨j, hj, hjd, hswitch⟩
    rw [← findInstance?_filter fun j hj => hnone j (hperm.mem_iff.1 hj), hothers,
      findInstance?_filter hnone]

/-! ## What an id denotes -/

theorem updateInstance_eq_set {k : Nat} {i : Instance} (hseat : seat? scope id = some k)
    (hk : scope[k]? = some i) (f : Instance → Instance) :
    updateInstance scope id f = scope.set k (f i) := by
  refine List.ext_getElem? fun m => ?_
  rw [getElem?_updateInstance, hseat, List.getElem?_set]
  by_cases hm : k = m
  · subst hm
    rw [if_pos rfl, if_pos rfl, if_pos (List.getElem?_eq_some_iff.1 hk).1, hk, Option.map_some]
  · rw [if_neg (fun h => hm (Option.some.inj h)), if_neg hm]

/-- All that goes by an id goes to the instance `i` on the seat `k`. -/
structure Simulator.Denotes (sim : Simulator) (id : String) (k : Nat) (i : Instance) : Prop where
  seat : sim.instances[k]? = some i
  first : seat? sim.instances id = some k
  found : sim.instance? id = some i
  value : sim.value? id = some i.value
  output : ∀ pin, sim.output? id pin = some (i.output pin)
  /-- A wire from that id carries the bit of the instance. -/
  read : ∀ (wire : Wire) (inherited : Pins), wire.source = id →
    wire.read sim.instances inherited = i.read wire.sourcePin
  /-- A toggle flips the instance on that seat and no other, if it is a switch. -/
  toggle : (Command.toggle id).netlist? sim =
    if i.isInput then some ⟨sim.instances.set k (i.drive (!i.value)), sim.wires⟩ else none
  expand : ∀ expanded, ((Command.expand id expanded).exec sim).instances =
    sim.instances.set k { i with expanded }

/-- **Everything goes by the first instance of an id.** -/
theorem denotes_of_seat {sim : Simulator} {k : Nat} {i : Instance}
    (hseat : seat? sim.instances id = some k) (hk : sim.instances[k]? = some i) :
    sim.Denotes id k i := by
  have hfound : findInstance? sim.instances id = some i := by
    rw [findInstance?_eq_seat, hseat]
    exact hk
  have hinstance : sim.instance? id = some i := hfound
  constructor
  · exact hk
  · exact hseat
  · exact hfound
  · rw [Simulator.value?, hinstance, Option.map_some]
  · intro pin
    rw [Simulator.output?, hinstance, Option.map_some]
  · intro wire inherited hsource
    simp only [Wire.read, hsource, hfound]
  · cases hinput : i.isInput with
    | true =>
      have hswitch : (sim.instance? id).filter Instance.isInput = some i := by
        rw [hinstance, Option.filter_some, if_pos hinput]
      rw [netlist?_toggle_of_some hswitch, toggleInput_of_some hswitch,
        updateInstance_eq_set hseat hk, if_pos rfl]
    | false =>
      rw [Command.netlist?, hinstance, Option.filter_some, hinput]
      rfl
  · exact fun expanded => updateInstance_eq_set hseat hk _

/-- The first statement of a program that declares the id. -/
def Program.declaration? (p : Program) (id : String) : Option Part :=
  p.parts.find? fun part => part.id == id

theorem findInstance?_fresh (catalog : Catalog) (p : Program) (id : String) :
    findInstance? (p.parts.map (Instance.fresh catalog)) id =
      (p.declaration? id).map (Instance.fresh catalog) := by
  rw [findInstance?, List.find?_map]
  rfl

/-- From the assembly of a text until a circuit is built anew, the id denotes the instance that was
built from the part. -/
def Simulator.AssemblesAs (sim : Simulator) (text id : String) (part : Part) : Prop :=
  ∃ k, (Netlist.ofProgram sim.catalog (Program.parse text).program).instances[k]? =
      some (Instance.fresh sim.catalog part) ∧
    ∀ later : List Command, (∀ c ∈ later, c.rebuilds = false) →
      ∃ i, ((sim.assemble text).1.run later).Denotes id k i ∧
        i.blank = (Instance.fresh sim.catalog part).blank

/-- **An id denotes what it finds in the netlist as it is laid out.** -/
theorem assemblesAs_iff (sim : Simulator) (text id : String) (part : Part) :
    sim.AssemblesAs text id part ↔
      findInstance? (Netlist.ofProgram sim.catalog (Program.parse text).program).instances id =
        some (Instance.fresh sim.catalog part) := by
  have hshape : ∀ later : List Command, (∀ c ∈ later, c.rebuilds = false) →
      blankAll ((sim.assemble text).1.run later).instances =
        blankAll (Netlist.ofProgram sim.catalog (Program.parse text).program).instances :=
    fun later hlater => (blankAll_run hlater).1.trans (blankAll_settle _ _)
  rw [findInstance?_eq_seat]
  constructor
  · rintro ⟨k, hk, hlater⟩
    obtain ⟨i, hdenotes, -⟩ := hlater [] (by simp)
    have hids := map_id_of_blankAll (hshape [] (by simp))
    rw [← seat?_congr hids, hdenotes.first]
    exact hk
  · intro hfound
    obtain ⟨k, hseat, hk⟩ := Option.bind_eq_some_iff.1 hfound
    refine ⟨k, hk, fun later hlater => ?_⟩
    obtain ⟨i, hi, hblank⟩ := getElem?_of_blankAll (hshape later hlater).symm hk
    refine ⟨i, denotes_of_seat ?_ hi, hblank⟩
    rw [seat?_congr (map_id_of_blankAll (hshape later hlater)), hseat]

/-- **An id denotes its first declaration unless its switch is carried past another chip.** Of a
text that declares an id, whatever else has that id: the id denotes the instance that the first
statement with it declares, for queries, toggles and wires, from the assembly until a circuit is
built anew, exactly if ordering the switches carries no switch with that id past the first other
chip with it (`LeavesFirst`); and that is when the order of the switches does not change what the id
denotes. It is so whenever the id is not shared by a switch and another chip. A wire to the id whose
one pin is to be told from a pin of its source goes by the first statement with the id anyway. -/
theorem lookup_finds_first_iff (sim : Simulator) (text id : String) (part : Part)
    (h : (Program.parse text).program.declaration? id = some part) :
    let program := (Program.parse text).program
    let declared := program.parts.map (Instance.fresh sim.catalog)
    let laid := (Netlist.ofProgram sim.catalog program).instances
    (sim.AssemblesAs text id part ↔
      LeavesFirst declared (laid.filter Instance.isSwitch) id) ∧
    (findInstance? laid id = findInstance? declared id ↔
      LeavesFirst declared (laid.filter Instance.isSwitch) id) ∧
    (∃ other ∈ program.parts, other.id = id ∧ sim.AssemblesAs text id other) ∧
    ((∀ p ∈ program.parts, ∀ q ∈ program.parts, p.id = id → q.id = id →
        (upper p.chip = inputType ↔ upper q.chip = inputType)) →
      sim.AssemblesAs text id part) ∧
    ∀ pin, Netlist.isTargetInput sim.catalog declared id pin =
      (sim.catalog.get? (upper part.chip)).any fun d => d.hasInput pin := by
  intro program declared laid
  have hdeclared : findInstance? declared id = some (Instance.fresh sim.catalog part) := by
    rw [findInstance?_fresh, h, Option.map_some]
  have hiff : findInstance? laid id = findInstance? declared id ↔
      LeavesFirst declared (laid.filter Instance.isSwitch) id :=
    findInstance?_orderInputs_iff sim.catalog _ declared id
  refine ⟨?_, hiff, ?_, fun hunshared => ?_, fun pin => ?_⟩
  · rw [assemblesAs_iff, ← hdeclared]
    exact hiff
  · have hsome : (findInstance? laid id).isSome = true := by
      rw [findInstance?_isSome_perm (ofProgram_perm sim.catalog program), hdeclared]
      rfl
    obtain ⟨i, hi⟩ := Option.isSome_iff_exists.1 hsome
    have hmem := (ofProgram_perm sim.catalog program).mem_iff.1 (List.mem_of_find?_eq_some hi)
    obtain ⟨other, hother, rfl⟩ := List.mem_map.1 hmem
    have hid : (Instance.fresh sim.catalog other).id = id := by simpa using List.find?_some hi
    exact ⟨other, hother, hid, (assemblesAs_iff sim text id other).2 hi⟩
  · rw [assemblesAs_iff, ← hdeclared]
    refine findInstance?_orderInputs_of_unshared sim.catalog _ ?_
    intro i hi j hj hid hjd
    obtain ⟨p, hp, rfl⟩ := List.mem_map.1 hi
    obtain ⟨q, hq, rfl⟩ := List.mem_map.1 hj
    rw [Bool.eq_iff_iff]
    simpa [Instance.isSwitch, Instance.chip, Instance.fresh, Part.fold] using
      hunshared p hp q hq hid hjd
  · have hchip : (Instance.fresh sim.catalog part).chip = upper part.chip := rfl
    rw [Netlist.isTargetInput, hdeclared, Option.bind_some, hchip]
    cases sim.catalog.get? (upper part.chip) <;> rfl

/-- A switch and an inverter of one id, and a gate whose switches are declared the wrong way
round. -/
def sharedBehind : String := "INPUT b\nINPUT a\nNOT a\nAND g\nWIRE a g\nWIRE b g\n"

/-- The switches change places, and the id is still that of the switch. -/
theorem lookup_finds_first_shared :
    let sim := Simulator.new Standard.catalog {}
    (sim.assemble sharedBehind).1.inputIds = ["a", "b"] ∧
      sim.AssemblesAs sharedBehind "a" ⟨"a", "INPUT", none⟩ := by
  intro sim
  have hdeclared : (Program.parse sharedBehind).program.declaration? "a" =
      some ⟨"a", "INPUT", none⟩ := by decide +kernel
  exact ⟨by decide +kernel,
    (lookup_finds_first_iff sim sharedBehind "a" _ hdeclared).1.2 (by decide +kernel)⟩

/-- A gate that is declared before a switch with its id, and after another switch. -/
def sharedAhead : String := "INPUT b\nAND x\nINPUT x\nNOT n\nWIRE x n In\n"

/-- The switch takes the place before the gate, and the id denotes it although the gate is declared
first. -/
theorem pulled_switch_hides_declared_gate :
    let sim := Simulator.new Standard.catalog {}
    let after := (sim.assemble sharedAhead).1
    (Program.parse sharedAhead).program.declaration? "x" = some ⟨"x", "AND", none⟩ ∧
      (after.instance? "x").map Instance.part = some ⟨"x", "INPUT", none⟩ ∧
      (after.run [.toggle "x"]).value? "x" = some true ∧
      ¬sim.AssemblesAs sharedAhead "x" ⟨"x", "AND", none⟩ := by
  intro sim after
  have hpart : (after.instance? "x").map Instance.part = some ⟨"x", "INPUT", none⟩ := by
    decide +kernel
  refine ⟨by decide +kernel, hpart, by decide +kernel, ?_⟩
  rintro ⟨k, -, hlater⟩
  obtain ⟨i, hdenotes, hblank⟩ := hlater [] (by simp)
  have hown : i.part = ⟨"x", "AND", none⟩ := by
    rw [← blank_part, hblank, blank_part]
    decide
  have hfound : after.instance? "x" = some i := hdenotes.found
  rw [hfound, Option.map_some, hown] at hpart
  exact absurd hpart (by decide)

end Breadboard
