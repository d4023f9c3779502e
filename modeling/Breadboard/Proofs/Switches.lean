import Breadboard.Chip.Standard
import Breadboard.Proofs.Frame

/-!
# Which switches can be flipped

Switches are listed by filtering all instances at the top, but a toggle goes to the first instance
of the id and then asks whether that is a switch. The two agree but where a switch stands behind
another chip of its id (`Simulator.HidesSwitch`).

* `toggle_isSome_iff`, `hidesSwitch_iff`: which toggles are taken, and which switches are hidden;
* `Simulator.FlipsOnly`, `flipsOnly_toggle`: a toggle that is taken flips the switch on one seat and
  no other switch at any place, whatever settling does to the circuit;
* **`toggle_is_taken_iff`**: the two together, for every circuit in every state.
-/

namespace Breadboard

variable {sim : Simulator} {id : String}

namespace Simulator

/-! ## Which toggles are taken -/

/-- A switch of that id stands behind another chip, which is the first instance of the id. -/
def HidesSwitch (sim : Simulator) (id : String) : Prop :=
  ∃ before first after, sim.instances = before ++ first :: after ∧ (∀ j ∈ before, j.id ≠ id) ∧
    first.id = id ∧ first.isInput = false ∧ ∃ j ∈ after, j.id = id ∧ j.isInput = true

theorem mem_inputIds_iff : id ∈ sim.inputIds ↔
    ∃ i ∈ sim.instances, i.id = id ∧ i.isInput = true := by
  simp only [inputIds, List.mem_map, List.mem_filter, and_assoc, and_comm (a := Instance.id _ = id)]

/-- **What is found by an id** is the first instance that has it. -/
theorem instance?_eq_some_iff {i : Instance} : sim.instance? id = some i ↔
    i.id = id ∧ ∃ before after, sim.instances = before ++ i :: after ∧ ∀ j ∈ before, j.id ≠ id := by
  simp [instance?, findInstance?, List.find?_eq_some_iff_append]

/-- A toggle is taken where the first instance of the id is a switch. -/
theorem toggle_isSome_iff : (sim.toggle id).2.isSome = true ↔
    ∃ i, sim.instance? id = some i ∧ i.isInput = true := by
  rw [toggle]
  split
  · rename_i i hi
    exact iff_of_true rfl ⟨i, Option.filter_eq_some_iff.1 hi⟩
  · rename_i hnone
    refine iff_of_false Bool.false_ne_true ?_
    rintro ⟨i, hi, hinput⟩
    rw [hi, Option.filter_some, if_pos hinput] at hnone
    exact absurd hnone (by simp)

/-- A switch is hidden where one is listed and another chip is found. -/
theorem hidesSwitch_iff : sim.HidesSwitch id ↔
    id ∈ sim.inputIds ∧ ∃ i, sim.instance? id = some i ∧ i.isInput = false := by
  constructor
  · rintro ⟨before, first, after, hsplit, hbefore, hid, hfirst, j, hj, hjd, hswitch⟩
    refine ⟨mem_inputIds_iff.2 ⟨j, ?_, hjd, hswitch⟩, first, ?_, hfirst⟩
    · rw [hsplit]
      exact List.mem_append_right before (List.mem_cons_of_mem first hj)
    · exact instance?_eq_some_iff.2 ⟨hid, before, after, hsplit, hbefore⟩
  · rintro ⟨hlisted, first, hfound, hfirst⟩
    obtain ⟨hid, before, after, hsplit, hbefore⟩ := instance?_eq_some_iff.1 hfound
    obtain ⟨j, hj, hjd, hswitch⟩ := mem_inputIds_iff.1 hlisted
    refine ⟨before, first, after, hsplit, hbefore, hid, hfirst, j, ?_, hjd, hswitch⟩
    rw [hsplit, List.mem_append, List.mem_cons] at hj
    rcases hj with hj | rfl | hj
    · exact absurd hjd (hbefore j hj)
    · exact absurd hswitch (by simp [hfirst])
    · exact hj

/-- **A toggle is taken** where a switch is listed and not hidden. -/
theorem toggle_isSome_iff_not_hidden : (sim.toggle id).2.isSome = true ↔
    id ∈ sim.inputIds ∧ ¬sim.HidesSwitch id := by
  rw [toggle_isSome_iff, hidesSwitch_iff]
  constructor
  · rintro ⟨i, hfound, hinput⟩
    obtain ⟨hid, before, after, hsplit, -⟩ := instance?_eq_some_iff.1 hfound
    refine ⟨mem_inputIds_iff.2 ⟨i, by simp [hsplit], hid, hinput⟩, ?_⟩
    rintro ⟨-, j, hj, hnot⟩
    rw [hfound] at hj
    cases hj
    simp [hinput] at hnot
  · rintro ⟨hlisted, hhidden⟩
    cases hfound : sim.instance? id with
    | none =>
      obtain ⟨j, hj, hjd, -⟩ := mem_inputIds_iff.1 hlisted
      exact absurd hjd (by simpa using List.find?_eq_none.1 hfound j hj)
    | some i =>
      refine ⟨i, rfl, ?_⟩
      by_contra hinput
      exact hhidden ⟨hlisted, i, hfound, by simpa using hinput⟩

end Simulator

/-! ## What a toggle flips -/

/-- The same chip in two states: a switch is flipped if `flipped`, and else has the bit it had. -/
structure Instance.SameButFlipped (flipped : Prop) (before after : Instance) : Prop where
  part : after.part = before.part
  isInput : after.isInput = before.isInput
  flips : before.isInput = true → flipped → after.value = !before.value
  keeps : before.isInput = true → ¬flipped → after.value = before.value

theorem Instance.SameButFlipped.refl {flipped : Prop} (h : ¬flipped) (i : Instance) :
    i.SameButFlipped flipped i :=
  ⟨rfl, rfl, fun _ hflipped => absurd hflipped h, fun _ _ => rfl⟩

/-- What a settling does to a circuit does not flip its switches back. -/
theorem Instance.SameButFlipped.settled {flipped : Prop} {i j l : Instance}
    (h : i.SameButFlipped flipped j) (hl : j.SameButSettled l) : i.SameButFlipped flipped l := by
  have hswitch : i.isInput = true → l.value = j.value :=
    fun hi => hl.switch (h.isInput.trans hi)
  exact ⟨hl.part.trans h.part, (isInput_of_hollow hl.body).trans h.isInput,
    fun hi hflipped => (hswitch hi).trans (h.flips hi hflipped),
    fun hi hkept => (hswitch hi).trans (h.keeps hi hkept)⟩

namespace Simulator

/-- Between two states, the switch with that id on the `k`-th seat at the top is flipped, and every
other switch, at the top and at any depth, has the bit it had. -/
structure FlipsOnly (before after : Simulator) (id : String) (k : Nat) : Prop where
  switch : ∃ i, before.instances[k]? = some i ∧ i.id = id ∧ i.isInput = true
  places : ∀ path m, Option.Rel (Instance.SameButFlipped (path = [] ∧ m = k))
    (before.top.instanceAt? path m) (after.top.instanceAt? path m)

/-- **A toggle that is taken flips one switch** and no other. -/
theorem flipsOnly_toggle (h : (sim.toggle id).2.isSome = true) :
    ∃ k, sim.FlipsOnly (sim.toggle id).1 id k := by
  obtain ⟨i, hfound, hinput⟩ := toggle_isSome_iff.1 h
  have hswitch : (sim.instance? id).filter Instance.isInput = some i := by
    rw [hfound, Option.filter_some, if_pos hinput]
  have hid : i.id = id := (instance?_eq_some_iff.1 hfound).1
  rw [instance?, findInstance?_eq_seat] at hfound
  obtain ⟨k, hseat, hk⟩ := Option.bind_eq_some_iff.1 hfound
  refine ⟨k, ⟨i, hk, hid, hinput⟩, fun path m => ?_⟩
  have hdriven : Option.Rel (Instance.SameButFlipped (path = [] ∧ m = k))
      (sim.top.instanceAt? path m)
      (Scope.instanceAt? ⟨toggleInput sim.instances id, sim.wires, ∅⟩ path m) := by
    rw [toggleInput_of_some hswitch]
    by_cases hplace : path = [] ∧ m = k
    · obtain ⟨rfl, rfl⟩ := hplace
      have hflipped : (updateInstance sim.instances id fun i => i.drive (!i.value))[m]? =
          some (i.drive (!i.value)) := by
        rw [getElem?_updateInstance, if_pos hseat, hk, Option.map_some]
      have hnow : sim.top.instances[m]? = some i := hk
      rw [Scope.instanceAt?_nil, Scope.instanceAt?_nil, hnow, hflipped]
      exact .some ⟨rfl, rfl, fun _ _ => rfl, fun _ hn => absurd ⟨rfl, rfl⟩ hn⟩
    · exact instanceAt?_updateInstance_rel (f := fun i => i.drive (!i.value)) (fun _ => rfl)
        sim.top id path m (.refl hplace)
        fun hpath hm => absurd ⟨hpath, Option.some.inj (hm.symm.trans hseat)⟩ hplace
  have hsettled := settle_sameButSettled sim.catalog sim.wires sim.options.maxPasses.toNat
    (toggleInput sim.instances id) path m
  have htop : (sim.toggle id).1.top =
      ⟨(sim.settled ⟨toggleInput sim.instances id, sim.wires⟩).1, sim.wires, ∅⟩ :=
    congrArg Netlist.top (exec_of_netlist? (netlist?_toggle_of_some hswitch)).1
  rw [htop]
  exact rel_trans (fun _ _ _ hab hbc => hab.settled hbc) hdriven hsettled

end Simulator

/-- **A listed switch can be flipped unless it is hidden.** In every circuit and every state, a
toggle is taken exactly if a switch with the id is listed and not hidden behind another chip of the
id (`Simulator.HidesSwitch`); so the ids that can be flipped are those that are listed exactly if
none is hidden, as is always so of an id that no switch shares with another chip. A toggle that is
taken flips one switch with the id, and no other switch at any depth; one that is refused only
reports. -/
theorem toggle_is_taken_iff (sim : Simulator) (id : String) :
    ((sim.toggle id).2.isSome = true ↔ id ∈ sim.inputIds ∧ ¬sim.HidesSwitch id) ∧
    (((sim.toggle id).2.isSome = true ↔ id ∈ sim.inputIds) ↔ ¬sim.HidesSwitch id) ∧
    ((∀ i ∈ sim.instances, ∀ j ∈ sim.instances, i.id = id → j.id = id → i.isInput = j.isInput) →
      ¬sim.HidesSwitch id) ∧
    ((sim.toggle id).2.isSome = true → ∃ k, sim.FlipsOnly (sim.toggle id).1 id k) ∧
    ((sim.toggle id).2 = none →
      (sim.toggle id).1 = { sim with issues := .ofList [.notAnInput id] }) := by
  have htaken : (sim.toggle id).2.isSome = true ↔ id ∈ sim.inputIds ∧ ¬sim.HidesSwitch id :=
    Simulator.toggle_isSome_iff_not_hidden
  refine ⟨htaken, ?_, fun hunshared => ?_, Simulator.flipsOnly_toggle, fun hnone => ?_⟩
  · rw [htaken]
    exact ⟨fun h hhidden => (h.2 (Simulator.hidesSwitch_iff.1 hhidden).1).2 hhidden,
      fun h => and_iff_left h⟩
  · rintro ⟨before, first, after, hsplit, -, hid, hfirst, j, hj, hjd, hswitch⟩
    have hsame := hunshared first (by simp [hsplit]) j (by simp [hsplit, hj]) hid hjd
    simp [hfirst, hswitch] at hsame
  · refine exec_toggle_of_none ?_
    unfold Simulator.toggle at hnone
    split at hnone
    · exact absurd hnone (by simp)
    · assumption

/-- The switch with the id of a gate is listed and can be flipped where it stands before the gate,
and that only flips the first of two. -/
theorem toggle_is_taken_twins :
    let sim := (Simulator.new Standard.catalog {}).run [.assemble "INPUT x\nINPUT x\nAND x\n"]
    ¬sim.HidesSwitch "x" ∧ (sim.toggle "x").2.isSome = true ∧
      (∃ k, sim.FlipsOnly (sim.toggle "x").1 "x" k) ∧
      (sim.toggle "x").1.instances.map Instance.value = [true, false, false] ∧
      (sim.toggle "y").2 = none ∧
      (sim.toggle "y").1 = { sim with issues := .ofList [.notAnInput "y"] } := by
  intro sim
  have htaken : (sim.toggle "x").2.isSome = true := by decide +kernel
  have hrefused : (sim.toggle "y").2 = none := by decide +kernel
  exact ⟨((toggle_is_taken_iff sim "x").1.1 htaken).2, htaken,
    (toggle_is_taken_iff sim "x").2.2.2.1 htaken, by decide +kernel, hrefused,
    (toggle_is_taken_iff sim "y").2.2.2.2 hrefused⟩

/-- A switch that is declared before a gate with its id, and behind it once the switches are in
order. -/
def carriedBehind : String := "INPUT x\nAND x\nINPUT b\nNOT n\nWIRE b n\n"

/-- The switch is listed, and declared first of all, and yet no switch has its id when it is to be
flipped. -/
theorem carried_switch_is_refused :
    let sim := (Simulator.new Standard.catalog {}).run [.assemble carriedBehind]
    sim.inputIds = ["b", "x"] ∧
      (Program.parse carriedBehind).program.parts.head? = some ⟨"x", "INPUT", none⟩ ∧
      (sim.toggle "x").2 = none ∧ (sim.toggle "x").1.issues.issues = [.notAnInput "x"] ∧
      ¬((sim.toggle "x").2.isSome = true ↔ "x" ∈ sim.inputIds) := by
  decide +kernel

end Breadboard
