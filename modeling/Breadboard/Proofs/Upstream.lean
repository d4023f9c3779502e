import Breadboard.Proofs.Restriction

/-!
# Parts of a circuit that depend on nothing else

Two simulators run side by side, one with a whole circuit, and one with a part of it that depends on
nothing else. What is done to the whole is done to the part, and the part follows.

* `Simulator.Confines`: one simulator holds what the other one holds, restricted
  (`Simulator.Confines.exec`, `Simulator.Confines.run`);
* `exec_toggle_outside`: a toggle outside leaves everything that is kept alone;
* **`exists_fresh_of_program?`**: loading a program is settling new chips for its parts;
* **`closed_part_evolves_alone`**: a part that depends on nothing else evolves on its own, and a
  toggle changes nothing that its switch does not lead to.
-/

namespace Breadboard

variable {catalog : Catalog} {wires : List Wire} {keep : String → Bool}

/-! ## Simulators -/

/-- The operation as it is made on the part: a toggle of a switch that is left out only settles. -/
def Command.within (keep switch : String → Bool) : Command → Command
  | .toggle id => if switch id && !keep id then .settle else .toggle id
  | c => c

theorem stimulates_within {keep switch : String → Bool} {c : Command} (hc : c.stimulates = true) :
    (c.within keep switch).stimulates = true := by
  cases c with
  | assemble | assembleProgram | expand | restore => exact absurd hc (by simp [Command.stimulates])
  | settle | tick => rfl
  | toggle id =>
    rw [Command.within]
    split <;> rfl

theorem netlist?_toggle (sim : Simulator) (id : String) :
    (Command.toggle id).netlist? sim =
      if isSwitch sim.instances id then some ⟨toggleInput sim.instances id, sim.wires⟩
      else none := by
  rw [Command.netlist?, Simulator.instance?, isSwitch]
  cases (findInstance? sim.instances id).filter Instance.isInput <;> rfl

/-- **A stimulus that settles nothing** only reports. -/
theorem exec_of_stimulates_none {sim : Simulator} {c : Command} (hc : c.stimulates = true)
    (h : c.netlist? sim = none) : ∃ issues, c.exec sim = { sim with issues } := by
  cases c with
  | assemble | assembleProgram | expand | restore => exact absurd hc (by simp [Command.stimulates])
  | settle | tick => exact absurd h (by simp [Command.netlist?])
  | toggle id => exact ⟨_, exec_toggle_of_none (Option.map_eq_none_iff.1 h)⟩

/-- Both have settled, the part in at most as many passes as the whole. -/
def SettledNoLater (whole part : Simulator) : Prop :=
  ∃ report report', whole.lastReport = some report ∧ part.lastReport = some report' ∧
    report'.converged = true ∧ report'.passes ≤ report.passes

/-- `part` holds what `whole` holds, restricted to instances that depend on nothing else; both have
settled. The switches of the whole are those that `switch` says. -/
structure Simulator.Confines (keep switch : String → Bool) (whole part : Simulator) : Prop where
  catalog : part.catalog = whole.catalog
  options : part.options = whole.options
  netlist : part.netlist = whole.netlist.restrict keep
  closed : UpstreamClosed keep (whole.instances.map Instance.id) whole.wires
  plain : Throughout (Instance.Plain whole.catalog) whole.instances
  rest : whole.top.AtRest whole.catalog
  switches : ∀ id, isSwitch whole.instances id = switch id
  settled : SettledNoLater whole part

section Confines

variable {switch : String → Bool} {whole part : Simulator}

/-- **Two settlings**, of a netlist and of the netlist restricted. -/
theorem confines_of_netlist? (hcatalog : part.catalog = whole.catalog)
    (hoptions : part.options = whole.options) {c d : Command} {n : Netlist}
    (hc : c.netlist? whole = some n) (hd : d.netlist? part = some (n.restrict keep))
    (hclosed : UpstreamClosed keep (n.instances.map Instance.id) n.wires)
    (hplain : Throughout (Instance.Plain whole.catalog) n.instances)
    (hswitches : ∀ id, isSwitch n.instances id = switch id)
    (hconverged : (c.exec whole).convergedLast = true) :
    (c.exec whole).Confines keep switch (d.exec part) := by
  have hrest := atRest_of_convergedLast hc hplain hconverged
  obtain ⟨hwhole, hreport⟩ := exec_of_netlist? hc
  obtain ⟨hpart, hreport'⟩ := exec_of_netlist? hd
  have hsettled := converged_of_convergedLast hc hconverged
  obtain ⟨hinstances, hconverged', hpasses⟩ := settle_restrict hclosed
    (hplain.mono fun _ h => h.tidy) hsettled
  have hsame : part.settled (n.restrict keep) = settle whole.catalog (restrictWires keep n.wires)
      whole.options.maxPasses.toNat (restrictAll keep n.instances) := by
    unfold Simulator.settled
    rw [hcatalog, hoptions]
    rfl
  have hblank := blankAll_of_netlist? hc
  have hover := exec_catalog whole c
  have hover' := exec_catalog part d
  constructor
  · rw [hover.1, hover'.1, hcatalog]
  · rw [hover.2, hover'.2, hoptions]
  · rw [hwhole, hpart, hsame, hinstances]
    rfl
  · rw [map_id_of_blankAll hblank, Simulator.wires, hwhole]
    exact hclosed
  · rw [hover.1]
    exact throughout_of_netlist? plain_pass hc hplain
  · rw [hover.1]
    exact hrest
  · exact fun id => (isSwitch_of_blankAll hblank id).trans (hswitches id)
  · exact ⟨_, _, hreport, hreport', hsame ▸ hconverged', hsame ▸ hpasses⟩

/-- **What an operation lays out in the part** is what it lays out in the whole, restricted. -/
theorem netlist?_within (hinstances : part.instances = restrictAll keep whole.instances)
    (hswitches : ∀ id, isSwitch whole.instances id = switch id) {c : Command}
    (hc : c.stimulates = true) :
    (c.within keep switch).netlist? part =
      (c.netlist? whole).map fun n => ⟨restrictAll keep n.instances, part.wires⟩ := by
  cases c with
  | assemble | assembleProgram | expand | restore => exact absurd hc (by simp [Command.stimulates])
  | settle => exact congrArg (fun l => some (Netlist.mk l part.wires)) hinstances
  | tick =>
    have hcommit := congrArg (fun l => (commitAll l).1) hinstances
    exact congrArg (fun l => some (Netlist.mk l part.wires))
      (hcommit.trans (restrictAll_commitAll whole.instances).symm)
  | toggle id =>
    have htoggled := restrictAll_toggleInput keep whole.instances id
    rw [← hinstances] at htoggled
    rw [netlist?_toggle, hswitches]
    cases hswitch : switch id with
    | false =>
      -- no switch in the whole, and none in the part
      have hwithin : (Command.toggle id).within keep switch = .toggle id := by
        simp [Command.within, hswitch]
      rw [hwithin, netlist?_toggle, hinstances, isSwitch_restrictAll, hswitches, hswitch,
        Bool.and_false]
      rfl
    | true =>
      cases hkeep : keep id with
      | true =>
        have hwithin : (Command.toggle id).within keep switch = .toggle id := by
          simp [Command.within, hkeep]
        have hswitch' : isSwitch part.instances id = true := by
          rw [hinstances, isSwitch_restrictAll, hswitches, hkeep, hswitch, Bool.and_self]
        rw [hkeep, if_pos rfl] at htoggled
        rw [hwithin, netlist?_toggle, hswitch', if_pos rfl, if_pos rfl, ← htoggled]
        rfl
      | false =>
        have hwithin : (Command.toggle id).within keep switch = .settle := by
          simp [Command.within, hswitch, hkeep]
        rw [hkeep, if_neg Bool.false_ne_true] at htoggled
        rw [hwithin, if_pos rfl, Option.map_some, htoggled]
        rfl

/-- **One operation more.** -/
theorem Simulator.Confines.exec (h : whole.Confines keep switch part) {c : Command}
    (hc : c.stimulates = true) (hconverged : (c.exec whole).convergedLast = true) :
    (c.exec whole).Confines keep switch ((c.within keep switch).exec part) := by
  have hlaid := netlist?_within (congrArg Netlist.instances h.netlist) h.switches hc
  cases hn : c.netlist? whole with
  | none =>
    rw [hn] at hlaid
    obtain ⟨issues, heq⟩ := exec_of_stimulates_none hc hn
    obtain ⟨issues', heq'⟩ := exec_of_stimulates_none (stimulates_within hc) hlaid
    rw [heq, heq']
    exact ⟨h.catalog, h.options, h.netlist, h.closed, h.plain, h.rest, h.switches, h.settled⟩
  | some n =>
    obtain ⟨hblank, hwires⟩ := Command.netlist?_shape (rebuilds_of_stimulates hc) hn
    have hplain := (lasting_plain whole.catalog).netlist? (restores_of_stimulates hc) hn h.plain
    have hwires' : part.wires = restrictWires keep n.wires :=
      (congrArg Netlist.wires h.netlist).trans (congrArg (restrictWires keep) hwires.symm)
    rw [hn, Option.map_some, hwires'] at hlaid
    refine confines_of_netlist? h.catalog h.options hn hlaid ?_ hplain (fun id => ?_) hconverged
    · rw [map_id_of_blankAll hblank, hwires]
      exact h.closed
    · rw [isSwitch_of_blankAll hblank, h.switches]

/-- **The part follows the whole**, as long as the whole settles. -/
theorem Simulator.Confines.run (h : whole.Confines keep switch part) {commands : List Command}
    (hc : ∀ c ∈ commands, c.stimulates = true) (hconverges : whole.converges commands = true) :
    (whole.run commands).Confines keep switch
      (part.run (commands.map (Command.within keep switch))) :=
  run_related (fun h hc hconverged => h.exec hc hconverged) commands h hc hconverges

end Confines

/-! ## Toggles outside -/

/-- **A toggle outside leaves everything that is kept alone**, if the circuit was at rest. -/
theorem exec_toggle_outside {sim : Simulator} (hrest : sim.top.AtRest sim.catalog)
    (hclosed : UpstreamClosed keep (sim.instances.map Instance.id) sim.wires) {id : String}
    (hkeep : keep id = false) :
    restrictAll keep ((Command.toggle id).exec sim).instances = restrictAll keep sim.instances := by
  cases hi : (sim.instance? id).filter Instance.isInput with
  | none =>
    rw [exec_toggle_of_none hi]
    rfl
  | some i =>
    have hids := map_id_of_blankAll (blankAll_toggleInput sim.instances id)
    have hsame :
        restrictAll keep (toggleInput sim.instances id) = restrictAll keep sim.instances := by
      rw [restrictAll_toggleInput, hkeep, if_neg Bool.false_ne_true]
    have hkept : Scope.AtRest sim.catalog ⟨restrictAll keep (toggleInput sim.instances id),
        restrictWires keep sim.wires, ∅⟩ := by
      rw [hsame]
      exact Scope.AtRest.restrict hrest hclosed
    rw [instances_of_netlist? (netlist?_toggle_of_some hi)]
    exact (restrictAll_settleFrom (hids.symm ▸ hclosed) hkept 0 _).trans hsame

/-- Two scopes with the same ids that are the same where they are kept have the same instances on
kept seats. -/
theorem getElem?_of_restrictAll {scope : List Instance} : ∀ {scope' : List Instance},
    scope.map Instance.id = scope'.map Instance.id →
      restrictAll keep scope = restrictAll keep scope' → ∀ {k : Nat} {i : Instance},
        scope[k]? = some i → keep i.id = true → scope'[k]? = some i := by
  induction scope with
  | nil =>
    intro scope' _ _ k i hi _
    exact absurd hi (by simp)
  | cons i rest ih =>
    intro scope' hids hsame k j hj hkeep
    cases scope' with
    | nil => exact absurd hids (by simp)
    | cons i' rest' =>
      rw [List.map_cons, List.map_cons, List.cons.injEq] at hids
      cases hown : keep i.id with
      | true =>
        rw [restrictAll_cons_of_keep hown, restrictAll_cons_of_keep (hids.1 ▸ hown),
          List.cons.injEq] at hsame
        cases k with
        | zero =>
          cases hj
          rw [hsame.1]
          rfl
        | succ k => exact ih hids.2 hsame.2 hj hkeep
      | false =>
        rw [restrictAll_cons_of_not_keep hown,
          restrictAll_cons_of_not_keep (hids.1 ▸ hown)] at hsame
        cases k with
        | zero =>
          cases hj
          exact absurd (hown.symm.trans hkeep) Bool.false_ne_true
        | succ k => exact ih hids.2 hsame hj hkeep

/-! ## The theorem -/

/-- A simulator that holds new chips for the parts, and has not settled yet. -/
def Simulator.fresh (catalog : Catalog) (options : SimOptions) (parts : List Part)
    (wires : List Wire) : Simulator :=
  { catalog, options, netlist := ⟨parts.map (Instance.fresh catalog), wires⟩ }

/-- **Loading a program is settling new chips** for its parts, their types in upper case and the
switches in the order of the pins they feed. -/
theorem exists_fresh_of_program? {c : Command} {p : Program} (sim : Simulator)
    (hc : c.program? = some p) :
    ∃ parts : List Part, parts.Perm (p.parts.map Part.fold) ∧
      let fresh :=
        Simulator.fresh sim.catalog sim.options parts (Netlist.ofProgram sim.catalog p).wires
      (c.exec sim).netlist = (Command.settle.exec fresh).netlist ∧
        (c.exec sim).lastReport = (Command.settle.exec fresh).lastReport := by
  refine ⟨(Netlist.ofProgram sim.catalog p).instances.map Instance.part, ?_, ?_⟩
  · have hparts := (ofProgram_perm sim.catalog p).map Instance.part
    rwa [List.map_map] at hparts
  · intro fresh
    have hlaid : Command.settle.netlist? fresh = some (Netlist.ofProgram sim.catalog p) := by
      change some (Netlist.mk (List.map _ (List.map _ _)) _) = _
      rw [map_fresh_parts]
    obtain ⟨hnetlist, hreport⟩ := exec_of_netlist? (netlist?_of_program? sim hc)
    obtain ⟨hnetlist', hreport'⟩ := exec_of_netlist? hlaid
    exact ⟨hnetlist.trans hnetlist'.symm, hreport.trans hreport'.symm⟩

/-- Some wire leads from the one id to the other. -/
def Leads (wires : List Wire) (source target : String) : Prop :=
  ∃ wire ∈ wires, wire.source = source ∧ wire.target = target

/-- **The first settling** of new chips, all of them and those that are kept. -/
theorem confines_fresh {options : SimOptions} {parts : List Part}
    (hclosed : UpstreamClosed keep (parts.map Part.id) wires)
    (hconverged : (Command.settle.exec (.fresh catalog options parts wires)).convergedLast = true) :
    (Command.settle.exec (.fresh catalog options parts wires)).Confines keep
      (isSwitch (parts.map (Instance.fresh catalog)))
      (Command.settle.exec (.fresh catalog options (parts.filter fun part => keep part.id)
        (restrictWires keep wires))) := by
  have hlaid : Command.settle.netlist? (.fresh catalog options (parts.filter fun part =>
      keep part.id) (restrictWires keep wires)) =
        some (Netlist.restrict keep ⟨parts.map (Instance.fresh catalog), wires⟩) :=
    congrArg (fun l => some (Netlist.mk l (restrictWires keep wires)))
      (restrictAll_fresh catalog keep parts).symm
  refine confines_of_netlist? ?_ ?_ rfl hlaid ?_ (throughout_plain_fresh catalog parts)
    (fun _ => rfl) hconverged
  · rfl
  · rfl
  · exact (map_id_fresh catalog parts).symm ▸ hclosed

/-- **A part that depends on nothing else evolves on its own.** Take new chips for some parts, and a
selection of them such that no wire leads from one that is left out to one that is kept. Run the
whole, and the kept ones with only the wires into them, by toggles, clock edges and settlings, where
toggles of switches that are left out only settle the kept ones. As long as the whole settles, the
kept ones settle in at most as many passes, and are the same in both after each operation. So a
toggle changes no instance but those that its switch leads to through wires. -/
theorem closed_part_evolves_alone (catalog : Catalog) (options : SimOptions) (parts : List Part)
    (wires : List Wire) (commands : List Command)
    (hcommands : ∀ c ∈ commands, c.stimulates = true)
    (hconverges : (Simulator.fresh catalog options parts wires).converges (.settle :: commands) =
      true) :
    (∀ keep, UpstreamClosed keep (parts.map Part.id) wires → ∀ n,
      let switch := isSwitch (parts.map (Instance.fresh catalog))
      let whole := (Simulator.fresh catalog options parts wires).run (.settle :: commands.take n)
      let part := (Simulator.fresh catalog options (parts.filter fun part => keep part.id)
        (restrictWires keep wires)).run
          (.settle :: (commands.take n).map (Command.within keep switch))
      part.instances = restrictAll keep whole.instances ∧ SettledNoLater whole part) ∧
    ∀ (x : String) (k : Nat) (i : Instance), ((Simulator.fresh catalog options parts wires).run
        (.settle :: commands)).instances[k]? = some i →
      ¬Relation.ReflTransGen (Leads wires) x i.id →
        ((Simulator.fresh catalog options parts wires).run
          (.settle :: commands ++ [.toggle x])).instances[k]? = some i := by
  rw [Simulator.converges, Bool.and_eq_true] at hconverges
  have hfollow : ∀ {keep : String → Bool}, UpstreamClosed keep (parts.map Part.id) wires →
      ∀ n, ((Simulator.fresh catalog options parts wires).run
        (.settle :: commands.take n)).Confines keep (isSwitch (parts.map (Instance.fresh catalog)))
          ((Simulator.fresh catalog options (parts.filter fun part => keep part.id)
            (restrictWires keep wires)).run (.settle :: (commands.take n).map
              (Command.within keep (isSwitch (parts.map (Instance.fresh catalog)))))) := by
    intro keep hclosed n
    refine (confines_fresh hclosed hconverges.1).run (fun c hc => ?_) ?_
    · exact hcommands c (List.mem_of_mem_take hc)
    · exact converges_take commands n hconverges.2
  refine ⟨fun keep hclosed n => ?_, fun x k i hi hout => ?_⟩
  · have h := hfollow hclosed n
    exact ⟨congrArg Netlist.instances h.netlist, h.settled⟩
  · classical
    -- what the switch does not lead to depends on nothing that it leads to
    let keep : String → Bool := fun id => decide (¬Relation.ReflTransGen (Leads wires) x id)
    have hclosed : UpstreamClosed keep (parts.map Part.id) wires := by
      intro wire hw hkeep _
      have htarget : ¬Relation.ReflTransGen (Leads wires) x wire.target := of_decide_eq_true hkeep
      exact decide_eq_true fun hsource => htarget (hsource.tail ⟨wire, hw, rfl, rfl⟩)
    have h := hfollow hclosed commands.length
    rw [List.take_length] at h
    have hkeep : keep x = false := by simpa [keep] using Relation.ReflTransGen.refl
    have hsame := exec_toggle_outside h.rest h.closed hkeep
    have hids := map_id_of_blankAll (blankAll_exec
      ((Simulator.fresh catalog options parts wires).run (.settle :: commands)) (c := .toggle x)
      rfl).1
    rw [run_concat]
    exact getElem?_of_restrictAll hids.symm hsame.symm hi (decide_eq_true hout)

/-- A flip-flop that takes its own negation, and an exclusive or of it and a switch. -/
def dividerParts : List Part :=
  [⟨"d", "DFF", none⟩, ⟨"n", "NOT", none⟩, ⟨"b", "INPUT", none⟩, ⟨"x", "XOR", none⟩]

def dividerWires : List Wire :=
  [{ source := "d", target := "n" }, { source := "n", target := "d" },
    { source := "d", target := "x" }, { source := "b", target := "x" }]

/-- The flip-flop and its negation evolve on their own, in fewer passes than the whole: the switch
reaches neither. -/
theorem closed_part_evolves_alone_divider :
    let whole := (Simulator.fresh Standard.catalog {} dividerParts dividerWires).run
      [.settle, .tick, .toggle "b"]
    let part := (Simulator.fresh Standard.catalog {} [⟨"d", "DFF", none⟩, ⟨"n", "NOT", none⟩]
      [{ source := "d", target := "n" }, { source := "n", target := "d" }]).run
        [.settle, .tick, .settle]
    whole.instances.map (fun i => (i.id, i.value)) =
        [("d", true), ("n", false), ("b", true), ("x", false)] ∧
      whole.lastReport = some ⟨2, true⟩ ∧ part.lastReport = some ⟨1, true⟩ ∧
      part.instances = restrictAll (fun id => id == "d" || id == "n") whole.instances ∧
      SettledNoLater whole part ∧
      ∀ i, whole.instances[1]? = some i → (whole.run [.toggle "b"]).instances[1]? = some i := by
  intro whole part
  have hconverges : (Simulator.fresh Standard.catalog {} dividerParts dividerWires).converges
      [.settle, .tick, .toggle "b"] = true := by decide +kernel
  have hclosed : UpstreamClosed (fun id => id == "d" || id == "n") (dividerParts.map Part.id)
      dividerWires := by unfold UpstreamClosed; decide
  obtain ⟨hparts, houtside⟩ := closed_part_evolves_alone Standard.catalog {} dividerParts
    dividerWires [.tick, .toggle "b"] (by decide) hconverges
  have hswitch : isSwitch (dividerParts.map (Instance.fresh Standard.catalog)) "b" = true := by
    decide +kernel
  have hwithin : [Command.tick, .toggle "b"].map (Command.within
      (fun id => id == "d" || id == "n")
      (isSwitch (dividerParts.map (Instance.fresh Standard.catalog)))) = [.tick, .settle] := by
    simp [Command.within, hswitch]
  have hown := hparts _ hclosed 2
  rw [List.take_of_length_le (by simp)] at hown
  simp only [hwithin] at hown
  -- the switch leads to itself and to the exclusive or
  have hreach : ∀ id, Relation.ReflTransGen (Leads dividerWires) "b" id → id = "b" ∨ id = "x" := by
    intro id h
    induction h with
    | refl => exact Or.inl rfl
    | tail _ hstep ih =>
      obtain ⟨wire, hw, rfl, rfl⟩ := hstep
      simp only [dividerWires, List.mem_cons, List.not_mem_nil, or_false] at hw
      rcases hw with rfl | rfl | rfl | rfl <;> simp_all
  have hid : whole.instances[1]?.map Instance.id = some "n" := by decide +kernel
  refine ⟨by decide +kernel, by decide +kernel, by decide +kernel, hown.1, hown.2, fun i hi => ?_⟩
  refine houtside "b" 1 i hi fun h => ?_
  rw [hi, Option.map_some, Option.some.injEq] at hid
  rw [hid] at h
  exact absurd (hreach "n" h) (by decide)

end Breadboard
