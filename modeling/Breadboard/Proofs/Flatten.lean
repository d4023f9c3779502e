import Breadboard.Proofs.InlineLevel

/-!
# Composites mean their blueprint

A circuit with a composite and the circuit in which the composite has given way to its parts behave
alike. Their passes do not line up, since a bit needs no pass to cross a border that is gone. But
toggles and clock edges commute with inlining, the inlined state of a circuit at rest is at rest,
and there is but one such state: so after every settling that converges the two circuits agree.

* `Inlining.Matches`: the netlist in some state, and the inlined netlist in the same state;
* `Inlining.Matches.settle`, `.toggle`, `.commit`: what settles, toggles or clocks both keeps it;
* `Inlining.Follows.exec`, `Inlining.Follows.run`: one operation, and a run of them;
* **`composite_means_blueprint`**: chip by chip and part by part, the two circuits agree.
-/

namespace Breadboard

variable {catalog : Catalog}

/-! ## States of the two netlists -/

theorem descendants_renamed (naming : String → String) (i : Instance) :
    (i.renamed naming).descendants = i.descendants := by
  obtain ⟨part, expanded, s, body⟩ := i
  change Instance.descendants ⟨part.renamed naming, expanded, s, body⟩ = _
  cases body with
  | composite parts wires => rw [Instance.descendants, Instance.descendants]
  | unknown | primitive => rfl

/-- **Inlining leaves plain instances plain**, at every depth. -/
theorem throughout_plain_inlineAll {scope : List Instance} (naming : String → String) (id : String)
    (h : Throughout (Instance.Plain catalog) scope) :
    Throughout (Instance.Plain catalog) (inlineAll naming id scope) := by
  refine throughout_iff.2 fun i hi => ?_
  unfold inlineAll at hi
  rcases List.mem_append.1 hi with hi | hi
  · exact throughout_iff.1 h i (List.mem_filter.1 hi).1
  · obtain ⟨k, hk, rfl⟩ := List.mem_map.1 hi
    unfold partsOf at hk
    split at hk
    · rename_i c hfound
      obtain ⟨part, expanded, s, body⟩ := c
      have hc := throughout_iff.1 h _ (mem_of_findInstance? hfound).1
      cases body with
      | composite parts inner =>
        obtain ⟨hown, hinside⟩ := throughout_iff.1 (Instance.throughout_composite.1 hc).2 k hk
        refine ⟨hown, ?_⟩
        rw [descendants_renamed]
        exact hinside
      | unknown | primitive => exact absurd hk List.not_mem_nil
    · exact absurd hk List.not_mem_nil

namespace Inlining

variable {x : Inlining catalog} {n m : Netlist}

/-- The inlined netlist, in the state that the netlist is in. -/
def inlined (x : Inlining catalog) (n : Netlist) : Netlist :=
  ⟨inlineAll x.naming x.site.id n.instances, x.inlinedWires⟩

/-- `n` is the netlist in some state, and `m` the inlined netlist in the same state, but for the
order of its chips and for what a pass computes. -/
structure Matches (x : Inlining catalog) (n m : Netlist) : Prop where
  wires : n.wires = x.wires
  shape : blankAll n.instances = blankAll x.before.instances
  acyclic : n.top.AcyclicInside
  plain : Throughout (Instance.Plain catalog) n.instances
  alike : Netlist.Alike catalog (x.inlined n) m

theorem layered (hcatalog : catalog.NoCycle) (hwires : n.wires = x.wires)
    (hshape : blankAll n.instances = blankAll x.before.instances) (hacyclic : n.top.AcyclicInside) :
    ∃ s parts, x.Layered n.instances s parts := by
  obtain ⟨s, parts, hopens⟩ := x.opens hcatalog hshape
  unfold Netlist.top at hacyclic
  rw [hwires] at hacyclic
  exact ⟨s, parts, hopens, hacyclic⟩

theorem Matches.layered (h : x.Matches n m) (hcatalog : catalog.NoCycle) :
    ∃ s parts, x.Layered n.instances s parts :=
  Inlining.layered hcatalog h.wires h.shape h.acyclic

/-- What leaves the shape alone needs to be told of the inlined netlist only. -/
theorem Matches.of_blankAll (h : x.Matches n m) {n' m' : Netlist}
    (hblank : blankAll n'.instances = blankAll n.instances) (hwires : n'.wires = n.wires)
    (hplain : Throughout (Instance.Plain catalog) n'.instances)
    (halike : Netlist.Alike catalog (x.inlined n') m') : x.Matches n' m' where
  wires := hwires.trans h.wires
  shape := hblank.trans h.shape
  acyclic := h.acyclic.of_blankAll hblank.symm hwires.symm
  plain := hplain
  alike := halike

/-- The inlined state of a netlist at rest is at rest. -/
theorem Matches.inlined_atRest (h : x.Matches n m) (hcatalog : catalog.NoCycle)
    (hrest : n.top.AtRest catalog) : (x.inlined n).top.AtRest catalog := by
  obtain ⟨s, parts, hlayered⟩ := h.layered hcatalog
  unfold Netlist.top at hrest
  rw [h.wires] at hrest
  exact Resting.inlined ⟨hlayered.toOpens, hrest, h.plain, hlayered.apart⟩

/-- **Settling both** preserves it. -/
theorem Matches.settle (h : x.Matches n m) (limit limit' : Nat) :
    x.Matches ⟨(Breadboard.settle catalog n.wires limit n.instances).1, n.wires⟩
      ⟨(Breadboard.settle catalog m.wires limit' m.instances).1, m.wires⟩ := by
  have hkept : keptAll (Breadboard.settle catalog n.wires limit n.instances).1 =
      keptAll n.instances := keptAll_settle limit n.instances
  have hplain : Throughout (Instance.Plain catalog)
      (Breadboard.settle catalog n.wires limit n.instances).1 :=
    throughout_plain_settle limit h.plain
  refine h.of_blankAll (blankAll_of_keptAll hkept) rfl hplain ?_
  refine h.alike.of_kept ?_ (keptAll_settle limit' m.instances) rfl rfl
    (throughout_plain_inlineAll _ _ hplain) (throughout_plain_settle limit' h.alike.plain')
  unfold inlined
  rw [keptAll_inlineAll, keptAll_inlineAll, hkept]

/-- **A toggle of both** preserves it, if it names no part of the composite. -/
theorem Matches.toggle (h : x.Matches n m) (hcatalog : catalog.NoCycle) {id : String}
    (hnew : ∀ k, id ≠ x.naming k) :
    x.Matches ⟨toggleInput n.instances id, n.wires⟩ ⟨toggleInput m.instances id, m.wires⟩ := by
  obtain ⟨s, parts, hlayered⟩ := h.layered hcatalog
  refine h.of_blankAll (blankAll_toggleInput n.instances id) rfl
    (throughout_plain_toggleInput id h.plain) ?_
  have hcommutes := toggleInput_inlineAll hlayered.nodup hlayered.nodup_inlineAll hnew
    hlayered.isInput_site
  unfold inlined
  rw [← hcommutes]
  exact h.alike.toggle id

/-- **A clock edge of both** preserves it, if both are at rest. -/
theorem Matches.commit (h : x.Matches n m) (hcatalog : catalog.NoCycle)
    (hrest : n.top.AtRest catalog) (hrest' : m.top.AtRest catalog) :
    x.Matches ⟨(commitAll n.instances).1, n.wires⟩ ⟨(commitAll m.instances).1, m.wires⟩ := by
  refine h.of_blankAll (blankAll_commitAll n.instances) rfl
    (throughout_commitAll plain_commit h.plain) ?_
  unfold inlined
  rw [← commitAll_inlineAll]
  exact h.alike.commit (h.inlined_atRest hcatalog hrest) hrest'

/-- Whether an id finds a switch is the same in both, if it names no part of the composite. -/
theorem Matches.findSwitch (h : x.Matches n m) (hcatalog : catalog.NoCycle) {id : String}
    (hnew : ∀ k, id ≠ x.naming k) :
    ((findInstance? n.instances id).filter Instance.isInput).isSome =
      ((findInstance? m.instances id).filter Instance.isInput).isSome := by
  obtain ⟨s, parts, hlayered⟩ := h.layered hcatalog
  rw [← h.alike.findSwitch id]
  unfold inlined
  by_cases hsite : id = x.site.id
  · subst hsite
    obtain ⟨expanded, hfound⟩ := hlayered.found
    rw [findInstance?_inlineAll_site hnew, hfound, Option.filter_some,
      hlayered.isInput_site _ hfound]
    rfl
  · rw [findInstance?_inlineAll hsite hnew]

/-! ## The first state -/

/-- The same netlist with its chips in another order. -/
def reordered (x : Inlining catalog) {parts : List Part} (h : parts.Perm x.parts) :
    Inlining catalog :=
  { x with
    parts
    nodup := (h.map Part.id).nodup_iff.2 x.nodup
    site_mem := h.mem_iff.2 x.site_mem
    naming_fresh := fun id hm => x.naming_fresh id ((h.map Part.id).mem_iff.1 hm)
    nowhere_fresh := fun hm => x.nowhere_fresh ((h.map Part.id).mem_iff.1 hm) }

/-- **The fresh netlist matches the fresh inlined netlist.** -/
theorem matches_of_fresh (hcatalog : catalog.NoCycle)
    (hn : n.instances = x.before.instances) (hwires : n.wires = x.wires)
    (hacyclic : n.top.AcyclicInside) (hm : m.instances.Perm x.after.instances)
    (hwires' : ∀ target, (x.inlinedWires.filter fun wire => wire.target == target) =
      m.wires.filter fun wire => wire.target == target) : x.Matches n m := by
  have hshape : blankAll n.instances = blankAll x.before.instances := by rw [hn]
  obtain ⟨s, parts, hlayered⟩ := Inlining.layered hcatalog hwires hshape hacyclic
  have hplain : Throughout (Instance.Plain catalog) n.instances := by
    rw [hn]
    exact throughout_plain_fresh catalog x.parts
  have hafter : (x.inlined n).instances = x.after.instances := by
    unfold inlined
    rw [hn]
    exact inlineAll_before hcatalog
  refine ⟨hwires, hshape, hacyclic, hplain, ?_⟩
  constructor
  · exact hlayered.nodup_inlineAll
  · rw [hafter, keptAll_eq_map, keptAll_eq_map]
    exact hm.map Instance.kept
  · exact hwires'
  · exact hlayered.acyclicInside
  · exact throughout_plain_inlineAll _ _ hplain
  · exact (throughout_plain_fresh catalog x.inlinedParts).perm hm

/-! ## Runs -/

/-- Every other chip agrees with the chip of its id, and every part of the composite, renamed, with
the chip of its new id. The composite itself is gone. -/
def Reflects (x : Inlining catalog) (a b : Simulator) : Prop :=
  (∀ id, id ≠ x.site.id → (∀ k, id ≠ x.naming k) →
    Option.Rel (fun i j => i.agree j = true) (a.instance? id) (b.instance? id)) ∧
  (∀ id, Option.Rel (fun i j => i.agree j = true)
    ((findInstance? (partsOf a.instances x.site.id) id).map (Instance.renamed x.naming))
    (b.instance? (x.naming id))) ∧
  b.instance? x.site.id = none

/-- `b` holds the circuit of `a` with the composite inlined, and both circuits are at rest. -/
structure Follows (x : Inlining catalog) (a b : Simulator) : Prop where
  catalog_eq : a.catalog = catalog
  catalog_eq' : b.catalog = catalog
  netlists : x.Matches a.netlist b.netlist
  rest : a.top.AtRest catalog
  rest' : b.top.AtRest catalog

variable {a b : Simulator}

theorem Follows.reflects (h : x.Follows a b) (hcatalog : catalog.NoCycle) : x.Reflects a b := by
  obtain ⟨s, parts, hlayered⟩ := h.netlists.layered hcatalog
  have hrel := h.netlists.alike.find_rel (h.netlists.inlined_atRest hcatalog h.rest) h.rest'
  unfold inlined at hrel
  refine ⟨fun id hsite hnew => ?_, fun id => ?_, ?_⟩
  · have hother := hrel id
    rw [findInstance?_inlineAll hsite hnew] at hother
    exact hother
  · have hpart := hrel (x.naming id)
    rw [findInstance?_inlineAll_naming x.naming_injective (hlayered.fresh id)] at hpart
    exact hpart
  · have hgone := hrel x.site.id
    rw [findInstance?_inlineAll_site hlayered.site_ne_naming] at hgone
    change Option.Rel _ _ (b.instance? x.site.id) at hgone
    cases hj : b.instance? x.site.id with
    | none => rfl
    | some j =>
      rw [hj] at hgone
      cases hgone

/-- **Two settlings from matching netlists** that converge. -/
theorem follows_of_netlist? (ha : a.catalog = catalog) (hb : b.catalog = catalog) {c d : Command}
    (hc : c.netlist? a = some n) (hd : d.netlist? b = some m) (h : x.Matches n m)
    (hconverged : (c.exec a).convergedLast = true)
    (hconverged' : (d.exec b).convergedLast = true) : x.Follows (c.exec a) (d.exec b) := by
  have hrest := atRest_of_convergedLast hc (ha ▸ h.plain) hconverged
  have hrest' := atRest_of_convergedLast hd (hb ▸ h.alike.plain') hconverged'
  have hsettle := h.settle a.options.maxPasses.toNat b.options.maxPasses.toNat
  constructor
  · exact (exec_catalog a c).1.trans ha
  · exact (exec_catalog b d).1.trans hb
  · rw [(exec_of_netlist? hc).1, (exec_of_netlist? hd).1]
    unfold Simulator.settled
    rw [ha, hb]
    exact hsettle
  · exact ha ▸ hrest
  · exact hb ▸ hrest'

/-- **One operation more**: a toggle that names no part of the composite, a clock edge or a
settling, as long as both settlings converge. -/
theorem Follows.exec (h : x.Follows a b) (hcatalog : catalog.NoCycle) {c : Command}
    (hc : c.stimulates = true) (hnew : ∀ k, c ≠ .toggle (x.naming k))
    (hconverged : (c.exec a).convergedLast = true)
    (hconverged' : (c.exec b).convergedLast = true) : x.Follows (c.exec a) (c.exec b) := by
  cases c with
  | assemble | assembleProgram | expand | restore => exact absurd hc (by simp [Command.stimulates])
  | settle =>
    exact follows_of_netlist? h.catalog_eq h.catalog_eq' rfl rfl h.netlists hconverged hconverged'
  | tick =>
    exact follows_of_netlist? h.catalog_eq h.catalog_eq' rfl rfl
      (h.netlists.commit hcatalog h.rest h.rest') hconverged hconverged'
  | toggle id =>
    have hid : ∀ k, id ≠ x.naming k := fun k hk => hnew k (congrArg Command.toggle hk)
    rcases toggle_cases (h.netlists.findSwitch hcatalog hid) with ⟨ha, hb⟩ | ⟨ha, hb⟩
    · rw [ha, hb]
      exact ⟨h.catalog_eq, h.catalog_eq', h.netlists, h.rest, h.rest'⟩
    · exact follows_of_netlist? h.catalog_eq h.catalog_eq' ha hb (h.netlists.toggle hcatalog hid)
        hconverged hconverged'

/-- **A run of operations.** -/
theorem Follows.run (hcatalog : catalog.NoCycle) (commands : List Command) :
    ∀ {a b : Simulator}, x.Follows a b →
      (∀ c ∈ commands, c.stimulates = true ∧ ∀ k, c ≠ .toggle (x.naming k)) →
      a.converges commands = true → b.converges commands = true →
        x.Follows (a.run commands) (b.run commands) := by
  induction commands with
  | nil => exact fun h _ _ _ => h
  | cons c rest ih =>
    intro a b h hc hconverges hconverges'
    rw [Simulator.converges, Bool.and_eq_true] at hconverges hconverges'
    obtain ⟨hstimulates, hnew⟩ := hc c List.mem_cons_self
    have hstep := h.exec hcatalog hstimulates hnew hconverges.1 hconverges'.1
    exact ih hstep (fun d hd => hc d (List.mem_cons_of_mem c hd)) hconverges.2 hconverges'.2

end Inlining

/-- **Composites mean their blueprint.** Take a catalog without cyclic definitions and an acyclic
netlist without double ids, and lay out beside it the netlist in which a composite has given way to
its parts, with the same wires into each chip. After every operation of the same run, as long as
every settling converges in both, all chips around the composite agree with the chips of their ids,
and all parts inside it with the chips of their new ids. -/
theorem composite_means_blueprint (catalog : Catalog) (hcatalog : catalog.NoCycle)
    (x : Inlining catalog) (a b : Simulator) (ha : a.catalog = catalog) (hb : b.catalog = catalog)
    (c d : Command) (n m : Netlist) (hc : c.netlist? a = some n) (hd : d.netlist? b = some m)
    (hn : n.instances.Perm x.before.instances) (hwires : n.wires = x.before.wires)
    (hacyclic : ∀ s, n.top.Holds s → s.Acyclic)
    (hm : m.instances.Perm x.after.instances)
    (hwires' : ∀ target, (m.wires.filter fun wire => wire.target == target) =
      x.after.wires.filter fun wire => wire.target == target)
    (commands : List Command)
    (hcommands : ∀ e ∈ commands, e.stimulates = true ∧ ∀ k, e ≠ .toggle (x.naming k))
    (hconverges : a.converges (c :: commands) = true)
    (hconverges' : b.converges (d :: commands) = true) :
    ∀ k, x.Reflects (a.run (c :: commands.take k)) (b.run (d :: commands.take k)) := by
  intro k
  rw [Simulator.converges, Bool.and_eq_true] at hconverges hconverges'
  -- the chips in the order in which they were laid out
  have hcomp : Relation.Comp (fun l l' => l = l'.map (Instance.fresh catalog)) List.Perm
      n.instances x.parts := by
    rw [List.eq_map_comp_perm]
    exact hn
  obtain ⟨parts, hparts, hperm⟩ := hcomp
  have hafter : (x.reordered hperm).after.instances.Perm x.after.instances :=
    ((hperm.filter _).append_right _).map _
  have hmatches : (x.reordered hperm).Matches n m :=
    Inlining.matches_of_fresh hcatalog hparts hwires hacyclic (hm.trans hafter.symm)
      fun target => (hwires' target).symm
  have hstart := Inlining.follows_of_netlist? ha hb hc hd hmatches hconverges.1 hconverges'.1
  have hrun := hstart.run hcatalog (commands.take k)
    (fun e he => hcommands e (List.mem_of_mem_take he))
    (converges_take commands k hconverges.2) (converges_take commands k hconverges'.2)
  exact hrun.reflects hcatalog

/-! ## A latch with its parts laid open -/

/-- The composites of the standard catalog have parts of earlier types only. -/
theorem standard_noCycle : Standard.catalog.NoCycle := by
  refine noCycle_of_rank Standard.catalog.names.idxOf fun chip inner h => ?_
  obtain ⟨d, part, hget, hpart, rfl⟩ := h
  have hall : ∀ e ∈ Standard.catalog.chips.entries, (e.2.composite?.all fun d =>
      d.parts.all fun part => decide (Standard.catalog.names.idxOf part.chip <
        Standard.catalog.names.idxOf e.1)) = true := by decide +kernel
  have hd := hall _ (NameMap.get?_eq_some_iff.1 hget)
  simp only [ChipType.composite?, Option.all_some, List.all_eq_true, decide_eq_true_eq] at hd
  exact hd part hpart

/-- A one-bit register with its switches, read through its output pin. -/
def latch : Program :=
  ⟨[.part ⟨"in", "INPUT", none⟩, .part ⟨"load", "INPUT", none⟩, .part ⟨"b", "BIT", none⟩,
    .part ⟨"o", "NOT", none⟩, .wire ⟨"in", "b", .ambiguous "In"⟩,
    .wire ⟨"load", "b", .ambiguous "Load"⟩, .wire ⟨"b", "o", .ambiguous "Out"⟩]⟩

/-- The latch with the parts of the register at the top. -/
def openLatch : Program :=
  ⟨[.part ⟨"in", "INPUT", none⟩, .part ⟨"load", "INPUT", none⟩, .part ⟨"o", "NOT", none⟩,
    .part (Standard.place "b/mux" "MUX" 50 50), .part (Standard.place "b/dff" "DFF" 200 50),
    .wire ⟨"b/dff", "o", .implicit⟩, .wire ⟨"b/dff", "b/mux", .ambiguous "A"⟩,
    .wire ⟨"in", "b/mux", .ambiguous "B"⟩, .wire ⟨"load", "b/mux", .ambiguous "Sel"⟩,
    .wire ⟨"b/mux", "b/dff", .ambiguous "In"⟩]⟩

theorem ne_append_of_not_isPrefixOf {s start : String}
    (h : start.toList.isPrefixOf s.toList = false) (id : String) : s ≠ start ++ id := by
  rintro rfl
  rw [String.toList_append] at h
  rw [List.isPrefixOf_iff_prefix.2 (List.prefix_append _ _)] at h
  cases h

/-- The register of the latch, and where it is inlined. -/
def latchInlining : Inlining Standard.catalog where
  parts := latch.parts
  wires := (Netlist.ofProgram Standard.catalog latch).wires
  site := ⟨"b", "BIT", none⟩
  blueprint := Standard.bit
  naming := fun id => "b/" ++ id
  nowhere := "?"
  nodup := by decide
  site_mem := by decide
  site_ne_input := by decide +kernel
  defined := by decide +kernel
  blueprint_nodup := by decide
  naming_injective := fun a b h => (String.append_right_inj "b/").1 h
  naming_fresh := by
    intro id hm
    have hfresh : ∀ s ∈ latch.parts.map Part.id, "b/".toList.isPrefixOf s.toList = false := by
      decide +kernel
    exact ne_append_of_not_isPrefixOf (hfresh _ hm) id rfl
  naming_unwired := by
    intro wire hwire id
    have hfresh : ∀ wire ∈ (Netlist.ofProgram Standard.catalog latch).wires,
        "b/".toList.isPrefixOf wire.source.toList = false ∧
          "b/".toList.isPrefixOf wire.target.toList = false := by decide +kernel
    obtain ⟨hsource, htarget⟩ := hfresh wire hwire
    exact ⟨ne_append_of_not_isPrefixOf hsource id, ne_append_of_not_isPrefixOf htarget id⟩
  nowhere_fresh := by decide
  nowhere_ne_naming := ne_append_of_not_isPrefixOf (by decide +kernel)

/-- The latch takes a high bit on the clock edge, with its register closed and laid open. -/
theorem composite_means_blueprint_latch :
    let sim := Simulator.new Standard.catalog {}
    let commands : List Command := [.toggle "in", .toggle "load", .tick]
    sim.converges (.assembleProgram latch :: commands) = true ∧
      sim.converges (.assembleProgram openLatch :: commands) = true ∧
      latchInlining.Reflects (sim.run (.assembleProgram latch :: commands))
        (sim.run (.assembleProgram openLatch :: commands)) ∧
      (sim.run (.assembleProgram latch :: commands)).value? "o" = some false ∧
      (sim.run (.assembleProgram openLatch :: commands)).value? "b/dff" = some true := by
  intro sim commands
  have hconverges : sim.converges (.assembleProgram latch :: commands) = true := by decide +kernel
  have hconverges' : sim.converges (.assembleProgram openLatch :: commands) = true := by
    decide +kernel
  have hparts : openLatch.parts = latchInlining.inlinedParts := by decide +kernel
  have hwires : (Netlist.ofProgram Standard.catalog openLatch).wires =
      latchInlining.inlinedWires := by decide +kernel
  have hforward : (Netlist.ofProgram Standard.catalog latch).top.listedForward = true := by
    decide +kernel
  refine ⟨hconverges, hconverges', ?_, by decide +kernel, by decide +kernel⟩
  refine composite_means_blueprint Standard.catalog standard_noCycle latchInlining sim sim rfl rfl
    (.assembleProgram latch) (.assembleProgram openLatch) _ _ rfl rfl
    (ofProgram_perm Standard.catalog latch) rfl (acyclicInside_of_listedForward hforward) ?_ ?_
    commands ?_ hconverges hconverges' 3
  · have hperm := ofProgram_perm Standard.catalog openLatch
    rwa [hparts] at hperm
  · intro target
    exact congrArg (List.filter _) hwires
  · intro e he
    simp only [commands, List.mem_cons, List.not_mem_nil, or_false] at he
    rcases he with rfl | rfl | rfl
    · refine ⟨rfl, fun k hk => ?_⟩
      exact ne_append_of_not_isPrefixOf (by decide +kernel) k (Command.toggle.inj hk)
    · refine ⟨rfl, fun k hk => ?_⟩
      exact ne_append_of_not_isPrefixOf (by decide +kernel) k (Command.toggle.inj hk)
    · exact ⟨rfl, fun k hk => by cases hk⟩

end Breadboard
