import Breadboard.Proofs.Blueprint
import Breadboard.Proofs.Limits
import Breadboard.Proofs.Stray
import Breadboard.Proofs.Structure
import Mathlib.Algebra.Ring.Parity

/-!
# Rings of inverters

An odd number of inverters in a ring has no state at rest. A pass visits them one after the other,
so most of them may find themselves right already. But a pass that changes nothing leaves every
inverter with the opposite of what the one before it shows, all the way around, and around an odd
ring that cannot be. So every pass changes something, whatever else the circuit does.

* `InverterRing`, `Scope.HasOddRing`: such a ring, at the top or at any depth;
* `InverterRing.alternates`: what a pass that changes nothing leaves around a ring;
* `busy_of_oddRing`: every pass over a circuit with an odd ring changes something;
* **`odd_ring_never_settles`**: no operation on such a circuit settles, each says so, and the ring
  stays until the circuit is built anew.
-/

namespace Breadboard

variable {catalog : Catalog} {scope : List Instance} {wires : List Wire} {n : Nat}
  {gate : Nat → String}

/-! ## Rings -/

/-- The chips `gate 0`, …, `gate (n - 1)` are inverters in a ring: each takes its only wire from the
main output of the next one, on its input or without naming a pin, and the last one from the first.
A chip is the first instance of its id, as for every wire. -/
structure InverterRing (scope : List Instance) (wires : List Wire) (n : Nat)
    (gate : Nat → String) : Prop where
  inverter : ∀ k < n, ∃ i, findInstance? scope (gate k) = some i ∧ i.chip = "NOT"
  fed : ∀ k < n, ∃ pin, (pin = none ∨ pin = some "In") ∧
    (wires.filter fun wire => wire.target == gate k) =
      [{ source := gate (k + 1), target := gate k, targetPin := pin }]
  closed : gate n = gate 0

/-- Somewhere in the scope, at any depth, an odd number of inverters stands in a ring. -/
def Scope.HasOddRing (s : Scope) : Prop :=
  ∃ t n gate, s.Holds t ∧ Odd n ∧ InverterRing t.instances t.wires n gate

/-- Whether there is a ring is a matter of the shape. -/
theorem InverterRing.of_blankAll {scope' : List Instance} (h : InverterRing scope wires n gate)
    (hblank : blankAll scope' = blankAll scope) : InverterRing scope' wires n gate := by
  refine ⟨fun k hk => ?_, h.fed, h.closed⟩
  obtain ⟨i, hfind, hchip⟩ := h.inverter k hk
  rw [findInstance?_eq_seat] at hfind ⊢
  obtain ⟨j, hseat, hi⟩ := Option.bind_eq_some_iff.1 hfind
  obtain ⟨i', hi', hsame⟩ := getElem?_of_blankAll hblank.symm hi
  refine ⟨i', ?_, ?_⟩
  · rw [seat?_congr (map_id_of_blankAll hblank), hseat]
    exact hi'
  · have hpart : i'.part = i.part := by rw [← blank_part i', hsame, blank_part]
    exact (congrArg Part.chip hpart).trans hchip

theorem Scope.HasOddRing.of_blankAll {s s' : Scope} (h : s.HasOddRing)
    (hblank : blankAll s'.instances = blankAll s.instances) (hwires : s'.wires = s.wires) :
    s'.HasOddRing := by
  obtain ⟨t, n, gate, hst, hodd, hring⟩ := h
  obtain ⟨t', hst', hsame, hwires'⟩ := hst.of_blank hblank hwires
  exact ⟨t', n, gate, hst', hodd, hwires' ▸ hring.of_blankAll hsame⟩

/-! ## Inverters -/

/-- **A chip of a primitive type is that primitive**, at every depth of a circuit that was built
from the catalog. -/
theorem body_of_primitive {s t : Scope} (hbuilt : Built catalog s.instances) (hst : s.Holds t)
    {i : Instance} (hi : i ∈ t.instances) (hswitch : i.chip ≠ inputType) {d : Primitive}
    (hget : catalog.get? i.chip = some (.primitive d)) : i.body = .primitive d.kind := by
  -- the circuit has the shape of new chips, and there every chip is what the catalog says
  let anew : Scope := ⟨s.instances.map fun i => Instance.fresh catalog i.part, s.wires, ∅⟩
  have hblank : blankAll anew.instances = blankAll s.instances := by
    rw [blankAll_eq_map, blankAll_eq_map, List.map_map]
    exact (List.map_congr_left hbuilt).symm
  have hnew : ∀ j ∈ anew.instances, ∃ path, j.AnewBelow catalog path := by
    intro j hj
    obtain ⟨i, -, rfl⟩ := List.mem_map.1 hj
    exact ⟨[], .fresh catalog i.part⟩
  obtain ⟨t', hst', hsame, -⟩ := @Scope.Holds.of_blank _ _ hst anew hblank rfl
  obtain ⟨k, hk⟩ := List.mem_iff_getElem?.1 hi
  obtain ⟨j, hj, hij⟩ := getElem?_of_blankAll hsame.symm hk
  obtain ⟨hpart, hbody⟩ := sameStructure_of_blank hij
  obtain ⟨path, hanew⟩ := exists_anewBelow_of_holds hst' hnew j (List.mem_of_getElem? hj)
  have hchip : j.chip = i.chip := congrArg Part.chip hpart
  have hmirrors := hanew.mirrors
  unfold Instance.Mirrors at hmirrors
  simp only [hchip, if_neg hswitch, hget] at hmirrors
  rw [hmirrors] at hbody
  cases hown : i.body with
  | primitive kind =>
    rw [hown] at hbody
    exact hbody.symm
  | unknown | composite =>
    rw [hown] at hbody
    exact absurd hbody (by simp [Body.hollow])

/-- The only wire into a chip with the input `In` leads to it, if it does not say otherwise. -/
theorem lastWire?_of_single {source target : String} {pin : Option String}
    (hpin : pin = none ∨ pin = some "In")
    (h : (wires.filter fun wire => wire.target == target) =
      [{ source, target, targetPin := pin }]) :
    lastWire? (assignPins ["In"] wires target) "In" =
      some { source, target, targetPin := pin } := by
  unfold assignPins
  rw [h]
  rcases hpin with rfl | rfl <;> rfl

/-- An inverter shows the opposite of what its input was told in the last pass. -/
theorem value_pass_inverter {i : Instance} (inputs : Pins) (hbody : i.body = .primitive .not)
    (hinputs : catalog.inputsOf i.chip = ["In"]) :
    (i.pass catalog inputs).1.value = !(inputs.get? "In").getD false := by
  obtain ⟨part, expanded, s, body⟩ := i
  cases hbody
  have hbit : (s.receive inputs).bit ["In"] 0 = (inputs.get? "In").getD false :=
    congrArg (fun b => b.getD false) (NameMap.agree_iff_get?.1 (s.agree_receive inputs) "In")
  simp only [Instance.chip] at hinputs
  rw [pass_primitive, compute_gate (by simp), hinputs]
  simp only [Instance.value, Signals.drive_value, PrimitiveKind.evaluate, hbit]

/-- Every gate of a ring is there, the last one too. -/
theorem InverterRing.found (h : InverterRing scope wires n gate) {k : Nat} (hk : k < n) :
    ∃ i, findInstance? scope (gate (k + 1)) = some i := by
  by_cases hlast : k + 1 < n
  · obtain ⟨i, hfind, -⟩ := h.inverter (k + 1) hlast
    exact ⟨i, hfind⟩
  · obtain ⟨i, hfind, -⟩ := h.inverter 0 (by omega)
    have hn : k + 1 = n := by omega
    rw [hn, h.closed]
    exact ⟨i, hfind⟩

/-- A wire without a pin reads the main output of a chip that is there. -/
theorem read_eq_mainOutput {inherited : Pins} {wire : Wire} (hpin : wire.sourcePin = none)
    (h : wire.source ∈ scope.map Instance.id) :
    wire.read scope inherited = mainOutput scope wire.source := by
  unfold Wire.read mainOutput
  rw [hpin]
  cases hfind : findInstance? scope wire.source with
  | some source => rfl
  | none => exact absurd h (findInstance?_eq_none_iff.1 hfind)

/-- **Around a ring, a pass that changes nothing leaves opposites**: each inverter shows the
opposite of the one that feeds it. -/
theorem InverterRing.alternates (h : InverterRing scope wires n gate) (inherited : Pins)
    (hbody : ∀ i ∈ scope, i.chip = "NOT" → i.body = .primitive .not)
    (hinputs : catalog.inputsOf "NOT" = ["In"])
    (hquiet : (passAll catalog wires inherited scope).2 = false) {k : Nat} (hk : k < n) :
    mainOutput (passAll catalog wires inherited scope).1 (gate k) =
      !mainOutput (passAll catalog wires inherited scope).1 (gate (k + 1)) := by
  obtain ⟨i, hfind, hchip⟩ := h.inverter k hk
  obtain ⟨pin, hpin, hfed⟩ := h.fed k hk
  obtain ⟨source, hsource⟩ := h.found hk
  have hids : (passAll catalog wires inherited scope).1.map Instance.id = scope.map Instance.id :=
    map_id_passAll scope
  have hid : i.id = gate k := by simpa using List.find?_some hfind
  rw [findInstance?_eq_seat] at hfind
  obtain ⟨j, hseat, hi⟩ := Option.bind_eq_some_iff.1 hfind
  set wire : Wire := { source := gate (k + 1), target := gate k, targetPin := pin } with hwire
  -- the wire is read in the middle of the pass, but nothing changes on it until the end
  have hread : wire.read (midway scope (passAll catalog wires inherited scope).1 j) inherited =
      mainOutput (passAll catalog wires inherited scope).1 (gate (k + 1)) := by
    have hsame := (read_midway_ne_iff (s := ⟨scope, wires, inherited⟩) hquiet
      (List.getElem?_eq_some_iff.1 hi).1.le wire).not.2 fun ⟨_, _, _, _, _, _, hstray, _⟩ =>
        absurd hstray (by simp [hwire])
    rw [not_not] at hsame
    refine hsame.trans (read_eq_mainOutput rfl ?_)
    rw [hids]
    by_contra hout
    rw [findInstance?_eq_none_iff.2 hout] at hsource
    cases hsource
  have htold : (resolveInputs catalog (midway scope (passAll catalog wires inherited scope).1 j)
      wires inherited i.part).get? "In" =
        some (mainOutput (passAll catalog wires inherited scope).1 (gate (k + 1))) := by
    rw [get?_resolveInputs, show i.part.chip = "NOT" from hchip, hinputs,
      show i.part.id = gate k from hid, lastWire?_of_single hpin hfed, Option.map_some, hread]
  have hafter : findInstance? (passAll catalog wires inherited scope).1 (gate k) =
      some (i.passIn catalog wires inherited
        (midway scope (passAll catalog wires inherited scope).1 j)).1 := by
    rw [findInstance?_eq_seat, seat?_congr hids, hseat]
    exact passAll_spec hi
  have hvalue := value_pass_inverter (resolveInputs catalog
    (midway scope (passAll catalog wires inherited scope).1 j) wires inherited i.part)
    (hbody i (List.mem_of_getElem? hi) hchip) (hchip ▸ hinputs)
  rw [htold] at hvalue
  conv_lhs => rw [mainOutput, hafter]
  exact hvalue

/-- What alternates from one place to the next has opposite ends, over an odd number of places. -/
theorem ne_of_alternates {v : Nat → Bool} (h : ∀ k < n, v k = !v (k + 1)) (hodd : Odd n) :
    v n ≠ v 0 := by
  have hsame : ∀ k ≤ n, v k = (v 0 ^^ decide (Odd k)) := by
    intro k hk
    induction k with
    | zero => simp
    | succ k ih =>
      have hstep := h k (by omega)
      have hprev := ih (by omega)
      rw [hstep, Bool.not_eq_eq_eq_not] at hprev
      rw [hprev]
      by_cases hk : Odd k <;> simp [Nat.odd_add_one, hk]
  rw [hsame n (Nat.le_refl n)]
  simp [hodd]

/-- **A ring of an odd number of inverters changes in every pass.** -/
theorem InverterRing.busy (h : InverterRing scope wires n gate) (hodd : Odd n)
    (hbody : ∀ i ∈ scope, i.chip = "NOT" → i.body = .primitive .not)
    (hinputs : catalog.inputsOf "NOT" = ["In"]) (inherited : Pins) :
    (passAll catalog wires inherited scope).2 = true := by
  rw [← Bool.not_eq_false]
  intro hquiet
  have halternates : ∀ k < n, mainOutput (passAll catalog wires inherited scope).1 (gate k) =
      !mainOutput (passAll catalog wires inherited scope).1 (gate (k + 1)) :=
    fun k hk => h.alternates inherited hbody hinputs hquiet hk
  exact ne_of_alternates halternates hodd (congrArg (mainOutput _) h.closed)

/-! ## Circuits with an odd ring -/

/-- **A pass that changes something inside a scope changes the scope.** -/
theorem busy_of_holds {s t : Scope} (hst : s.Holds t)
    (h : ∀ inherited, (passAll catalog t.wires inherited t.instances).2 = true) :
    ∀ inherited, (passAll catalog s.wires inherited s.instances).2 = true := by
  induction hst with
  | refl => exact h
  | inside hi _ ih =>
    intro inherited
    rw [← Bool.not_eq_false]
    intro hquiet
    obtain ⟨k, hk⟩ := List.mem_iff_getElem?.1 hi
    have hinside := (quiet_composite.1 (quiet_iff.1 hquiet k _ hk)).2.1
    exact Bool.false_ne_true (hinside.symm.trans (ih h _))

/-- The catalog has the inverter of the standard catalog. -/
def Catalog.HasInverter (catalog : Catalog) : Prop :=
  catalog.get? "NOT" = Standard.catalog.get? "NOT"

theorem Catalog.HasInverter.get? (h : catalog.HasInverter) :
    catalog.get? "NOT" = some (.primitive ⟨.not, ["In"], [outPin]⟩) :=
  h.trans (by decide +kernel)

/-- **Every pass over a circuit with an odd ring changes something.** -/
theorem busy_of_oddRing {s : Scope} (hnot : catalog.HasInverter)
    (hbuilt : Built catalog s.instances) (h : s.HasOddRing) :
    (passAll catalog s.wires s.inherited s.instances).2 = true := by
  obtain ⟨t, n, gate, hst, hodd, hring⟩ := h
  have hinputs : catalog.inputsOf "NOT" = ["In"] := by
    unfold Catalog.inputsOf
    rw [hnot.get?]
    rfl
  refine busy_of_holds hst (hring.busy hodd (fun i hi hchip => ?_) hinputs) s.inherited
  exact body_of_primitive hbuilt hst hi (by rw [hchip]; decide) (hchip ▸ hnot.get?)

/-- **A circuit with an odd ring never settles**, and uses up every limit. -/
theorem settle_of_oddRing (hnot : catalog.HasInverter) (hbuilt : Built catalog scope)
    (h : Scope.HasOddRing ⟨scope, wires, ∅⟩) (limit : Nat) :
    (settle catalog wires limit scope).2 = ⟨max 1 limit, false⟩ := by
  have hstirs : ∀ n, Scope.stirs catalog ⟨scope, wires, ∅⟩ n = true := by
    intro n
    have hblank : blankAll (Scope.after catalog ⟨scope, wires, ∅⟩ n) = blankAll scope :=
      blankAll_of_keptAll (keptAll_after _ n)
    exact busy_of_oddRing (s := ⟨Scope.after catalog ⟨scope, wires, ∅⟩ n, wires, ∅⟩) hnot
      (hbuilt.of_blankAll hblank) (h.of_blankAll hblank rfl)
  have hsettles := settles_settle catalog wires limit scope
  have hgave : (settle catalog wires limit scope).2.converged = false := by
    rw [hsettles.converged_eq, hstirs, Bool.not_true]
  rw [← hsettles.passes_eq hgave, ← hgave]

/-! ## Simulators -/

/-- **An odd ring never settles.** Whatever was done before, restores of any snapshots included: an
operation that settles a circuit in which an odd number of the standard inverters stands in a ring,
at the top or inside a chip, reports that the circuit did not converge after as many passes as the
limit allows, and records an issue that tells this number. Such a ring stays in the circuit under
every operation that does not build the circuit anew. -/
theorem odd_ring_never_settles (catalog : Catalog) (hnot : catalog.HasInverter)
    (options : SimOptions) (commands : List Command) :
    let sim := (Simulator.new catalog options).run commands
    (∀ (c : Command) (report : SettleReport), c.report? sim = some report →
      (c.exec sim).top.HasOddRing →
        report = ⟨max 1 options.maxPasses.toNat, false⟩ ∧
        ∃ issue ∈ (c.exec sim).issues.issues, ∃ passes : UInt64,
          issue.cause = .didNotConverge passes ∧ passes.toNat = report.passes) ∧
    ∀ c : Command, c.rebuilds = false → sim.top.HasOddRing → (c.exec sim).top.HasOddRing := by
  intro sim
  obtain ⟨hcatalog, hoptions⟩ := run_catalog (Simulator.new catalog options) commands
  change sim.catalog = catalog at hcatalog
  change sim.options = options at hoptions
  have hbuilt : Built sim.catalog sim.instances := by
    rw [hcatalog]
    exact built_run commands fun i hi => absurd hi List.not_mem_nil
  refine ⟨fun c report hreport hring => ?_, fun c hc hring => ?_⟩
  · cases hlaid : c.netlist? sim with
    | none =>
      rw [report?_of_not_netlist? hlaid] at hreport
      cases hreport
    | some netlist =>
      -- the ring was there before the settling, which does not change the shape
      obtain ⟨hnetlist, hlast⟩ := exec_of_netlist? hlaid
      have hblank := (blankAll_of_netlist? hlaid).symm
      have hbuilt' := (built_exec c hbuilt).of_blankAll hblank
      have hring' : Scope.HasOddRing ⟨netlist.instances, netlist.wires, ∅⟩ :=
        hring.of_blankAll hblank (congrArg Netlist.wires hnetlist).symm
      have hbooks := books_of_report? hreport
      have hsettled : report = (sim.settled netlist).2 :=
        Option.some.inj (hbooks.last.symm.trans hlast)
      have hgave : (sim.settled netlist).2 = ⟨max 1 sim.options.maxPasses.toNat, false⟩ :=
        settle_of_oddRing (hcatalog ▸ hnot) hbuilt' hring' _
      have hreport' : report = ⟨max 1 options.maxPasses.toNat, false⟩ := by
        rw [hsettled, hgave, hoptions]
      have hrecorded : CircuitIssue.didNotConverge report.passes ∈ (c.exec sim).issues.issues := by
        rw [hbooks.issues, IssueSet.issues_ofList, hreport']
        simp
      exact ⟨hreport', _, hrecorded, _, rfl, hbooks.told _ hrecorded _ rfl⟩
  · obtain ⟨hblank, hwires⟩ := blankAll_exec sim hc
    exact hring.of_blankAll hblank hwires

/-- Three inverters in a ring, listed out of order and saved in a state of someone else's making,
and an exclusive or of a switch and one of them. -/
def savedRing : Snapshot where
  instances := [
    { part := ⟨"n2", "NOT", none⟩, signals := { value := true } },
    { part := ⟨"x", "XOR", none⟩ },
    { part := ⟨"n0", "not", none⟩, signals := { outputs := NameMap.empty.insert "MOON" true } },
    { part := ⟨"a", "INPUT", none⟩ },
    { part := ⟨"n1", "NOT", none⟩, signals := { value := true, next := true } }]
  wires := [{ source := "n1", target := "n0" }, { source := "n0", target := "x" },
    { source := "n2", target := "n1", targetPin := some "In" }, { source := "a", target := "x" },
    { source := "n0", target := "n2" }]

/-- The gates of the ring, around and around. -/
def ringGate (k : Nat) : String := ["n0", "n1", "n2"].getD (k % 3) ""

/-- Under a limit of four passes the ring still oscillates after the switch was flipped and the
clock has ticked. -/
theorem odd_ring_never_settles_savedRing :
    let sim := (Simulator.new Standard.catalog ⟨4⟩).run [.restore savedRing, .toggle "a"]
    Standard.catalog.HasInverter ∧ Command.tick.report? sim = some ⟨4, false⟩ ∧
      (Command.tick.exec sim).top.HasOddRing ∧
      ∃ issue ∈ (Command.tick.exec sim).issues.issues, ∃ passes : UInt64,
        issue.cause = .didNotConverge passes ∧ passes.toNat = 4 := by
  intro sim
  have hnot : Standard.catalog.HasInverter := rfl
  have hwires : (Command.tick.exec sim).top.wires = savedRing.wires := by decide +kernel
  have hchips : ∀ k < 3, (findInstance? (Command.tick.exec sim).instances (ringGate k)).map
      Instance.chip = some "NOT" := by decide +kernel
  have hfed : ∀ k < 3, (savedRing.wires.filter fun wire => wire.target == ringGate k) =
      [{ source := ringGate (k + 1), target := ringGate k,
         targetPin := if k = 1 then some "In" else none }] := by decide
  have hring : (Command.tick.exec sim).top.HasOddRing := by
    refine ⟨_, 3, ringGate, .refl _, by decide, fun k hk => ?_, fun k hk => ?_, rfl⟩
    · exact Option.map_eq_some_iff.1 (hchips k hk)
    · rw [hwires]
      refine ⟨if k = 1 then some "In" else none, ?_, hfed k hk⟩
      split
      · exact Or.inr rfl
      · exact Or.inl rfl
  have hreport : Command.tick.report? sim = some ⟨4, false⟩ := by decide +kernel
  obtain ⟨-, hissue⟩ := (odd_ring_never_settles Standard.catalog hnot ⟨4⟩
    [.restore savedRing, .toggle "a"]).1 .tick _ hreport hring
  exact ⟨hnot, hreport, hring, hissue⟩

end Breadboard
