import Breadboard.Chip.Standard
import Breadboard.Proofs.Command
import Breadboard.Proofs.Stray

/-!
# Settling a settled circuit

A circuit whose last settling converged should stay as it is when it is settled again. It does,
unless that settling was the single pass after a restore and some instance was told a stray output
of the snapshot (`Scope.ReadsStrayInside`):

* **`stays_settled_iff`**: after every run, the restored circuit of the last settling decides;
* `stays_settled_of_not_restored`: runs without a restore always leave a circuit that stays settled;
* `strayed_changes_again`: a snapshot that is restored in one pass and then changes.
-/

namespace Breadboard

/-- Settling the circuit again takes one pass and changes nothing. -/
def Simulator.StaysSettled (sim : Simulator) : Prop :=
  sim.settleAgain.2 = ⟨1, true⟩ ∧ sim.settleAgain.1.instances = sim.instances

theorem staysSettled_iff {sim : Simulator} :
    sim.StaysSettled ↔ sim.top.AtRest sim.catalog := by
  have hsettle : Scope.AtRest sim.catalog ⟨sim.instances, sim.wires, ∅⟩ ↔
      settle sim.catalog sim.wires sim.options.maxPasses.toNat sim.instances =
        (sim.instances, ⟨1, true⟩) := settle_eq_self_iff.symm
  refine Iff.trans ?_ hsettle.symm
  constructor
  · rintro ⟨hreport, hinstances⟩
    exact Prod.ext hinstances hreport
  · intro h
    exact ⟨congrArg Prod.snd h, congrArg Prod.fst h⟩

/-! ## Drawing -/

/-- The instance, its inside not drawn. -/
def Instance.undrawn (i : Instance) : Instance := { i with expanded := false }

theorem map_undrawn_updateInstance (scope : List Instance) (id : String) (expanded : Bool) :
    (updateInstance scope id fun i => { i with expanded }).map Instance.undrawn =
      scope.map Instance.undrawn := by
  induction scope with
  | nil => rfl
  | cons i rest ih =>
    rw [updateInstance]
    split
    · rfl
    · rw [List.map_cons, List.map_cons, ih]

theorem atRest_undrawn {catalog : Catalog} {inputs : Pins} {i : Instance} :
    i.undrawn.AtRest catalog inputs ↔ i.AtRest catalog inputs := by
  obtain ⟨part, expanded, s, body⟩ := i
  cases body with
  | unknown => exact atRest_unknown.trans atRest_unknown.symm
  | composite parts inner => exact atRest_composite.trans atRest_composite.symm
  | primitive kind =>
    by_cases hk : kind = .dff
    · subst hk
      exact atRest_flipFlop.trans atRest_flipFlop.symm
    · exact (atRest_gate hk).trans (atRest_gate hk).symm

/-- Whether insides are drawn does not matter to rest. -/
theorem Scope.AtRest.of_undrawn {catalog : Catalog} {s t : Scope} (h : s.AtRest catalog)
    (hinst : s.instances.map Instance.undrawn = t.instances.map Instance.undrawn)
    (hwires : s.wires = t.wires) (hinh : s.inherited = t.inherited) : t.AtRest catalog := by
  have hids : s.instances.map Instance.id = t.instances.map Instance.id := by
    have hmap := congrArg (List.map Instance.id) hinst
    rwa [List.map_map, List.map_map] at hmap
  refine Scope.atRest_iff.2 fun j hj => ?_
  obtain ⟨k, hk⟩ := List.mem_iff_getElem?.1 hj
  obtain ⟨i, hi, heq⟩ := getElem?_of_map_eq hinst.symm hk
  have hrest := Scope.atRest_iff.1 h i (List.mem_of_getElem? hi)
  have hinputs : s.inputsFor catalog i.part = t.inputsFor catalog j.part := by
    have hpart : i.undrawn.part = j.undrawn.part := congrArg Instance.part heq
    change i.part = j.part at hpart
    unfold Scope.inputsFor
    rw [hpart]
    refine resolveInputs_congr (by rw [hwires]) fun wire _ _ => ?_
    refine Wire.read_congr hids (fun pin => by rw [hinh]) fun n a b _ ha hb => ?_
    have hsame : a.undrawn.read wire.sourcePin = b.undrawn.read wire.sourcePin := by
      rw [eq_of_map_eq hinst ha hb]
    cases hp : wire.sourcePin <;> rw [hp] at hsame <;> exact hsame
  rw [← atRest_undrawn, ← heq, atRest_undrawn, ← hinputs]
  exact hrest

/-! ## The last settling of a run -/

/-- The last operation of a run that settled the circuit. -/
def lastSettling (sim : Simulator) : List Command → Option Command
  | [] => none
  | c :: rest => (lastSettling (c.exec sim) rest).or ((c.netlist? sim).map fun _ => c)

theorem lastSettling_concat (sim : Simulator) (commands : List Command) (c : Command) :
    lastSettling sim (commands ++ [c]) =
      ((c.netlist? (sim.run commands)).map fun _ => c).or (lastSettling sim commands) := by
  induction commands generalizing sim with
  | nil => simp [lastSettling, Simulator.run]
  | cons d rest ih =>
    rw [List.cons_append, lastSettling, ih, lastSettling, run_cons, Option.or_assoc]

theorem mem_of_lastSettling {commands : List Command} {c : Command} :
    ∀ {sim : Simulator}, lastSettling sim commands = some c → c ∈ commands := by
  induction commands with
  | nil => exact fun h => absurd h (by simp [lastSettling])
  | cons d rest ih =>
    intro sim h
    rw [lastSettling, Option.or_eq_some_iff] at h
    rcases h with h | ⟨-, h⟩
    · exact List.mem_cons_of_mem d (ih h)
    · obtain ⟨-, -, rfl⟩ := Option.map_eq_some_iff.1 h
      exact List.mem_cons_self

/-- What a run knows of its circuit: every chip is tidy, and if the last settling converged, then
the circuit is at rest unless that settling was the single pass after a restore and a stray output
was read in it. -/
structure Accounted (sim : Simulator) (last : Option Command) : Prop where
  tidy : Throughout Instance.Tidy sim.instances
  rest : ∀ report, sim.lastReport = some report → report.converged = true →
    (sim.top.AtRest sim.catalog ↔
      ¬(report.passes = 1 ∧ ∃ saved, last = some (.restore saved) ∧
        (saved.netlist sim.catalog).top.ReadsStrayInside sim.catalog))

/-- An operation that settles nothing does not matter to rest. -/
theorem atRest_exec_of_not_netlist? {sim : Simulator} {c : Command} (hc : c.netlist? sim = none)
    {catalog : Catalog} : (c.exec sim).top.AtRest catalog ↔ sim.top.AtRest catalog := by
  obtain ⟨hinstances, hwires, -⟩ := exec_of_not_netlist? hc
  have hundrawn : (c.exec sim).instances.map Instance.undrawn =
      sim.instances.map Instance.undrawn := by
    rcases hinstances with heq | ⟨id, expanded, heq⟩
    · rw [heq]
    · rw [heq, map_undrawn_updateInstance]
  exact ⟨fun hr => hr.of_undrawn hundrawn hwires rfl,
    fun hr => hr.of_undrawn hundrawn.symm hwires.symm rfl⟩

/-- An operation that settles nothing leaves the account as it is. -/
theorem Accounted.exec_of_not_netlist? {sim : Simulator} {last : Option Command}
    (h : Accounted sim last) {c : Command} (hc : c.netlist? sim = none) :
    Accounted (c.exec sim) last := by
  obtain ⟨hinstances, hwires, hreport⟩ := Breadboard.exec_of_not_netlist? hc
  have hcatalog := (exec_catalog sim c).1
  constructor
  · rcases hinstances with heq | ⟨id, expanded, heq⟩
    · rw [heq]
      exact h.tidy
    · rw [heq]
      exact throughout_draw (fun _ _ htidy => htidy) id expanded h.tidy
  · intro report hr hconverged
    rw [hreport] at hr
    rw [hcatalog, atRest_exec_of_not_netlist? hc]
    exact h.rest report hr hconverged

/-- **One settling more**: what it started from decides. -/
theorem Accounted.exec_of_netlist? {sim : Simulator} {last : Option Command}
    (h : Accounted sim last) {c : Command} {netlist : Netlist}
    (hc : c.netlist? sim = some netlist) : Accounted (c.exec sim) (some c) := by
  obtain ⟨hnetlist, hreport⟩ := Breadboard.exec_of_netlist? hc
  have hcatalog := (exec_catalog sim c).1
  have htop : (c.exec sim).top = ⟨(sim.settled netlist).1, netlist.wires, ∅⟩ := by
    unfold Simulator.top Netlist.top
    rw [hnetlist]
  constructor
  · change Throughout Instance.Tidy (c.exec sim).netlist.instances
    rw [hnetlist]
    exact throughout_tidy_settle _ _
  · intro report hr hconverged
    rw [hreport] at hr
    cases hr
    rw [hcatalog, htop]
    have hrest := atRest_settle_iff hconverged
    refine hrest.trans (not_congr (and_congr_right fun _ => ?_))
    change netlist.top.ReadsStrayInside sim.catalog ↔ _
    by_cases hrestores : c.restores = true
    · cases c with
      | restore saved =>
        cases hc
        constructor
        · exact fun hreads => ⟨saved, rfl, hreads⟩
        · rintro ⟨saved', hsaved, hreads⟩
          cases hsaved
          exact hreads
      | assemble | assembleProgram | toggle | tick | settle | expand =>
        exact absurd hrestores (by simp [Command.restores])
    · -- what was not restored is tidy
      rw [Bool.not_eq_true] at hrestores
      have htidy := (lasting_tidy sim.catalog).netlist? hrestores hc h.tidy
      refine iff_of_false (not_readsStrayInside_of_tidy htidy) ?_
      rintro ⟨saved, hsaved, -⟩
      cases hsaved
      exact absurd hrestores (by simp [Command.restores])

/-- **Every run keeps the account.** -/
theorem accounted_run (catalog : Catalog) (options : SimOptions) (commands : List Command) :
    Accounted ((Simulator.new catalog options).run commands)
      (lastSettling (Simulator.new catalog options) commands) := by
  induction commands using List.reverseRecOn with
  | nil =>
    constructor
    · exact throughout_nil
    · intro report h
      exact absurd h (by simp [Simulator.run, Simulator.new])
  | append_singleton commands c ih =>
    rw [run_concat, lastSettling_concat]
    cases hc : c.netlist? ((Simulator.new catalog options).run commands) with
    | none => exact ih.exec_of_not_netlist? hc
    | some netlist => exact ih.exec_of_netlist? hc

/-! ## Settling again -/

/-- A run without a restore that ends settled leaves a circuit that stays settled. -/
theorem stays_settled_of_not_restored (catalog : Catalog) (options : SimOptions)
    (commands : List Command) (hc : ∀ c ∈ commands, c.restores = false) (report : SettleReport)
    (h : ((Simulator.new catalog options).run commands).lastReport = some report)
    (hconverged : report.converged = true) :
    ((Simulator.new catalog options).run commands).StaysSettled := by
  have hrest := (accounted_run catalog options commands).rest report h hconverged
  refine staysSettled_iff.2 (hrest.2 ?_)
  rintro ⟨-, saved, hlast, -⟩
  exact absurd (hc _ (mem_of_lastSettling hlast)) (by simp [Command.restores])

theorem atRest_of_not_restored (catalog : Catalog) (options : SimOptions)
    (commands : List Command) (hc : ∀ c ∈ commands, c.restores = false) (report : SettleReport)
    (h : ((Simulator.new catalog options).run commands).lastReport = some report)
    (hconverged : report.converged = true) :
    ((Simulator.new catalog options).run commands).top.AtRest catalog := by
  have hrest := staysSettled_iff.1
    (stays_settled_of_not_restored catalog options commands hc report h hconverged)
  rwa [(run_catalog (Simulator.new catalog options) commands).1] at hrest

/-- **After every run whose last settling converged**, the circuit stays settled, unless that
settling was the single pass after a restore and a stray output was read in the restored circuit. -/
theorem stays_settled_iff (catalog : Catalog) (options : SimOptions) (commands : List Command)
    (report : SettleReport)
    (h : ((Simulator.new catalog options).run commands).lastReport = some report)
    (hconverged : report.converged = true) :
    ((Simulator.new catalog options).run commands).StaysSettled ↔
      ¬(report.passes = 1 ∧ ∃ saved,
        lastSettling (Simulator.new catalog options) commands = some (.restore saved) ∧
          (saved.netlist catalog).top.ReadsStrayInside catalog) := by
  have hrest := (accounted_run catalog options commands).rest report h hconverged
  rw [(run_catalog (Simulator.new catalog options) commands).1] at hrest
  refine staysSettled_iff.trans ?_
  rw [(run_catalog (Simulator.new catalog options) commands).1]
  exact hrest

/-- An exclusive or with one input high, after a clock edge. -/
theorem stays_settled_xor :
    ((Simulator.new Standard.catalog {}).run
      [.assembleProgram switchedXor, .toggle "a", .tick]).lastReport = some ⟨1, true⟩ ∧
    ((Simulator.new Standard.catalog {}).run
      [.assembleProgram switchedXor, .toggle "a", .tick]).StaysSettled :=
  have h : ((Simulator.new Standard.catalog {}).run
      [.assembleProgram switchedXor, .toggle "a", .tick]).lastReport = some ⟨1, true⟩ := by
    decide +kernel
  ⟨h, (stays_settled_iff _ _ _ _ h rfl).2 (by
    rintro ⟨-, saved, hlast, -⟩
    have hm := mem_of_lastSettling hlast
    simp at hm)⟩

/-- A conjunction saved with a high output `X`, and a negation listed before it that reads `X`. -/
def strayed : Snapshot where
  instances := [
    { part := ⟨"n", "NOT", none⟩
      signals := { inputs := .ofList [("In", true)], outputs := .ofList [("OUT", false)] } },
    { part := ⟨"g", "AND", none⟩, signals := { outputs := .ofList [("X", true)] } }]
  wires := [Standard.outOf "g" "X" "n"]

/-- **A circuit that settled and does not stay settled.** -/
theorem strayed_changes_again :
    ((Simulator.new Standard.catalog {}).run [.restore strayed]).lastReport = some ⟨1, true⟩ ∧
    ((Simulator.new Standard.catalog {}).run [.restore strayed]).settleAgain.2 = ⟨2, true⟩ ∧
    ((Simulator.new Standard.catalog {}).run [.restore strayed]).value? "n" = some false ∧
    ((Simulator.new Standard.catalog {}).run [.restore strayed]).settleAgain.1.value? "n" =
      some true ∧
    ¬((Simulator.new Standard.catalog {}).run [.restore strayed]).StaysSettled := by
  have h : ((Simulator.new Standard.catalog {}).run [.restore strayed]).settleAgain.2 =
      ⟨2, true⟩ := by decide +kernel
  refine ⟨by decide +kernel, h, by decide +kernel, by decide +kernel, ?_⟩
  rintro ⟨hreport, -⟩
  rw [h] at hreport
  exact absurd hreport (by decide)

end Breadboard
