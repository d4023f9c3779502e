import Breadboard.Proofs.Frame
import Breadboard.Proofs.Resettle

/-!
# A clock edge is one synchronous step

Flip-flops are chained and nested in any way, and a clock edge comes to them one after the other.
Still none sees the new bit of another one: each takes the bit that its first wire carried before
the edge (`Scope.carried`). In a settled circuit a flip-flop has taken that bit down already, the
edge only moves it to the output, and the settling after the edge touches no flip-flop, also if it
does not converge.

* `next_of_atRest`: what a flip-flop at rest has taken down;
* **`tick_is_synchronous`**: every scope of a settled circuit makes its step as one.
-/

namespace Breadboard

variable {catalog : Catalog}

/-- The bit on the last wire that is given the first declared input of a part, low if there is
none. -/
def Scope.carried (catalog : Catalog) (s : Scope) (target : Part) : Bool :=
  (((catalog.inputsOf target.chip)[0]?).bind fun pin =>
    (lastWire? (assignPins (catalog.inputsOf target.chip) s.wires target.id) pin).map
      (Wire.read s.instances s.inherited)).getD false

/-- **A flip-flop at rest has taken down the bit that its first input carries.** -/
theorem next_of_atRest {s : Scope} (h : s.AtRest catalog) {i : Instance} (hi : i ∈ s.instances)
    (hflip : i.body = .primitive .dff) : i.next = s.carried catalog i.part := by
  obtain ⟨part, expanded, signals, body⟩ := i
  subst hflip
  obtain ⟨hagree, hnext⟩ := atRest_flipFlop.1 (Scope.atRest_iff.1 h _ hi)
  change signals.next = _
  rw [hnext]
  unfold Signals.bit Scope.carried
  cases (catalog.inputsOf part.chip)[0]? with
  | none => rfl
  | some pin =>
    rw [Option.bind_some, Option.bind_some, NameMap.agree_iff_get?.1 hagree]
    exact congrArg (Option.getD · false)
      (get?_resolveInputs catalog s.instances s.wires s.inherited part pin)

/-- From one scope to the other every flip-flop has taken the bit that its first input carried in
the one. -/
structure Scope.SteppedTo (catalog : Catalog) (before after : Scope) : Prop where
  wires : after.wires = before.wires
  flipFlops : ∀ k : Nat, Option.Rel
    (fun i j : Instance => j.part = i.part ∧ j.isFlipFlop = i.isFlipFlop ∧
      (i.isFlipFlop = true → j.value = before.carried catalog i.part ∧
        j.signals.outputs = outOnly (before.carried catalog i.part)))
    (before.instances[k]?) (after.instances[k]?)

/-- After a clock edge on a scope at rest, whatever bits a pass computes. -/
structure Scope.Clocked (catalog : Catalog) (before after : Scope) : Prop where
  rest : before.AtRest catalog
  wires : after.wires = before.wires
  kept : keptAll after.instances = keptAll (commitAll before.instances).1

section Clocked

variable {s t : Scope}

theorem Scope.Clocked.getElem? (h : s.Clocked catalog t) (k : Nat) :
    Option.Rel (fun i j : Instance => i ∈ s.instances ∧ j.kept = i.commit.1.kept)
      (s.instances[k]?) (t.instances[k]?) := by
  have hkept := h.kept
  rw [keptAll_eq_map, keptAll_eq_map, commitAll_fst, List.map_map] at hkept
  exact rel_imp (fun i j hij => ⟨hij.1, hij.2.2.symm⟩) (getElem?_rel_of_map_eq hkept.symm k)

/-- **The insides of a scope are clocked with it**, seat by seat. -/
theorem Scope.Clocked.inside? (h : s.Clocked catalog t) (k : Nat) :
    Option.Rel (Scope.Clocked catalog) (s.inside? k) (t.inside? k) := by
  refine rel_bind (fun i j hij => ?_) (h.getElem? k)
  obtain ⟨hi, hkept⟩ := hij
  have hrest := Scope.atRest_iff.1 h.rest i hi
  obtain ⟨part, expanded, signals, body⟩ := i
  cases body with
  | composite parts inner =>
    rw [commit_composite] at hkept
    obtain ⟨s', parts', rfl, hparts⟩ := kept_eq_composite hkept
    exact .some ⟨(atRest_composite.1 hrest).2.1, rfl, hparts⟩
  | unknown =>
    rw [commit_leaf rfl (by simp)] at hkept
    obtain ⟨s', rfl, -⟩ := kept_eq_unknown hkept
    exact .none
  | primitive kind =>
    have hbody : ∃ signals', (Instance.commit ⟨part, expanded, signals, .primitive kind⟩).1 =
        ⟨part, expanded, signals', .primitive kind⟩ := by
      by_cases hk : kind = .dff
      · subst hk
        exact ⟨_, commit_flipFlop part expanded signals⟩
      · exact ⟨signals, commit_leaf rfl (by simpa using hk)⟩
    obtain ⟨signals', hcommit⟩ := hbody
    rw [hcommit] at hkept
    obtain ⟨s', rfl, -⟩ := kept_eq_primitive hkept
    exact .none

/-- **A clocked scope has made its step.** -/
theorem Scope.Clocked.steppedTo (h : s.Clocked catalog t) : s.SteppedTo catalog t := by
  refine ⟨h.wires, fun k => rel_imp (fun i j hij => ?_) (h.getElem? k)⟩
  obtain ⟨hi, hkept⟩ := hij
  have hcommitted := sameButCommitted_commit i
  have hsettled := sameButSettled_of_kept hkept
  have hkind := isFlipFlop_of_hollow hcommitted.body
  refine ⟨hsettled.part.trans hcommitted.part,
    (isFlipFlop_of_hollow hsettled.body).trans hkind, fun hflip => ?_⟩
  have hsignals := hcommitted.signals
  rw [if_pos hflip, next_of_atRest h.rest hi (body_of_isFlipFlop hflip)] at hsignals
  obtain ⟨hvalue, houtputs⟩ := hsettled.flipFlop (hkind.trans hflip)
  exact ⟨hvalue.trans (congrArg Signals.value hsignals),
    houtputs.trans (congrArg Signals.outputs hsignals)⟩

end Clocked

/-- **A clock edge is one synchronous step.** After any run without a restore whose last settling
converged, a clock edge brings to every flip-flop, in every scope at any depth, the bit that its
first input carried in that scope before the edge, whether or not the circuit settles then. -/
theorem tick_is_synchronous (catalog : Catalog) (options : SimOptions) (commands : List Command)
    (hc : ∀ c ∈ commands, c.restores = false) (report : SettleReport)
    (h : ((Simulator.new catalog options).run commands).lastReport = some report)
    (hconverged : report.converged = true) :
    ∀ path, Option.Rel (Scope.SteppedTo catalog)
      (((Simulator.new catalog options).run commands).top.at? path)
      (((Simulator.new catalog options).run commands).tick.1.top.at? path) := by
  intro path
  have hrest := staysSettled_iff.1
    (stays_settled_of_not_restored catalog options commands hc report h hconverged)
  rw [(run_catalog (Simulator.new catalog options) commands).1] at hrest
  have hclocked : Scope.Clocked catalog ((Simulator.new catalog options).run commands).top
      ((Simulator.new catalog options).run commands).tick.1.top :=
    ⟨hrest, rfl, keptAll_settle _ _⟩
  exact rel_imp (fun _ _ hst => hst.steppedTo)
    (Scope.at?_rel (fun _ _ huv k => huv.inside? k) path hclocked)

/-- A high switch before a shift register: the edge moves its bit by one flip-flop only. -/
theorem tick_is_synchronous_shiftRegister :
    let sim := (Simulator.new Standard.catalog {}).run [.assembleProgram shiftRegister, .toggle "a"]
    sim.lastReport = some ⟨2, true⟩ ∧
      (∀ path, Option.Rel (Scope.SteppedTo Standard.catalog) (sim.top.at? path)
        (sim.tick.1.top.at? path)) ∧
      sim.top.carried Standard.catalog ⟨"d", "DFF", none⟩ = true ∧
      sim.top.carried Standard.catalog ⟨"e", "DFF", none⟩ = false ∧
      sim.tick.1.value? "d" = some true ∧ sim.tick.1.value? "e" = some false := by
  have h : ((Simulator.new Standard.catalog {}).run
      [.assembleProgram shiftRegister, .toggle "a"]).lastReport = some ⟨2, true⟩ := by
    decide +kernel
  exact ⟨h, tick_is_synchronous Standard.catalog {} [.assembleProgram shiftRegister, .toggle "a"]
    (by decide) _ h rfl, by decide +kernel, by decide +kernel, by decide +kernel, by decide +kernel⟩

end Breadboard
