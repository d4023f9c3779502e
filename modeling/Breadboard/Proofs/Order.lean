import Breadboard.Chip.Standard
import Breadboard.Proofs.Alike

/-!
# The order of the statements does not matter

Two programs that declare the same chips and the same wires, the wires into each chip in the same
order, make circuits that differ in the order of their chips only. Run by the same operations, the
two circuits stay alike, and they are at rest after each of them.

* `alike_ofProgram`: netlists of such programs are alike;
* `Simulator.Alike.exec`, `Simulator.Alike.run`: the same operations keep simulators alike;
* **`order_independent`**: after every operation of the two runs, the chips of one id agree.
-/

namespace Breadboard

variable {catalog : Catalog}

/-! ## Programs -/

section Programs

variable {p q : Program}

theorem parts_perm (h : p.statements.Perm q.statements) : p.parts.Perm q.parts :=
  h.filterMap _

theorem map_id_fresh (catalog : Catalog) (parts : List Part) :
    (parts.map (Instance.fresh catalog)).map Instance.id = parts.map Part.id := by
  rw [List.map_map]
  rfl

/-- The wire of a statement is a matter of what its target id finds. -/
theorem wireOf_congr {scope scope' : List Instance} {decl : WireDecl}
    (h : findInstance? scope decl.target = findInstance? scope' decl.target) :
    Netlist.wireOf catalog scope decl = Netlist.wireOf catalog scope' decl := by
  unfold Netlist.wireOf Netlist.isTargetInput
  rw [h]

theorem wireOf_target (scope : List Instance) (decl : WireDecl) :
    (Netlist.wireOf catalog scope decl).target = decl.target := by
  unfold Netlist.wireOf
  cases decl.pins with
  | implicit => rfl
  | both sourcePin targetPin => rfl
  | ambiguous pin =>
    simp only
    split <;> rfl

/-- **Netlists of two programs in another order are alike**, if the ids are distinct and the wires
into each chip are in the same order. -/
theorem alike_ofProgram (hperm : p.statements.Perm q.statements)
    (hnodup : (p.parts.map Part.id).Nodup)
    (hwires : ∀ target, (p.wires.filter fun decl => decl.target == target) =
      q.wires.filter fun decl => decl.target == target)
    (hacyclic : (Netlist.ofProgram catalog p).top.AcyclicInside) :
    Netlist.Alike catalog (.ofProgram catalog p) (.ofProgram catalog q) := by
  have hfresh : (q.parts.map (Instance.fresh catalog)).Perm
      (p.parts.map (Instance.fresh catalog)) := ((parts_perm hperm).map _).symm
  have hinst : (Netlist.ofProgram catalog q).instances.Perm
      (Netlist.ofProgram catalog p).instances :=
    (ofProgram_perm catalog q).trans (hfresh.trans (ofProgram_perm catalog p).symm)
  have hids : ((p.parts.map (Instance.fresh catalog)).map Instance.id).Nodup := by
    rw [map_id_fresh]
    exact hnodup
  refine ⟨?_, ?_, fun target => ?_, hacyclic, ?_, ?_⟩
  · exact ((ofProgram_perm catalog p).map Instance.id).nodup_iff.2 hids
  · rw [keptAll_eq_map, keptAll_eq_map]
    exact hinst.map _
  · have hfilter : ∀ r : Program, ((Netlist.ofProgram catalog r).wires.filter fun wire =>
        wire.target == target) = (r.wires.filter fun decl => decl.target == target).map
          (Netlist.wireOf catalog (r.parts.map (Instance.fresh catalog))) := by
      intro r
      change ((r.wires.map _).filter _) = _
      rw [List.filter_map]
      refine congrArg (List.map _) (List.filter_congr fun decl _ => ?_)
      exact congrArg (· == target) (wireOf_target _ decl)
    rw [hfilter p, hfilter q, hwires]
    refine List.map_congr_left fun decl _ => ?_
    exact wireOf_congr (findInstance?_perm hfresh hids decl.target).symm
  · exact (throughout_plain_fresh catalog p.parts).perm (ofProgram_perm catalog p)
  · exact (throughout_plain_fresh catalog q.parts).perm (ofProgram_perm catalog q)

end Programs

/-! ## Runs -/

/-- Is the operation a toggle, a clock edge or a settling? -/
def Command.stimulates : Command → Bool
  | .toggle _ | .tick | .settle => true
  | _ => false

theorem rebuilds_of_stimulates {c : Command} (hc : c.stimulates = true) : c.rebuilds = false := by
  cases c with
  | toggle | tick | settle => rfl
  | assemble | assembleProgram | expand | restore => exact absurd hc (by simp [Command.stimulates])

theorem restores_of_stimulates {c : Command} (hc : c.stimulates = true) : c.restores = false := by
  cases c with
  | toggle | tick | settle => rfl
  | assemble | assembleProgram | expand | restore => exact absurd hc (by simp [Command.stimulates])

/-- Did the last settling converge, if there was one? -/
def Simulator.convergedLast (sim : Simulator) : Bool := sim.lastReport.all SettleReport.converged

/-- Does every settling of the run converge? -/
def Simulator.converges (sim : Simulator) : List Command → Bool
  | [] => true
  | c :: rest => (c.exec sim).convergedLast && converges (c.exec sim) rest

/-- The circuits have chips of the same ids, and chips of one id agree in every field at every
depth. -/
def Simulator.AgreesById (a b : Simulator) : Prop :=
  (a.instances.map Instance.id).Perm (b.instances.map Instance.id) ∧
    ∀ i ∈ a.instances, ∀ j ∈ b.instances, i.id = j.id → i.agree j = true

/-- Simulators over one catalog whose netlists are alike and at rest. -/
structure Simulator.Alike (a b : Simulator) : Prop where
  catalog : b.catalog = a.catalog
  netlist : Netlist.Alike a.catalog a.netlist b.netlist
  rest : a.top.AtRest a.catalog
  rest' : b.top.AtRest a.catalog

theorem Simulator.Alike.agreesById {a b : Simulator} (h : a.Alike b) : a.AgreesById b :=
  ⟨h.netlist.ids.symm, fun _ hi _ hj hid => h.netlist.agree_of_id h.rest h.rest' hi hj hid⟩

theorem converged_of_convergedLast {sim : Simulator} {c : Command} {n : Netlist}
    (hc : c.netlist? sim = some n) (hconverged : (c.exec sim).convergedLast = true) :
    (sim.settled n).2.converged = true := by
  unfold Simulator.convergedLast at hconverged
  rwa [(exec_of_netlist? hc).2] at hconverged

/-- **A settling that converges leaves the circuit at rest**, if it was never restored. -/
theorem atRest_of_convergedLast {sim : Simulator} {c : Command} {n : Netlist}
    (hc : c.netlist? sim = some n) (hplain : Throughout (Instance.Plain sim.catalog) n.instances)
    (hconverged : (c.exec sim).convergedLast = true) : (c.exec sim).top.AtRest sim.catalog := by
  unfold Simulator.top
  rw [(exec_of_netlist? hc).1]
  exact atRest_settle_of_plain hplain (converged_of_convergedLast hc hconverged)

/-- **Two settlings from alike netlists** that converge leave alike simulators. -/
theorem alike_of_netlist? {a b : Simulator} (hcatalog : b.catalog = a.catalog) {c d : Command}
    {n m : Netlist} (hc : c.netlist? a = some n) (hd : d.netlist? b = some m)
    (h : Netlist.Alike a.catalog n m)
    (hconverged : (c.exec a).convergedLast = true)
    (hconverged' : (d.exec b).convergedLast = true) :
    (c.exec a).Alike (d.exec b) := by
  have hrest := atRest_of_convergedLast hc h.plain hconverged
  have hrest' := atRest_of_convergedLast hd (hcatalog ▸ h.plain') hconverged'
  have hsettle := h.settle a.options.maxPasses.toNat b.options.maxPasses.toNat
  constructor
  · rw [(exec_catalog a c).1, (exec_catalog b d).1, hcatalog]
  · rw [(exec_catalog a c).1, (exec_of_netlist? hc).1, (exec_of_netlist? hd).1]
    unfold Simulator.settled
    rw [hcatalog]
    exact hsettle
  · rw [(exec_catalog a c).1]
    exact hrest
  · rw [(exec_catalog a c).1, ← hcatalog]
    exact hrest'

/-- Whether an id finds a switch is the same in alike netlists. -/
theorem Netlist.Alike.findSwitch {n m : Netlist} (h : Netlist.Alike catalog n m) (id : String) :
    ((findInstance? n.instances id).filter Instance.isInput).isSome =
      ((findInstance? m.instances id).filter Instance.isInput).isSome := by
  obtain ⟨scope, hperm, hkept⟩ := h.aligned
  rw [← findInstance?_perm hperm h.nodup', findInstance?_eq_seat, findInstance?_eq_seat,
    seat?_congr (map_id_of_keptAll hkept)]
  cases seat? n.instances id with
  | none => rfl
  | some k =>
    rw [Option.bind_some, Option.bind_some]
    cases hk : n.instances[k]? with
    | none =>
      rw [List.getElem?_eq_none_iff, ← length_of_blankAll (blankAll_of_keptAll hkept)] at hk
      rw [List.getElem?_eq_none hk]
    | some i =>
      obtain ⟨j, hj, hij⟩ := getElem?_of_keptAll hkept.symm hk
      rw [hj, Option.filter_some, Option.filter_some, isInput_of_blank (blank_of_kept hij)]
      split <;> rfl

/-- A toggle of an id that finds a switch in both simulators or in neither. -/
theorem toggle_cases {a b : Simulator} {id : String}
    (h : ((a.instance? id).filter Instance.isInput).isSome =
      ((b.instance? id).filter Instance.isInput).isSome) :
    ((Command.toggle id).exec a = { a with issues := .ofList [.notAnInput id] } ∧
      (Command.toggle id).exec b = { b with issues := .ofList [.notAnInput id] }) ∨
    ((Command.toggle id).netlist? a = some ⟨toggleInput a.instances id, a.wires⟩ ∧
      (Command.toggle id).netlist? b = some ⟨toggleInput b.instances id, b.wires⟩) := by
  cases ha : (a.instance? id).filter Instance.isInput with
  | none =>
    rw [ha] at h
    have hb : (b.instance? id).filter Instance.isInput = none := by
      rw [← Option.not_isSome_iff_eq_none, ← h]
      simp
    exact Or.inl ⟨exec_toggle_of_none ha, exec_toggle_of_none hb⟩
  | some i =>
    rw [ha] at h
    obtain ⟨j, hb⟩ := Option.isSome_iff_exists.1 h.symm
    refine Or.inr ⟨?_, ?_⟩
    · rw [Command.netlist?, ha]
      rfl
    · rw [Command.netlist?, hb]
      rfl

/-- **One operation more**: alike simulators stay alike under a toggle, a clock edge or a settling
that converges in both. -/
theorem Simulator.Alike.exec {a b : Simulator} (h : a.Alike b) {c : Command}
    (hc : c.stimulates = true)
    (hconverged : (c.exec a).convergedLast = true)
    (hconverged' : (c.exec b).convergedLast = true) :
    (c.exec a).Alike (c.exec b) := by
  cases c with
  | assemble | assembleProgram | expand | restore => exact absurd hc (by simp [Command.stimulates])
  | settle => exact alike_of_netlist? h.catalog rfl rfl h.netlist hconverged hconverged'
  | tick =>
    exact alike_of_netlist? h.catalog rfl rfl (h.netlist.commit h.rest h.rest') hconverged
      hconverged'
  | toggle id =>
    rcases toggle_cases (h.netlist.findSwitch id) with ⟨ha, hb⟩ | ⟨ha, hb⟩
    · rw [ha, hb]
      exact ⟨h.catalog, h.netlist, h.rest, h.rest'⟩
    · exact alike_of_netlist? h.catalog ha hb (h.netlist.toggle id) hconverged hconverged'

/-- **Alike simulators stay alike** under the same operations, as long as all settlings converge. -/
theorem Simulator.Alike.run (commands : List Command) : ∀ {a b : Simulator}, a.Alike b →
    (∀ c ∈ commands, c.stimulates = true) → a.converges commands = true →
      b.converges commands = true → (a.run commands).Alike (b.run commands) := by
  induction commands with
  | nil => exact fun h _ _ _ => h
  | cons c rest ih =>
    intro a b h hc hconverges hconverges'
    rw [Simulator.converges, Bool.and_eq_true] at hconverges hconverges'
    have hstep := h.exec (hc c List.mem_cons_self) hconverges.1 hconverges'.1
    exact ih hstep (fun d hd => hc d (List.mem_cons_of_mem c hd)) hconverges.2 hconverges'.2

/-- **What one operation on each of two simulators preserves, runs preserve**, as long as the first
one settles. -/
theorem run_related {R : Simulator → Simulator → Prop} {f : Command → Command}
    (hstep : ∀ {a b : Simulator} {c : Command}, R a b → c.stimulates = true →
      (c.exec a).convergedLast = true → R (c.exec a) ((f c).exec b)) (commands : List Command) :
    ∀ {a b : Simulator}, R a b → (∀ c ∈ commands, c.stimulates = true) →
      a.converges commands = true → R (a.run commands) (b.run (commands.map f)) := by
  induction commands with
  | nil => exact fun h _ _ => h
  | cons c rest ih =>
    intro a b h hc hconverges
    rw [Simulator.converges, Bool.and_eq_true] at hconverges
    have hfirst := hstep h (hc c List.mem_cons_self) hconverges.1
    exact ih hfirst (fun d hd => hc d (List.mem_cons_of_mem c hd)) hconverges.2

theorem converges_take (commands : List Command) : ∀ {sim : Simulator} (n : Nat),
    sim.converges commands = true → sim.converges (commands.take n) = true := by
  induction commands with
  | nil =>
    intro sim n h
    rw [List.take_nil]
    exact h
  | cons c rest ih =>
    intro sim n h
    cases n with
    | zero => rfl
    | succ n =>
      rw [Simulator.converges, Bool.and_eq_true] at h
      rw [List.take_succ_cons, Simulator.converges, Bool.and_eq_true]
      exact ⟨h.1, ih n h.2⟩

/-- **The order of the statements does not matter**: two programs with the same statements in
another order, the ids distinct and the wires into each chip in the same order, lead to chips that
agree by id after every operation of the same run, as long as the circuit is acyclic and every
settling converges. -/
theorem order_independent (a b : Simulator) (p q : Program) (c d : Command)
    (commands : List Command) (hcatalog : b.catalog = a.catalog)
    (hp : c.program? = some p) (hq : d.program? = some q)
    (hperm : p.statements.Perm q.statements) (hnodup : (p.parts.map Part.id).Nodup)
    (hwires : ∀ target, (p.wires.filter fun decl => decl.target == target) =
      q.wires.filter fun decl => decl.target == target)
    (hacyclic : ∀ s, (Netlist.ofProgram a.catalog p).top.Holds s → s.Acyclic)
    (hcommands : ∀ e ∈ commands, e.stimulates = true)
    (hconverges : a.converges (c :: commands) = true)
    (hconverges' : b.converges (d :: commands) = true) :
    ∀ n, (a.run (c :: commands.take n)).AgreesById (b.run (d :: commands.take n)) := by
  intro n
  rw [Simulator.converges, Bool.and_eq_true] at hconverges hconverges'
  have hlaid : ∀ {e : Command} {r : Program} (sim : Simulator), e.program? = some r →
      e.netlist? sim = some (.ofProgram sim.catalog r) := by
    intro e r sim he
    cases e with
    | assemble | assembleProgram =>
      cases he
      rfl
    | toggle | tick | settle | expand | restore => exact absurd he (by simp [Command.program?])
  have halike := alike_ofProgram hperm hnodup hwires hacyclic
  have hstart : (c.exec a).Alike (d.exec b) := by
    refine alike_of_netlist? hcatalog (hlaid a hp) ?_ halike hconverges.1 hconverges'.1
    rw [hlaid b hq, hcatalog]
  refine Simulator.Alike.agreesById (hstart.run (commands.take n) ?_ ?_ ?_)
  · exact fun e he => hcommands e (List.mem_of_mem_take he)
  · exact converges_take commands n hconverges.2
  · exact converges_take commands n hconverges'.2

/-- The statements of an exclusive or with its switch, forward and backward. -/
theorem order_independent_xor :
    (Simulator.new Standard.catalog {}).converges
      [.assembleProgram ⟨switchedXor.statements.reverse⟩, .toggle "a", .tick] = true ∧
    ((Simulator.new Standard.catalog {}).run
      [.assembleProgram switchedXor, .toggle "a", .tick]).AgreesById
        ((Simulator.new Standard.catalog {}).run
          [.assembleProgram ⟨switchedXor.statements.reverse⟩, .toggle "a", .tick]) := by
  have hconverges : (Simulator.new Standard.catalog {}).converges
      [.assembleProgram switchedXor, .toggle "a", .tick] = true := by decide +kernel
  have hconverges' : (Simulator.new Standard.catalog {}).converges
      [.assembleProgram ⟨switchedXor.statements.reverse⟩, .toggle "a", .tick] = true := by
    decide +kernel
  have hforward : (Netlist.ofProgram Standard.catalog switchedXor).top.listedForward = true := by
    decide +kernel
  refine ⟨hconverges', ?_⟩
  refine order_independent (Simulator.new Standard.catalog {}) (Simulator.new Standard.catalog {})
    switchedXor ⟨switchedXor.statements.reverse⟩ (.assembleProgram switchedXor)
    (.assembleProgram ⟨switchedXor.statements.reverse⟩) [.toggle "a", .tick] rfl rfl rfl
    (List.reverse_perm _).symm (by decide) (fun _ => rfl) ?_ (by decide) hconverges hconverges' 2
  exact acyclicInside_of_listedForward hforward

end Breadboard
