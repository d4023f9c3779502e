import Breadboard.Chip.Standard
import Breadboard.Proofs.Command
import Breadboard.Proofs.Place
import Breadboard.Proofs.Uniqueness

/-!
# State changes only where it may

A circuit has two kinds of memory, its switches and its flip-flops. Whatever state it is in, also
one that oscillates or has double ids, each operation leaves alone what it has no business with:

* `settle_sameButSettled`: settling computes bits, but neither the bit of a switch nor the bit and
  the outputs of a flip-flop;
* `commitAll_sameButCommitted`, `commitAll_snd`: a clock edge lets every flip-flop take its next
  value, touches nothing else, and counts them;
* `run_sameUnlessStimulated`: over a run, flip-flops wait for a clock edge and switches for a toggle
  of their own;
* **`state_changes_only_where_it_may`**: all of it, at every place of every circuit.
-/

namespace Breadboard

variable {catalog : Catalog}

/-! ## Settling -/

/-- After a settling, bits may have changed, but not those of a switch or a flip-flop. -/
structure Instance.SameButSettled (before after : Instance) : Prop where
  part : after.part = before.part
  expanded : after.expanded = before.expanded
  body : after.body.hollow = before.body.hollow
  flipFlop : before.isFlipFlop = true →
    after.value = before.value ∧ after.signals.outputs = before.signals.outputs
  switch : before.isInput = true → after.value = before.value

theorem sameButSettled_of_kept {before after : Instance} (h : after.kept = before.kept) :
    before.SameButSettled after := by
  obtain ⟨part, expanded, s, body⟩ := before
  cases body with
  | unknown =>
    obtain ⟨s', rfl, -⟩ := kept_eq_unknown h
    exact ⟨rfl, rfl, rfl, fun hf => absurd hf (by simp [Instance.isFlipFlop]),
      fun hi => absurd hi (by simp [Instance.isInput])⟩
  | primitive kind =>
    obtain ⟨s', rfl, hstored⟩ := kept_eq_primitive h
    refine ⟨rfl, rfl, rfl, fun hf => ?_, fun hi => ?_⟩
    · cases kind with
      | dff =>
        have hvalue := congrArg Signals.value hstored
        have houtputs := congrArg Signals.outputs hstored
        exact ⟨hvalue, houtputs⟩
      | input | and | or | nand | not | xor => exact absurd hf (by simp [Instance.isFlipFlop])
    · cases kind with
      | input =>
        have hvalue := congrArg Signals.value hstored
        exact hvalue
      | dff | and | or | nand | not | xor => exact absurd hi (by simp [Instance.isInput])
  | composite parts inner =>
    obtain ⟨s', parts', rfl, -⟩ := kept_eq_composite h
    exact ⟨rfl, rfl, rfl, fun hf => absurd hf (by simp [Instance.isFlipFlop]),
      fun hi => absurd hi (by simp [Instance.isInput])⟩

/-- **Settling changes nothing that is stored**, at any place. -/
theorem settle_sameButSettled (catalog : Catalog) (wires : List Wire) (limit : Nat)
    (scope : List Instance) (path : List Nat) (k : Nat) :
    Option.Rel Instance.SameButSettled (Scope.instanceAt? ⟨scope, wires, ∅⟩ path k)
      (Scope.instanceAt? ⟨(settle catalog wires limit scope).1, wires, ∅⟩ path k) := by
  have hkept : keptAll scope = keptAll (settle catalog wires limit scope).1 :=
    (keptAll_settle limit scope).symm
  exact rel_imp (fun _ _ hij => sameButSettled_of_kept hij.symm)
    (instanceAt?_of_keptAll (s := ⟨scope, wires, ∅⟩) (t := ⟨_, wires, ∅⟩) hkept path k)

/-! ## Clock edges -/

/-- After a clock edge a flip-flop shows the bit it had taken down, and nothing else has changed. -/
structure Instance.SameButCommitted (before after : Instance) : Prop where
  part : after.part = before.part
  expanded : after.expanded = before.expanded
  body : after.body.hollow = before.body.hollow
  signals : after.signals =
    if before.isFlipFlop then
      { before.signals with value := before.next, outputs := outOnly before.next }
    else before.signals

theorem sameButCommitted_commit (i : Instance) : i.SameButCommitted i.commit.1 := by
  obtain ⟨part, expanded, s, body⟩ := i
  cases body with
  | composite parts inner =>
    rw [commit_composite]
    exact ⟨rfl, rfl, rfl, rfl⟩
  | unknown =>
    rw [commit_leaf rfl (by simp)]
    exact ⟨rfl, rfl, rfl, rfl⟩
  | primitive kind =>
    by_cases hk : kind = .dff
    · subst hk
      rw [commit_flipFlop]
      exact ⟨rfl, rfl, rfl, rfl⟩
    · rw [commit_leaf rfl (by simpa using hk)]
      refine ⟨rfl, rfl, rfl, ?_⟩
      cases kind with
      | dff => exact absurd rfl hk
      | input | and | or | nand | not | xor => rfl

theorem getElem?_commitAll (scope : List Instance) (k : Nat) :
    Option.Rel (fun i j => j = i.commit.1) (scope[k]?) ((commitAll scope).1[k]?) := by
  rw [commitAll_fst, List.getElem?_map]
  cases scope[k]? with
  | none => exact .none
  | some i => exact .some rfl

/-- **A clock edge comes to every place**, and to each only once. -/
theorem instanceAt?_of_commitAll {s t : Scope} (h : t.instances = (commitAll s.instances).1)
    (path : List Nat) (k : Nat) :
    Option.Rel (fun i j => j = i.commit.1) (s.instanceAt? path k) (t.instanceAt? path k) := by
  have hseats : ∀ u v : Scope, v.instances = (commitAll u.instances).1 → ∀ k : Nat,
      Option.Rel (fun i j : Instance => j = i.commit.1) (u.instances[k]?) (v.instances[k]?) := by
    intro u v huv k
    rw [huv]
    exact getElem?_commitAll u.instances k
  refine Scope.instanceAt?_rel hseats (fun u v huv k => ?_) h path k
  refine rel_bind (fun i j hij => ?_) (hseats u v huv k)
  obtain ⟨part, expanded, signals, body⟩ := i
  subst hij
  cases body with
  | composite parts inner =>
    rw [commit_composite]
    exact .some rfl
  | unknown =>
    rw [commit_leaf rfl (by simp)]
    exact .none
  | primitive kind =>
    by_cases hk : kind = .dff
    · subst hk
      rw [commit_flipFlop]
      exact .none
    · rw [commit_leaf rfl (by simpa using hk)]
      exact .none

/-- **A clock edge changes flip-flops only**, at any place. -/
theorem commitAll_sameButCommitted (wires : List Wire) (scope : List Instance) (path : List Nat)
    (k : Nat) :
    Option.Rel Instance.SameButCommitted (Scope.instanceAt? ⟨scope, wires, ∅⟩ path k)
      (Scope.instanceAt? ⟨(commitAll scope).1, wires, ∅⟩ path k) := by
  refine rel_imp (fun i j hij => ?_)
    (instanceAt?_of_commitAll (s := ⟨scope, wires, ∅⟩) (t := ⟨_, wires, ∅⟩) rfl path k)
  rw [hij]
  exact sameButCommitted_commit i

theorem commitAll_snd_of {scope : List Instance}
    (h : ∀ i ∈ scope, i.commit.2 = (i :: i.descendants).countP Instance.isFlipFlop) :
    (commitAll scope).2 = (scopeInstances scope).countP Instance.isFlipFlop := by
  induction scope with
  | nil => rw [commitAll, scopeInstances]; rfl
  | cons i rest ih =>
    have hrest := ih fun j hj => h j (List.mem_cons_of_mem i hj)
    have hown := h i List.mem_cons_self
    rw [commitAll, scopeInstances, ← List.cons_append, List.countP_append]
    exact congrArg₂ (· + ·) hown hrest

theorem commit_snd (i : Instance) :
    i.commit.2 = (i :: i.descendants).countP Instance.isFlipFlop := by
  induction i using Instance.induct with
  | leaf i hleaf =>
    rw [Instance.descendants_leaf hleaf]
    obtain ⟨part, expanded, s, body⟩ := i
    cases body with
    | composite => exact absurd hleaf (by simp [Instance.isComposite])
    | unknown => simp [Instance.commit, Instance.isFlipFlop]
    | primitive kind => cases kind <;> simp [Instance.commit, Instance.isFlipFlop]
  | composite part expanded s parts inner ih =>
    rw [Instance.commit, Instance.descendants, List.countP_cons]
    exact commitAll_snd_of ih

/-- **A clock edge counts the flip-flops**, at every depth. -/
theorem commitAll_snd (scope : List Instance) :
    (commitAll scope).2 = (scopeInstances scope).countP Instance.isFlipFlop :=
  commitAll_snd_of fun i _ => commit_snd i

/-! ## Runs -/

/-- A flip-flop is the same unless the clock ticked, and a switch unless it was toggled. -/
structure Instance.SameUnlessStimulated (ticked toggled : Prop) (before after : Instance) : Prop
    where
  part : after.part = before.part
  body : after.body.hollow = before.body.hollow
  flipFlop : before.isFlipFlop = true → ¬ticked → after.value = before.value
  switch : before.isInput = true → ¬toggled → after.value = before.value

/-- Some of the operations toggles the instance at a place: the place is at the top, and the id that
is toggled is that of its instance and of none before it. -/
def Simulator.TogglesAt (sim : Simulator) (commands : List Command) (path : List Nat) (k : Nat) :
    Prop :=
  path = [] ∧ ∃ id, Command.toggle id ∈ commands ∧ seat? sim.instances id = some k

section Stimulated

variable {ticked toggled : Prop} {i j : Instance}

theorem Instance.SameUnlessStimulated.refl (ticked toggled : Prop) (i : Instance) :
    i.SameUnlessStimulated ticked toggled i :=
  ⟨rfl, rfl, fun _ _ => rfl, fun _ _ => rfl⟩

theorem Instance.SameUnlessStimulated.trans {ticked' toggled' ticked'' toggled'' : Prop}
    {i j k : Instance} (h : i.SameUnlessStimulated ticked toggled j)
    (h' : j.SameUnlessStimulated ticked' toggled' k) (hticked : ticked ∨ ticked' → ticked'')
    (htoggled : toggled ∨ toggled' → toggled'') :
    i.SameUnlessStimulated ticked'' toggled'' k := by
  refine ⟨h'.part.trans h.part, h'.body.trans h.body, fun hf hn => ?_, fun hi hn => ?_⟩
  · have hfirst := h.flipFlop hf fun hj => hn (hticked (Or.inl hj))
    rw [← isFlipFlop_of_hollow h.body] at hf
    exact (h'.flipFlop hf fun hj => hn (hticked (Or.inr hj))).trans hfirst
  · have hfirst := h.switch hi fun hj => hn (htoggled (Or.inl hj))
    rw [← isInput_of_hollow h.body] at hi
    exact (h'.switch hi fun hj => hn (htoggled (Or.inr hj))).trans hfirst

theorem Instance.SameButSettled.sameUnlessStimulated (h : i.SameButSettled j) :
    i.SameUnlessStimulated False False j :=
  ⟨h.part, h.body, fun hf _ => (h.flipFlop hf).1, fun hi _ => h.switch hi⟩

theorem Instance.SameButCommitted.sameUnlessStimulated (h : i.SameButCommitted j) :
    i.SameUnlessStimulated True False j := by
  refine ⟨h.part, h.body, fun _ hn => absurd trivial hn, fun hi _ => ?_⟩
  have hnot : i.isFlipFlop = false := by
    by_contra hf
    rw [Bool.not_eq_false] at hf
    rw [isInput_of_isFlipFlop hf] at hi
    exact absurd hi (by decide)
  have hsignals := h.signals
  rw [hnot] at hsignals
  exact congrArg Signals.value hsignals

end Stimulated

/-- An update at the top changes what is on the seat of the id, and nothing else at any place. -/
theorem instanceAt?_updateInstance_rel {R : Instance → Instance → Prop} {f : Instance → Instance}
    (hinside : ∀ i, (f i).inside? = i.inside?) (s : Scope) (id : String) (path : List Nat) (k : Nat)
    (hsame : ∀ i, R i i)
    (hseat : path = [] → seat? s.instances id = some k → ∀ i, s.instances[k]? = some i →
      R i (f i)) :
    Option.Rel R (s.instanceAt? path k)
      (Scope.instanceAt? ⟨updateInstance s.instances id f, s.wires, s.inherited⟩ path k) := by
  cases path with
  | cons j path =>
    rw [Scope.instanceAt?_updateInstance hinside]
    exact rel_refl hsame _
  | nil =>
    rw [Scope.instanceAt?_nil, Scope.instanceAt?_nil, getElem?_updateInstance]
    split
    · rename_i hk
      cases hi : s.instances[k]? with
      | none => exact .none
      | some i => exact .some (hseat rfl hk i hi)
    · exact rel_refl hsame _

/-- A toggle changes the switch on the seat of the id, and nothing else at any place. -/
theorem toggleInput_sameUnlessStimulated (s : Scope) (id : String) (path : List Nat) (k : Nat) :
    Option.Rel
      (Instance.SameUnlessStimulated False (path = [] ∧ seat? s.instances id = some k))
      (s.instanceAt? path k)
      (Scope.instanceAt? ⟨toggleInput s.instances id, s.wires, s.inherited⟩ path k) := by
  unfold toggleInput
  split
  · rename_i found hfound
    obtain ⟨hfind, hinput⟩ := Option.filter_eq_some_iff.1 hfound
    refine instanceAt?_updateInstance_rel (f := fun i => i.drive (!i.value)) (fun i => rfl) s id
      path k (Instance.SameUnlessStimulated.refl _ _) fun hpath hk i hi => ?_
    -- the instance on the seat is the one that was found, and that one is a switch
    rw [findInstance?_eq_seat, hk, Option.bind_some, hi] at hfind
    cases hfind
    refine ⟨rfl, rfl, fun hf => ?_, fun _ hn => absurd ⟨hpath, hk⟩ hn⟩
    rw [isInput_of_isFlipFlop hf] at hinput
    exact absurd hinput (by decide)
  · exact rel_refl (Instance.SameUnlessStimulated.refl _ _) _

/-- What an operation lays out, before it settles. -/
theorem netlist?_sameUnlessStimulated {sim : Simulator} {c : Command} (hc : c.rebuilds = false)
    {netlist : Netlist} (h : c.netlist? sim = some netlist) (path : List Nat) (k : Nat) :
    Option.Rel
      (Instance.SameUnlessStimulated (Command.tick ∈ [c]) (sim.TogglesAt [c] path k))
      (sim.top.instanceAt? path k) (netlist.top.instanceAt? path k) := by
  cases c with
  | assemble | assembleProgram | restore => exact absurd hc (by simp [Command.rebuilds])
  | expand id expanded => exact absurd h (by simp [Command.netlist?])
  | toggle id =>
    obtain ⟨i, -, rfl⟩ := Option.map_eq_some_iff.1 h
    refine rel_imp (fun i j hij => ?_) (toggleInput_sameUnlessStimulated sim.top id path k)
    refine hij.trans (.refl False False j) (by simp) fun htoggled => ?_
    obtain ⟨hpath, hk⟩ := htoggled.resolve_right not_false
    exact ⟨hpath, id, List.mem_singleton_self _, hk⟩
  | tick =>
    cases h
    refine rel_imp (fun i j hij => ?_)
      (commitAll_sameButCommitted sim.wires sim.instances path k)
    refine hij.sameUnlessStimulated.trans (.refl False False j) (fun _ => ?_) (by simp)
    exact List.mem_singleton_self _
  | settle =>
    cases h
    exact rel_refl (Instance.SameUnlessStimulated.refl _ _) _

/-- **One operation** changes flip-flops only if it is a clock edge, and a switch only if it toggles
it. -/
theorem exec_sameUnlessStimulated (sim : Simulator) {c : Command} (hc : c.rebuilds = false)
    (path : List Nat) (k : Nat) :
    Option.Rel
      (Instance.SameUnlessStimulated (Command.tick ∈ [c]) (sim.TogglesAt [c] path k))
      (sim.top.instanceAt? path k) ((c.exec sim).top.instanceAt? path k) := by
  cases h : c.netlist? sim with
  | some netlist =>
    have hlaid := netlist?_sameUnlessStimulated hc h path k
    have hsettled := settle_sameButSettled sim.catalog netlist.wires sim.options.maxPasses.toNat
      netlist.instances path k
    have htop : (c.exec sim).top = ⟨(sim.settled netlist).1, netlist.wires, ∅⟩ := by
      unfold Simulator.top Netlist.top
      rw [(exec_of_netlist? h).1]
    rw [htop]
    refine rel_trans (fun a b d hab hbd => ?_) hlaid hsettled
    exact hab.trans hbd.sameUnlessStimulated (fun hor => hor.resolve_right id)
      fun hor => hor.resolve_right id
  | none =>
    rcases (exec_of_not_netlist? h).1 with heq | ⟨id, expanded, heq⟩
    · rw [Scope.instanceAt?_congr (s := (c.exec sim).top) (t := sim.top) heq]
      exact rel_refl (Instance.SameUnlessStimulated.refl _ _) _
    · rw [Scope.instanceAt?_congr (s := (c.exec sim).top) (t := ⟨_, sim.wires, ∅⟩) heq]
      refine instanceAt?_updateInstance_rel (f := fun i => { i with expanded }) (fun i => rfl)
        sim.top id path k (Instance.SameUnlessStimulated.refl _ _) fun _ _ i _ => ?_
      exact ⟨rfl, rfl, fun _ _ => rfl, fun _ _ => rfl⟩

/-- **Over a run**, flip-flops wait for a clock edge and switches for a toggle of their own. -/
theorem run_sameUnlessStimulated (commands : List Command) (path : List Nat) (k : Nat) :
    ∀ sim : Simulator, (∀ c ∈ commands, c.rebuilds = false) →
      Option.Rel
        (Instance.SameUnlessStimulated (Command.tick ∈ commands) (sim.TogglesAt commands path k))
        (sim.top.instanceAt? path k) ((sim.run commands).top.instanceAt? path k) := by
  induction commands with
  | nil => exact fun _ _ => rel_refl (Instance.SameUnlessStimulated.refl _ _) _
  | cons c rest ih =>
    intro sim hc
    have hfirst := hc c List.mem_cons_self
    have hstep := exec_sameUnlessStimulated sim hfirst path k
    have hrest := ih (c.exec sim) fun d hd => hc d (List.mem_cons_of_mem c hd)
    refine rel_trans (fun a b d hab hbd => hab.trans hbd ?_ ?_) hstep hrest
    · rintro (h | h)
      · exact List.mem_cons.2 (Or.inl (List.mem_singleton.1 h))
      · exact List.mem_cons_of_mem c h
    · rintro (⟨hpath, id, hid, hk⟩ | ⟨hpath, id, hid, hk⟩)
      · exact ⟨hpath, id, List.mem_cons.2 (Or.inl (List.mem_singleton.1 hid)), hk⟩
      · -- the operation leaves every instance on its seat
        have hids := map_id_of_blankAll (blankAll_exec sim hfirst).1
        exact ⟨hpath, id, List.mem_cons_of_mem c hid, (seat?_congr hids id).symm.trans hk⟩

/-- Switches and flip-flops are low when a program is laid out, and settling leaves them so. -/
theorem low_of_program? {sim : Simulator} {c : Command} {program : Program}
    (h : c.program? = some program) :
    Throughout (fun i => i.isStored = true → i.value = false) (c.exec sim).instances := by
  have hfresh : Throughout (fun i => i.isStored = true → i.value = false)
      (Netlist.ofProgram sim.catalog program).instances :=
    (throughout_fresh (fun _ _ _ => rfl) sim.catalog program.parts).perm (ofProgram_perm _ _)
  refine throughout_of_netlist? (fun i inputs hi hstored => ?_) (netlist?_of_program? sim h) hfresh
  have hkept : (i.pass sim.catalog inputs).1.kept = i.kept := kept_pass i inputs
  rw [value_of_kept hstored hkept]
  exact hi (isStored_of_blank (blank_of_kept hkept) ▸ hstored)

/-- **State changes only where it may.** Settling any circuit in any state leaves at every place the
part, the drawing, the kind and the inner wires, the bit and outputs of each flip-flop, and the bit
of each switch. A clock edge changes nothing but flip-flops, which take their next values, and
counts them. So over a run that builds no circuit, a flip-flop changes only if the clock ticks and a
switch only if it is toggled; and in a circuit that was just built from a program both are low. -/
theorem state_changes_only_where_it_may (catalog : Catalog) (scope : List Instance)
    (wires : List Wire) (limit : Nat) (sim : Simulator) (commands : List Command)
    (hcommands : ∀ c ∈ commands, c.rebuilds = false) :
    (∀ path k, Option.Rel Instance.SameButSettled (Scope.instanceAt? ⟨scope, wires, ∅⟩ path k)
      (Scope.instanceAt? ⟨(settle catalog wires limit scope).1, wires, ∅⟩ path k)) ∧
    (∀ path k, Option.Rel Instance.SameButCommitted (Scope.instanceAt? ⟨scope, wires, ∅⟩ path k)
      (Scope.instanceAt? ⟨(commitAll scope).1, wires, ∅⟩ path k)) ∧
    (commitAll scope).2 = (scopeInstances scope).countP Instance.isFlipFlop ∧
    (∀ path k, Option.Rel
      (Instance.SameUnlessStimulated (Command.tick ∈ commands) (sim.TogglesAt commands path k))
      (sim.top.instanceAt? path k) ((sim.run commands).top.instanceAt? path k)) ∧
    ∀ (c : Command) (program : Program), c.program? = some program →
      Throughout (fun i => i.isStored = true → i.value = false) (c.exec sim).instances :=
  ⟨settle_sameButSettled catalog wires limit scope, commitAll_sameButCommitted wires scope,
    commitAll_snd scope, fun path k => run_sameUnlessStimulated commands path k sim hcommands,
    fun _ _ h => low_of_program? h⟩

/-- A switch wired to the first of two flip-flops, and that one to the second. -/
def shiftRegister : Program :=
  ⟨[.part ⟨"a", "INPUT", none⟩, .part ⟨"d", "DFF", none⟩, .part ⟨"e", "DFF", none⟩,
    .wire ⟨"a", "d", .implicit⟩, .wire ⟨"d", "e", .implicit⟩]⟩

/-- A shift register whose switch was toggled: its flip-flops wait for the clock. -/
theorem state_changes_only_where_it_may_shiftRegister :
    let sim := (Simulator.new Standard.catalog {}).run [.assembleProgram shiftRegister]
    (∀ c ∈ [Command.toggle "a", .settle], c.rebuilds = false) ∧
      (∀ path k, Option.Rel (Instance.SameUnlessStimulated
        (Command.tick ∈ [Command.toggle "a", .settle])
        (sim.TogglesAt [.toggle "a", .settle] path k))
        (sim.top.instanceAt? path k)
        ((sim.run [.toggle "a", .settle]).top.instanceAt? path k)) ∧
      (sim.run [.toggle "a", .settle]).value? "a" = some true ∧
      (sim.run [.toggle "a", .settle]).value? "d" = some false ∧
      (sim.run [.toggle "a", .settle, .tick]).value? "d" = some true := by
  intro sim
  have hcommands : ∀ c ∈ [Command.toggle "a", .settle], c.rebuilds = false := by decide
  have hrun := (state_changes_only_where_it_may Standard.catalog sim.instances sim.wires 100 sim
    [.toggle "a", .settle] hcommands).2.2.2.1
  exact ⟨hcommands, hrun, by decide +kernel, by decide +kernel, by decide +kernel⟩

end Breadboard
