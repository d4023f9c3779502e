import Breadboard.Proofs.Command
import Breadboard.Proofs.Uniqueness

/-!
# The change flag of a pass

A pass tells whether it changed anything, and settling stops at the first pass that tells it did
not. The flag is put together from tests of its own on the inputs, the outputs, the main output, the
next value and the insides, not from a comparison of the circuit before and after.

* `Instance.Differs`: two instances differ in a bit, whatever the order of their pins;
* `Scope.quiet_of_corresponds`: the flag is down if no bit changed, of any circuit;
* `Scope.atRest_of_quiet`: it is up if a bit changed, of a tidy circuit;
* `Evolved`, `Evolved.tidy`: circuits built from a catalog and then only passed, driven on their
  switches, clocked and drawn are tidy;
* **`evolved_run`**: every run of a simulator without a restore leaves such a circuit;
* **`change_flag_is_exact`**: over such a circuit a pass tells that something changed iff some
  instance at some depth differs.

A restored circuit need not be tidy. A gate with one stray output instead of `OUT` passes the test
on its outputs if it is low, so that the pass drives `OUT` and tells nothing.
-/

namespace Breadboard

variable {catalog : Catalog} {wires : List Wire} {inherited inputs : Pins}

/-! ## Instances that differ -/

/-- The instances have different bits: the main output, the next value, an input or an output. -/
def Instance.Differs (i j : Instance) : Prop :=
  i.value ≠ j.value ∨ i.next ≠ j.next ∨
    (∃ pin, i.signals.inputs.get? pin ≠ j.signals.inputs.get? pin) ∨
    ∃ pin, i.signals.outputs.get? pin ≠ j.signals.outputs.get? pin

/-- The instances have the same bits, up to the order of pins. -/
def Instance.SameBits (i j : Instance) : Prop := i.signals.agree j.signals = true

theorem Instance.sameBits_iff {i j : Instance} : i.SameBits j ↔ ¬ i.Differs j := by
  unfold SameBits Differs
  rw [Signals.agree_iff]
  push Not
  rfl

/-! ## No change, no flag -/

/-- Outputs that read as if they had just been driven need not be driven again. -/
theorem isDriven_of_get? {s : Signals} {bit : Bool}
    (h : ∀ pin, s.outputs.get? pin = (outOnly bit).get? pin) : s.isDriven bit = true := by
  refine Signals.isDriven_iff.2 ⟨?_, ?_⟩
  · exact (NameMap.agree_iff.1 (NameMap.agree_iff_get?.2 h)).1
  · rw [Signals.output, h]
    simp

/-- Inputs that read the same after new ones were taken are the new ones, in some order. -/
theorem agree_of_get?_receive {s : Signals}
    (h : ∀ pin, s.inputs.get? pin = (s.receive inputs).inputs.get? pin) :
    s.inputs.agree inputs = true := by
  refine NameMap.agree_iff_get?.2 fun pin => (h pin).trans ?_
  exact NameMap.agree_iff_get?.1 (s.agree_receive inputs) pin

/-- A pass over a chip without parts that leaves it the same bits tells that nothing changed. -/
theorem quiet_of_sameBits {i : Instance} (hleaf : i.isComposite = false)
    (h : i.SameBits (i.pass catalog inputs).1) : (i.pass catalog inputs).2 = false := by
  obtain ⟨part, expanded, s, body⟩ := i
  cases body with
  | composite => exact absurd hleaf (by simp [Instance.isComposite])
  | unknown =>
    rw [pass_unknown] at h
    obtain ⟨hvalue, -, hinputs, houtputs⟩ := Signals.agree_iff.1 h
    exact quiet_unknown.2 ⟨agree_of_get?_receive hinputs, isDriven_of_get? houtputs, hvalue⟩
  | primitive kind =>
    rw [pass_primitive] at h
    obtain ⟨hvalue, hnext, hinputs, houtputs⟩ := Signals.agree_iff.1 h
    by_cases hk : kind = .dff
    · subst hk
      have hagree : s.inputs.agree inputs = true := agree_of_get?_receive hinputs
      rw [Signals.receive_of_agree hagree] at hnext
      exact quiet_flipFlop.2 ⟨hagree, hnext⟩
    · rw [compute_gate hk] at hvalue hinputs houtputs
      have hagree : s.inputs.agree inputs = true := agree_of_get?_receive hinputs
      rw [Signals.receive_of_agree hagree] at hvalue houtputs
      have hdriven : s.isDriven s.value = true := by
        rw [show s.value = _ from hvalue]
        exact isDriven_of_get? houtputs
      exact (quiet_gate hk).2 ⟨hagree, hdriven, hvalue⟩

/-- A pass over a scope that leaves the same bits at every depth tells that nothing changed, if a
pass over any of its instances does. -/
theorem scope_quiet_of_corresponds {s t : Scope}
    (hpass : ∀ i ∈ s.instances, ∀ inputs,
      i.Corresponds Instance.SameBits (i.pass catalog inputs).1 →
        (i.pass catalog inputs).2 = false)
    (ht : t.instances = (passAll catalog s.wires s.inherited s.instances).1)
    (h : s.Corresponds Instance.SameBits t) :
    (passAll catalog s.wires s.inherited s.instances).2 = false := by
  refine quiet_iff.2 fun k i hi => ?_
  have hafter : (passAll catalog s.wires s.inherited s.instances).1[k]? = _ := passAll_spec hi
  rw [← ht] at hafter
  rw [← ht]
  exact hpass i (List.mem_of_getElem? hi) _ (h.getElem? hi hafter)

theorem Instance.quiet_of_corresponds (i : Instance) : ∀ inputs,
    i.Corresponds SameBits (i.pass catalog inputs).1 → (i.pass catalog inputs).2 = false := by
  induction i using Instance.induct with
  | leaf i hleaf => exact fun inputs h => quiet_of_sameBits hleaf h.1
  | composite part expanded s parts inner ih =>
    rintro inputs ⟨hbits, hparts⟩
    rw [pass_composite] at hbits hparts
    obtain ⟨hvalue, -, hinputs, houtputs⟩ := Signals.agree_iff.1 hbits
    have hagree : s.inputs.agree inputs = true := agree_of_get?_receive hinputs
    rw [Signals.receive_of_agree hagree] at hvalue houtputs hparts
    refine quiet_composite.2 ⟨hagree, ?_, fun e he => ?_, fun id hid => ?_⟩
    · -- the parts have been passed under the inputs that the chip had before
      cases hparts with
      | some hparts =>
        exact scope_quiet_of_corresponds (s := ⟨parts, inner, s.inputs⟩) ih rfl hparts
    · rw [houtputs, Signals.get?_publish, NameMap.get?_eq_some_iff.2 he]
      rfl
    · rw [hvalue]
      simp only [Signals.publish, hid]

/-- **A pass that leaves the same bits at every depth tells that nothing changed**, of any
circuit. -/
theorem Scope.quiet_of_corresponds {s t : Scope}
    (ht : t.instances = (passAll catalog s.wires s.inherited s.instances).1)
    (h : s.Corresponds Instance.SameBits t) :
    (passAll catalog s.wires s.inherited s.instances).2 = false :=
  scope_quiet_of_corresponds (fun i _ => i.quiet_of_corresponds) ht h

/-! ## Circuits as they evolve -/

/-- One step of a circuit: a pass over it, a clock edge, one of its switches driven, one of its
chips drawn with or without its inside, or such a step inside a composite. -/
inductive Evolves : List Instance → List Instance → Prop where
  | pass (catalog : Catalog) (wires : List Wire) (inherited : Pins) (scope : List Instance) :
    Evolves scope (passAll catalog wires inherited scope).1
  | commit (scope : List Instance) : Evolves scope (commitAll scope).1
  | drive (before after : List Instance) {i : Instance} (bit : Bool) (hinput : i.isInput = true) :
    Evolves (before ++ i :: after) (before ++ i.drive bit :: after)
  | draw (before after : List Instance) (i : Instance) (expanded : Bool) :
    Evolves (before ++ i :: after) (before ++ { i with expanded } :: after)
  | inside (before after : List Instance) (part : Part) (expanded : Bool) (s : Signals)
      (inner : List Wire) {parts parts' : List Instance} (h : Evolves parts parts') :
    Evolves (before ++ ⟨part, expanded, s, .composite parts inner⟩ :: after)
      (before ++ ⟨part, expanded, s, .composite parts' inner⟩ :: after)

/-- The instances were built from some catalog and have evolved since, or they are the parts of
such an instance. -/
inductive Evolved : List Instance → Prop where
  | fresh (catalog : Catalog) (parts : List Part) : Evolved (parts.map (Instance.fresh catalog))
  | step {scope scope' : List Instance} (h : Evolved scope) (hstep : Evolves scope scope') :
    Evolved scope'
  | inside {scope : List Instance} {i : Instance} (h : Evolved scope) (hi : i ∈ scope) :
    Evolved i.parts

/-- Exchanging one instance. -/
theorem throughout_exchange {P : Instance → Prop} {before after : List Instance} {i j : Instance}
    (hij : i.Throughout P → j.Throughout P) (h : Throughout P (before ++ i :: after)) :
    Throughout P (before ++ j :: after) := by
  rw [throughout_append, throughout_cons] at h ⊢
  exact ⟨h.1, hij h.2.1, h.2.2⟩

/-- **Tidy circuits stay tidy.** -/
theorem Evolves.tidy {scope scope' : List Instance} (hstep : Evolves scope scope') :
    Throughout Instance.Tidy scope → Throughout Instance.Tidy scope' := by
  induction hstep with
  | pass catalog wires inherited scope => exact fun _ => throughout_tidy_passAll scope
  | commit scope => exact throughout_commitAll tidy_commit
  | drive before after bit hinput =>
    refine throughout_exchange fun h => ?_
    exact throughout_drive (lasting_tidy {}).drive bit hinput h
  | draw before after i expanded =>
    refine throughout_exchange fun h => ?_
    exact ⟨h.1, by rw [descendants_draw]; exact h.2⟩
  | inside before after part expanded s inner hstep ih =>
    refine throughout_exchange fun h => ?_
    rw [Instance.throughout_composite] at h ⊢
    exact ⟨trivial, ih h.2⟩

/-- **Circuits that have evolved are tidy.** -/
theorem Evolved.tidy {scope : List Instance} (h : Evolved scope) :
    Throughout Instance.Tidy scope := by
  induction h with
  | fresh catalog parts => exact throughout_fresh (lasting_tidy catalog).fresh catalog parts
  | step h hstep ih => exact hstep.tidy ih
  | @inside scope i h hi ih =>
    have hown := throughout_iff.1 ih i hi
    obtain ⟨part, expanded, s, body⟩ := i
    cases body with
    | unknown | primitive => exact throughout_nil
    | composite parts inner => exact (Instance.throughout_composite.1 hown).2

/-! ### Simulators evolve -/

/-- An update changes nothing, or one instance where it stands. -/
theorem updateInstance_split (scope : List Instance) (id : String) (f : Instance → Instance) :
    updateInstance scope id f = scope ∨ ∃ before i after, scope = before ++ i :: after ∧
      findInstance? scope id = some i ∧ updateInstance scope id f = before ++ f i :: after := by
  induction scope with
  | nil => exact Or.inl rfl
  | cons j rest ih =>
    rw [updateInstance]
    by_cases hid : j.id = id
    · refine Or.inr ⟨[], j, rest, rfl, ?_, if_pos hid⟩
      simp [findInstance?, hid]
    · have hrest : findInstance? (j :: rest) id = findInstance? rest id := by
        simp [findInstance?, hid]
      rw [if_neg hid, hrest]
      rcases ih with heq | ⟨before, i, after, rfl, hi, heq⟩
      · exact Or.inl (by rw [heq])
      · exact Or.inr ⟨j :: before, i, after, rfl, hi, by rw [heq]; rfl⟩

theorem Evolved.update {scope : List Instance} {id : String} {f : Instance → Instance}
    (h : Evolved scope) (hf : ∀ before i after, findInstance? scope id = some i →
      Evolves (before ++ i :: after) (before ++ f i :: after)) :
    Evolved (updateInstance scope id f) := by
  rcases updateInstance_split scope id f with heq | ⟨before, i, after, hscope, hi, heq⟩
  · rw [heq]
    exact h
  · have hstep := hf before i after hi
    rw [← hscope, ← heq] at hstep
    exact h.step hstep

/-- An operation lays out a circuit that has evolved, unless it restores one. -/
theorem Evolved.netlist? {sim : Simulator} {c : Command} {netlist : Netlist}
    (h : Evolved sim.instances) (hc : c.restores = false)
    (hlaid : c.netlist? sim = some netlist) : Evolved netlist.instances := by
  have hbuilt : ∀ program, Evolved (Netlist.ofProgram sim.catalog program).instances := by
    intro program
    rw [← map_fresh_parts]
    exact .fresh _ _
  cases c with
  | restore saved => exact absurd hc (by simp [Command.restores])
  | expand id expanded => exact absurd hlaid (by simp [Command.netlist?])
  | assemble | assembleProgram =>
    cases hlaid
    exact hbuilt _
  | tick =>
    cases hlaid
    exact h.step (.commit _)
  | settle =>
    cases hlaid
    exact h
  | toggle id =>
    obtain ⟨i, hi, rfl⟩ := Option.map_eq_some_iff.1 hlaid
    have htoggle : toggleInput sim.instances id =
        updateInstance sim.instances id fun i => i.drive (!i.value) := toggleInput_of_some hi
    obtain ⟨hfound, hinput⟩ := Option.filter_eq_some_iff.1 hi
    rw [htoggle]
    refine h.update fun before j after hj => .drive before after _ ?_
    obtain rfl : j = i := Option.some.inj (hj.symm.trans hfound)
    exact hinput

theorem Evolved.exec {sim : Simulator} {c : Command} (h : Evolved sim.instances)
    (hc : c.restores = false) : Evolved (c.exec sim).instances := by
  cases hlaid : c.netlist? sim with
  | some netlist =>
    rw [instances_of_netlist? hlaid]
    exact settle_induct (P := Evolved) (fun _ hscope => hscope.step (.pass _ _ _ _)) _
      (h.netlist? hc hlaid)
  | none =>
    rcases (exec_of_not_netlist? hlaid).1 with heq | ⟨id, expanded, heq⟩
    · rw [heq]
      exact h
    · rw [heq]
      exact h.update fun before i after _ => .draw before after i expanded

/-- **Every run without a restore leaves a circuit that has evolved.** -/
theorem evolved_run (catalog : Catalog) (options : SimOptions) (commands : List Command)
    (hc : ∀ c ∈ commands, c.restores = false) :
    Evolved ((Simulator.new catalog options).run commands).instances :=
  run_induct (P := fun sim => Evolved sim.instances) commands _ (fun _ c hm h => h.exec (hc c hm))
    (.fresh catalog [])

/-! ## The flag is exact -/

/-- **The change flag is exact.** Over a circuit that was never restored, under any catalog, wires
and inputs of the enclosing chip, a pass leaves every part in its place at every depth, and it tells
that something changed iff some instance at some depth differs from what it was. -/
theorem change_flag_is_exact (catalog : Catalog) (wires : List Wire) (inherited : Pins)
    {scope : List Instance} (h : Evolved scope) :
    let before : Scope := ⟨scope, wires, inherited⟩
    let after : Scope := ⟨(passAll catalog wires inherited scope).1, wires, inherited⟩
    (∀ path k, Option.Rel (fun i j => i.part = j.part)
      (before.instanceAt? path k) (after.instanceAt? path k)) ∧
    ((passAll catalog wires inherited scope).2 = true ↔
      ∃ path k i j, before.instanceAt? path k = some i ∧ after.instanceAt? path k = some j ∧
        i.Differs j) := by
  intro before after
  have hpassed : before.Corresponds (Instance.SameHeld catalog) after :=
    corresponds_passed ⟨wires, inherited, rfl⟩
  refine ⟨fun path k => ?_, fun hflag => ?_, ?_⟩
  · exact rel_imp (fun _ _ hij => hij.1.part) (hpassed.instanceAt? path k)
  · by_contra hsame
    push Not at hsame
    have hbits : before.Corresponds Instance.SameBits after :=
      hpassed.of_places fun path k i j hi hj => Instance.sameBits_iff.2 (hsame path k i j hi hj)
    have hquiet := Scope.quiet_of_corresponds rfl hbits
    exact absurd (hflag.symm.trans hquiet) (by decide)
  · rintro ⟨path, k, i, j, hi, hj, hdiffers⟩
    rw [← Bool.not_eq_false]
    intro hquiet
    -- a quiet pass over a tidy circuit gives back the circuit itself
    have hrest : before.AtRest catalog := Scope.atRest_of_quiet h.tidy hquiet
    have hback : after.instances = before.instances := congrArg Prod.fst hrest
    rw [Scope.instanceAt?_congr hback, hi] at hj
    cases hj
    exact Instance.sameBits_iff.1 (Signals.agree_iff.2 ⟨rfl, rfl, fun _ => rfl, fun _ => rfl⟩)
      hdiffers

/-- A switch and an exclusive or: built, the switch driven high, passed before any wire is drawn,
and clocked. -/
def unwiredXor : List Instance :=
  (commitAll (passAll Standard.catalog [] ∅
    ((Instance.fresh Standard.catalog ⟨"a", "INPUT", none⟩).drive true ::
      [⟨"x", "XOR", none⟩].map (Instance.fresh Standard.catalog))).1).1

theorem evolved_unwiredXor : Evolved unwiredXor := by
  have hinput : (Instance.fresh Standard.catalog ⟨"a", "INPUT", none⟩).isInput = true := by
    decide +kernel
  have hbuilt : Evolved (switchedXor.parts.map (Instance.fresh Standard.catalog)) := .fresh _ _
  have hdriven : Evolved ((Instance.fresh Standard.catalog ⟨"a", "INPUT", none⟩).drive true ::
      [⟨"x", "XOR", none⟩].map (Instance.fresh Standard.catalog)) :=
    hbuilt.step (.drive [] _ true hinput)
  exact (hdriven.step (.pass _ _ _ _)).step (.commit _)

/-- Drawing the wire from the switch changes a bit of the exclusive or. -/
theorem change_flag_is_exact_unwiredXor :
    Evolved unwiredXor ∧
    (passAll Standard.catalog [⟨"a", none, "x", none⟩] ∅ unwiredXor).2 = true ∧
    ∃ path k i j, Scope.instanceAt? ⟨unwiredXor, [⟨"a", none, "x", none⟩], ∅⟩ path k = some i ∧
      Scope.instanceAt? ⟨(passAll Standard.catalog [⟨"a", none, "x", none⟩] ∅ unwiredXor).1,
        [⟨"a", none, "x", none⟩], ∅⟩ path k = some j ∧ i.Differs j := by
  have hflag : (passAll Standard.catalog [⟨"a", none, "x", none⟩] ∅ unwiredXor).2 = true := by
    decide +kernel
  have hexact := change_flag_is_exact Standard.catalog [⟨"a", none, "x", none⟩] ∅ evolved_unwiredXor
  exact ⟨evolved_unwiredXor, hflag, hexact.2.1 hflag⟩

end Breadboard
