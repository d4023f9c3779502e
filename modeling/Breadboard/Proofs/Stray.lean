import Breadboard.Proofs.Kept

/-!
# What a pass does not notice

To tell whether a chip drives its bit already, a pass only counts the chip's outputs and looks at
`OUT`. A chip with a single output of another name, such as a snapshot may give it, passes for one
that drives low: the pass puts a low `OUT` in place of that output and tells that nothing changed.
If the output was high (`Instance.strayPin?`) and was read before its chip had its turn, the reader
is left with a bit that is no longer there (`Scope.ReadsStray`).

* `read_of_quiet`: a pass that tells that nothing changed has changed what a chip reads on its stray
  pin, and on no other;
* **`atRest_passAll_iff`**: after a pass that tells that nothing changed, a scope is at rest iff no
  stray output was read in it, at any depth;
* `atRest_settle_iff`: the same of a settling that converges.
-/

namespace Breadboard

variable {catalog : Catalog} {wires : List Wire} {inherited inputs : Pins}

/-! ## Stray outputs -/

/-- The single output of a chip, if it is high and not `OUT`. Only chips that a pass drives anew can
have one: no composite and no flip-flop. -/
def Instance.strayPin? (i : Instance) : Option String :=
  match i.body with
  | .composite .. | .primitive .dff => none
  | _ =>
    match i.signals.outputs.entries with
    | [(pin, true)] => if pin = outPin then none else some pin
    | _ => none

/-- When the turn of the `k`-th instance comes, the wire delivers a stray output: its source is that
instance or a later one. -/
def Scope.DeliversStray (s : Scope) (k : Nat) (wire : Wire) : Prop :=
  ∃ j source stray, seat? s.instances wire.source = some j ∧ k ≤ j ∧
    s.instances[j]? = some source ∧ wire.sourcePin = some stray ∧ source.strayPin? = some stray

/-- Some instance takes an input from a wire that delivers a stray output. -/
def Scope.ReadsStray (catalog : Catalog) (s : Scope) : Prop :=
  ∃ k target pin wire, s.instances[k]? = some target ∧
    lastWire? (assignPins (catalog.inputsOf (Instance.chip target)) s.wires target.id) pin =
      some wire ∧ s.DeliversStray k wire

/-- A stray output is read in the scope or inside it, at any depth. -/
def Scope.ReadsStrayInside (catalog : Catalog) (s : Scope) : Prop :=
  ∃ t, s.Holds t ∧ t.ReadsStray catalog

/-- A stray output is read inside the instance. -/
def Instance.HidesStray (catalog : Catalog) (i : Instance) : Prop :=
  ∃ parts wires, i.body = .composite parts wires ∧
    Scope.ReadsStrayInside catalog ⟨parts, wires, i.signals.inputs⟩

theorem readsStrayInside_iff {s : Scope} :
    s.ReadsStrayInside catalog ↔
      s.ReadsStray catalog ∨ ∃ i ∈ s.instances, i.HidesStray catalog := by
  constructor
  · rintro ⟨t, hst, ht⟩
    cases hst with
    | refl => exact Or.inl ht
    | inside hi hin => exact Or.inr ⟨_, hi, _, _, rfl, t, hin, ht⟩
  · rintro (h | ⟨⟨part, expanded, signals, body⟩, hi, parts, inner, rfl, t, hin, ht⟩)
    · exact ⟨s, .refl s, h⟩
    · exact ⟨t, .inside hi hin, ht⟩

/-- The stray pin of a chip that a pass drives anew and that has a single output. -/
theorem strayPin?_of_entries {i : Instance} (hleaf : i.isComposite = false)
    (hdff : i.body ≠ .primitive .dff) {pin : String} {bit : Bool}
    (h : i.signals.outputs.entries = [(pin, bit)]) :
    i.strayPin? = if bit = true ∧ pin ≠ outPin then some pin else none := by
  have single : (match i.signals.outputs.entries with
      | [(pin, true)] => if pin = outPin then none else some pin
      | _ => none) = if bit = true ∧ pin ≠ outPin then some pin else none := by
    rw [h]
    cases bit <;> simp
  unfold Instance.strayPin?
  split
  · rename_i parts inner hbody
    exact absurd hleaf (by simp [Instance.isComposite, hbody])
  · rename_i hbody
    exact absurd hbody hdff
  · exact single

/-- Tidy chips have no stray outputs. -/
theorem Instance.Tidy.strayPin? {i : Instance} (h : i.Tidy) : i.strayPin? = none := by
  obtain ⟨part, expanded, s, body⟩ := i
  have leaf : (s.outputs.size = 1 → ∃ bit, s.outputs.get? outPin = some bit) →
      (match s.outputs.entries with
        | [(pin, true)] => if pin = outPin then none else some pin
        | _ => none) = none := by
    intro htidy
    split
    · rename_i pin heq
      obtain ⟨bit, hbit⟩ := htidy (by unfold NameMap.size; rw [heq]; rfl)
      have hm := NameMap.get?_eq_some_iff.1 hbit
      rw [heq, List.mem_singleton] at hm
      exact if_pos (congrArg Prod.fst hm).symm
    · rfl
  cases body with
  | composite parts inner => rfl
  | unknown => exact leaf h
  | primitive kind =>
    cases kind with
    | dff => rfl
    | input | and | or | nand | not | xor => exact leaf h

/-- No stray output is read where all chips are tidy. -/
theorem not_readsStrayInside_of_tidy {s : Scope} (h : Throughout Instance.Tidy s.instances) :
    ¬s.ReadsStrayInside catalog := by
  rintro ⟨t, hst, k, target, pin, wire, -, -, j, source, stray, -, -, hj, -, hstray⟩
  have htidy := throughout_iff.1 (h.holds hst) source (List.mem_of_getElem? hj)
  rw [htidy.1.strayPin?] at hstray
  exact absurd hstray (by simp)

/-! ## One instance in a pass that tells that nothing changed -/

/-- The outputs that pass for a driven bit: `OUT` alone, or any other pin alone for a low bit. -/
theorem outputs_of_isDriven {s : Signals} {bit : Bool} (h : s.isDriven bit = true) :
    s.outputs = outOnly bit ∨
      ∃ pin b, pin ≠ outPin ∧ s.outputs.entries = [(pin, b)] ∧ bit = false := by
  obtain ⟨hsize, hout⟩ := Signals.isDriven_iff.1 h
  obtain ⟨⟨pin, b⟩, he⟩ := List.length_eq_one_iff.1 hsize
  by_cases hpin : pin = outPin
  · left
    subst hpin
    have hget : s.outputs.get? outPin = some b :=
      NameMap.get?_eq_some_iff.2 (by rw [he]; exact List.mem_singleton.2 rfl)
    have hb : b = bit := by
      rw [← hout, Signals.output, hget]
      rfl
    exact NameMap.ext_entries (by rw [he, hb]; rfl)
  · right
    refine ⟨pin, b, hpin, he, ?_⟩
    have hget : s.outputs.get? outPin = none := by
      unfold NameMap.get?
      rw [he]
      simp [NameMap.find?, hpin]
    rw [← hout, Signals.output, hget]
    rfl

/-- What such a pass leaves of a chip without parts that is no flip-flop. -/
theorem pass_of_quiet_leaf {i : Instance} (hleaf : i.isComposite = false)
    (hdff : i.body ≠ .primitive .dff) (h : (i.pass catalog inputs).2 = false) :
    (i.pass catalog inputs).1 = i.drive i.value ∧ i.signals.isDriven i.value = true := by
  obtain ⟨part, expanded, s, body⟩ := i
  have hag := agree_of_quiet h
  cases body with
  | composite parts inner => exact absurd hleaf (by simp [Instance.isComposite])
  | unknown =>
    obtain ⟨-, hdriven, hvalue⟩ := quiet_unknown.1 h
    rw [pass_unknown, Signals.receive_of_agree hag, ← hvalue]
    refine ⟨rfl, ?_⟩
    change s.isDriven s.value = true
    rw [hvalue]
    exact hdriven
  | primitive kind =>
    have hk : kind ≠ .dff := fun heq => hdff (heq ▸ rfl)
    obtain ⟨-, hdriven, hvalue⟩ := (quiet_gate hk).1 h
    rw [pass_primitive, Signals.receive_of_agree hag, compute_gate hk, ← hvalue]
    exact ⟨rfl, hdriven⟩

/-- What such a pass leaves of a flip-flop. -/
theorem pass_of_quiet_flipFlop {i : Instance} (hdff : i.body = .primitive .dff)
    (h : (i.pass catalog inputs).2 = false) : (i.pass catalog inputs).1 = i := by
  obtain ⟨part, expanded, s, body⟩ := i
  cases hdff
  exact congrArg Prod.fst (atRest_flipFlop.2 (quiet_flipFlop.1 h))

/-- What such a pass leaves of a composite. -/
theorem pass_of_quiet_composite {part : Part} {expanded : Bool} {s : Signals}
    {parts : List Instance} {inner : List Wire}
    (h : (Instance.pass catalog inputs ⟨part, expanded, s, .composite parts inner⟩).2 = false) :
    (Instance.pass catalog inputs ⟨part, expanded, s, .composite parts inner⟩).1 =
      ⟨part, expanded, s, .composite (passAll catalog inner s.inputs parts).1 inner⟩ := by
  obtain ⟨hag, -, hpublished, hmain⟩ := quiet_composite.1 h
  rw [pass_composite, Signals.receive_of_agree hag, publish_eq_self hpublished hmain]

/-- To drive a chip anew that passes for a driven one changes what is read on its stray pin, and on
no other. -/
theorem read_drive_ne_iff {i : Instance} (hleaf : i.isComposite = false)
    (hdff : i.body ≠ .primitive .dff) (hdriven : i.signals.isDriven i.value = true)
    (pin : Option String) :
    (i.drive i.value).read pin ≠ i.read pin ↔
      ∃ stray, pin = some stray ∧ i.strayPin? = some stray := by
  cases pin with
  | none => simp [Instance.read, Instance.value, Instance.drive]
  | some pin =>
    change ((outOnly i.value).get? pin).getD false ≠ (i.signals.outputs.get? pin).getD false ↔ _
    rcases outputs_of_isDriven hdriven with hout | ⟨q, bit, hq, hentries, hlow⟩
    · rw [strayPin?_of_entries hleaf hdff (congrArg NameMap.entries hout), hout]
      simp
    · rw [strayPin?_of_entries hleaf hdff hentries, hlow]
      have hget : i.signals.outputs.get? pin = if q = pin then some bit else none := by
        unfold NameMap.get?
        rw [hentries]
        simp [NameMap.find?]
      have hnow : ((outOnly false).get? pin).getD false = false := by
        rw [get?_outOnly]
        split <;> rfl
      rw [hget, hnow]
      by_cases hpin : q = pin
      · subst hpin
        cases bit <;> simp [hq]
      · rw [if_neg hpin]
        refine ⟨fun hne => absurd rfl hne, ?_⟩
        rintro ⟨stray, hstray, hq'⟩
        cases hstray
        split at hq'
        · exact absurd (Option.some.inj hq') hpin
        · exact absurd hq' (by simp)

/-- **A pass that tells that nothing changed** has changed what is read on the stray pin, and on no
other. -/
theorem read_of_quiet {i : Instance} (h : (i.pass catalog inputs).2 = false)
    (pin : Option String) :
    (i.pass catalog inputs).1.read pin ≠ i.read pin ↔
      ∃ stray, pin = some stray ∧ i.strayPin? = some stray := by
  by_cases hleaf : i.isComposite = true
  · obtain ⟨part, expanded, s, body⟩ := i
    cases body with
    | unknown | primitive => exact absurd hleaf (by simp [Instance.isComposite])
    | composite parts inner =>
      rw [pass_of_quiet_composite h]
      cases pin <;> simp [Instance.read, Instance.value, Instance.output, Instance.strayPin?]
  · simp only [Bool.not_eq_true] at hleaf
    by_cases hdff : i.body = .primitive .dff
    · rw [pass_of_quiet_flipFlop hdff h]
      simp [Instance.strayPin?, hdff]
    · obtain ⟨hpass, hdriven⟩ := pass_of_quiet_leaf hleaf hdff h
      rw [hpass]
      exact read_drive_ne_iff hleaf hdff hdriven pin

/-! ## A scope after such a pass -/

/-- An instance stays at rest under inputs that agree with the old ones. -/
theorem Instance.AtRest.congr {i : Instance} {inputs' : Pins} (h : i.AtRest catalog inputs)
    (hag : i.signals.inputs.agree inputs' = true) : i.AtRest catalog inputs' := by
  obtain ⟨part, expanded, s, body⟩ := i
  cases body with
  | unknown => exact atRest_unknown.2 ⟨hag, (atRest_unknown.1 h).2⟩
  | composite parts inner => exact atRest_composite.2 ⟨hag, (atRest_composite.1 h).2⟩
  | primitive kind =>
    by_cases hk : kind = .dff
    · subst hk
      exact atRest_flipFlop.2 ⟨hag, (atRest_flipFlop.1 h).2⟩
    · exact (atRest_gate hk).2 ⟨hag, ((atRest_gate hk).1 h).2⟩

/-- Such a pass leaves the inputs alone. -/
theorem inputs_of_quiet {i : Instance} (h : (i.pass catalog inputs).2 = false) :
    (i.pass catalog inputs).1.signals.inputs = i.signals.inputs := by
  by_cases hleaf : i.isComposite = true
  · obtain ⟨part, expanded, s, body⟩ := i
    cases body with
    | unknown | primitive => exact absurd hleaf (by simp [Instance.isComposite])
    | composite parts inner => rw [pass_of_quiet_composite h]
  · simp only [Bool.not_eq_true] at hleaf
    by_cases hdff : i.body = .primitive .dff
    · rw [pass_of_quiet_flipFlop hdff h]
    · rw [(pass_of_quiet_leaf hleaf hdff h).1]
      rfl

/-- A wire read during such a pass still reads the same after it, unless it read a stray output. -/
theorem read_midway_ne_iff {s : Scope}
    (hquiet : (passAll catalog s.wires s.inherited s.instances).2 = false) {k : Nat}
    (hk : k ≤ s.instances.length) (wire : Wire) :
    wire.read (midway s.instances (passAll catalog s.wires s.inherited s.instances).1 k)
        s.inherited ≠
      wire.read (passAll catalog s.wires s.inherited s.instances).1 s.inherited ↔
    s.DeliversStray k wire := by
  have hlen : k ≤ (passAll catalog s.wires s.inherited s.instances).1.length := by
    rw [length_passAll]
    exact hk
  have hids : (passAll catalog s.wires s.inherited s.instances).1.map Instance.id =
      s.instances.map Instance.id := map_id_passAll s.instances
  unfold Wire.read
  rw [findInstance?_eq_seat, findInstance?_eq_seat, seat?_congr (map_midway hids k),
    seat?_congr hids]
  unfold Scope.DeliversStray
  cases hj : seat? s.instances wire.source with
  | none => simp
  | some j =>
    obtain ⟨source, hsource, -⟩ := seat?_spec hj
    have hafter : (passAll catalog s.wires s.inherited s.instances).1[j]? = _ :=
      passAll_spec hsource
    have hown := quiet_iff.1 hquiet j source hsource
    simp only [Option.bind_some, getElem?_midway hlen, hafter]
    by_cases hjk : j < k
    · simp only [if_pos hjk]
      refine ⟨fun hne => absurd rfl hne, ?_⟩
      rintro ⟨j', source', stray, hj', hle, -⟩
      cases hj'
      exact absurd hjk (Nat.not_lt.2 hle)
    · simp only [if_neg hjk, hsource]
      rw [ne_comm]
      refine (read_of_quiet hown wire.sourcePin).trans ⟨?_, ?_⟩
      · rintro ⟨stray, hpin, hstray⟩
        exact ⟨j, source, stray, rfl, Nat.not_lt.1 hjk, hsource, hpin, hstray⟩
      · rintro ⟨j', source', stray, hj', -, hsource', hpin, hstray⟩
        cases hj'
        rw [hsource] at hsource'
        cases hsource'
        exact ⟨stray, hpin, hstray⟩

/-- **What an instance was told is still true after such a pass**, unless it was told a stray
output. -/
theorem resolveInputs_midway_iff {s : Scope}
    (hquiet : (passAll catalog s.wires s.inherited s.instances).2 = false) {k : Nat}
    (hk : k ≤ s.instances.length) (target : Part) :
    (∀ pin, (resolveInputs catalog
        (midway s.instances (passAll catalog s.wires s.inherited s.instances).1 k) s.wires
        s.inherited target).get? pin =
      (resolveInputs catalog (passAll catalog s.wires s.inherited s.instances).1 s.wires
        s.inherited target).get? pin) ↔
    ∀ pin wire,
      lastWire? (assignPins (catalog.inputsOf target.chip) s.wires target.id) pin = some wire →
        ¬s.DeliversStray k wire := by
  refine forall_congr' fun pin => ?_
  rw [get?_resolveInputs, get?_resolveInputs]
  cases lastWire? (assignPins (catalog.inputsOf target.chip) s.wires target.id) pin with
  | none => simp
  | some wire =>
    simp only [Option.map_some, Option.some.injEq, forall_eq']
    rw [← read_midway_ne_iff hquiet hk wire, not_not]

/-- One instance of a scope after such a pass: it is at rest iff it was told no stray output and
what lies inside it is at rest. -/
theorem atRest_after_iff {s : Scope}
    (hquiet : (passAll catalog s.wires s.inherited s.instances).2 = false) {k : Nat}
    {target : Instance} (hk : s.instances[k]? = some target)
    (h : ∀ inputs, (target.pass catalog inputs).2 = false →
      ((target.pass catalog inputs).1.AtRest catalog inputs ↔ ¬target.HidesStray catalog)) :
    Instance.AtRest catalog
        (resolveInputs catalog (passAll catalog s.wires s.inherited s.instances).1 s.wires
          s.inherited target.part)
        (target.passIn catalog s.wires s.inherited
          (midway s.instances (passAll catalog s.wires s.inherited s.instances).1 k)).1 ↔
      ¬target.HidesStray catalog ∧ ∀ pin wire,
        lastWire? (assignPins (catalog.inputsOf target.chip) s.wires target.id) pin = some wire →
          ¬s.DeliversStray k wire := by
  have hlen : k ≤ s.instances.length := Nat.le_of_lt (List.getElem?_eq_some_iff.1 hk).1
  have hown := quiet_iff.1 hquiet k target hk
  unfold Instance.chip Instance.id
  rw [← resolveInputs_midway_iff hquiet hlen target.part]
  unfold Instance.passIn at hown ⊢
  have hag := NameMap.agree_iff_get?.1 (agree_of_quiet hown)
  have hinputs := inputs_of_quiet hown
  constructor
  · intro hrest
    have hag' := NameMap.agree_iff_get?.1 hrest.agree
    rw [hinputs] at hag'
    refine ⟨(h _ hown).1 (hrest.congr ?_), fun pin => (hag pin).symm.trans (hag' pin)⟩
    rw [hinputs]
    exact agree_of_quiet hown
  · rintro ⟨hhides, hsame⟩
    refine ((h _ hown).2 hhides).congr ?_
    rw [hinputs]
    exact NameMap.agree_iff_get?.2 fun pin => (hag pin).trans (hsame pin)

theorem atRest_passAll_iff_of {s : Scope}
    (hquiet : (passAll catalog s.wires s.inherited s.instances).2 = false)
    (h : ∀ i ∈ s.instances, ∀ inputs, (i.pass catalog inputs).2 = false →
      ((i.pass catalog inputs).1.AtRest catalog inputs ↔ ¬i.HidesStray catalog)) :
    Scope.AtRest catalog
        ⟨(passAll catalog s.wires s.inherited s.instances).1, s.wires, s.inherited⟩ ↔
      ¬s.ReadsStrayInside catalog := by
  rw [readsStrayInside_iff, not_or, Scope.atRest_iff]
  constructor
  · intro hrest
    have hold : ∀ (k : Nat) (target : Instance), s.instances[k]? = some target → _ :=
      fun k target hk => (atRest_after_iff hquiet hk (h target (List.mem_of_getElem? hk))).1 (by
        have hown := hrest _ (List.mem_of_getElem? (passAll_spec hk))
        unfold Instance.passIn at hown ⊢
        rw [pass_part] at hown
        exact hown)
    refine ⟨?_, ?_⟩
    · rintro ⟨k, target, pin, wire, hk, hwire, hstray⟩
      exact (hold k target hk).2 pin wire hwire hstray
    · rintro ⟨i, hi, hhides⟩
      obtain ⟨k, hk⟩ := List.mem_iff_getElem?.1 hi
      exact (hold k i hk).1 hhides
  · rintro ⟨hreads, hhides⟩ i' hi'
    obtain ⟨k, hk'⟩ := List.mem_iff_getElem?.1 hi'
    have hlt : k < s.instances.length := by
      have hlt' := (List.getElem?_eq_some_iff.1 hk').1
      rwa [length_passAll] at hlt'
    have hk : s.instances[k]? = some s.instances[k] := List.getElem?_eq_getElem hlt
    have hmem := List.getElem_mem hlt
    have hrest := (atRest_after_iff hquiet hk (h _ hmem)).2
      ⟨fun hin => hhides ⟨_, hmem, hin⟩,
        fun pin wire hwire hstray => hreads ⟨k, _, pin, wire, hk, hwire, hstray⟩⟩
    rw [passAll_spec hk] at hk'
    cases hk'
    unfold Instance.passIn at hrest ⊢
    rw [pass_part]
    exact hrest

/-- One instance after such a pass: it is at rest iff no stray output was read inside it. -/
theorem atRest_pass_iff (i : Instance) : ∀ inputs, (i.pass catalog inputs).2 = false →
    ((i.pass catalog inputs).1.AtRest catalog inputs ↔ ¬i.HidesStray catalog) := by
  induction i using Instance.induct with
  | leaf i hleaf =>
    intro inputs h
    have hnone : ¬i.HidesStray catalog := by
      rintro ⟨parts, inner, hbody, -⟩
      exact absurd hleaf (by simp [Instance.isComposite, hbody])
    exact iff_of_true (atRest_pass_leaf hleaf inputs) hnone
  | composite part expanded s parts inner ih =>
    intro inputs h
    obtain ⟨hag, hinside, hpublished, hmain⟩ := quiet_composite.1 h
    have hscope := atRest_passAll_iff_of (s := ⟨parts, inner, s.inputs⟩) hinside ih
    rw [pass_of_quiet_composite h, atRest_composite]
    constructor
    · rintro ⟨-, hrest, -⟩ ⟨parts', inner', hbody, hreads⟩
      cases hbody
      exact hscope.1 hrest hreads
    · intro hhides
      exact ⟨hag, hscope.2 fun hreads => hhides ⟨parts, inner, rfl, hreads⟩, hpublished, hmain⟩

/-- **A scope after a pass that tells that nothing changed** is at rest iff no stray output was read
in it, at any depth. -/
theorem atRest_passAll_iff {s : Scope}
    (hquiet : (passAll catalog s.wires s.inherited s.instances).2 = false) :
    Scope.AtRest catalog
        ⟨(passAll catalog s.wires s.inherited s.instances).1, s.wires, s.inherited⟩ ↔
      ¬s.ReadsStrayInside catalog :=
  atRest_passAll_iff_of hquiet fun i _ => atRest_pass_iff i

/-- **A settling that converges leaves a circuit at rest**, unless it took a single pass and some
stray output was read in the circuit before. -/
theorem atRest_settle_iff {scope : List Instance} {limit : Nat}
    (h : (settle catalog wires limit scope).2.converged = true) :
    Scope.AtRest catalog ⟨(settle catalog wires limit scope).1, wires, ∅⟩ ↔
      ¬((settle catalog wires limit scope).2.passes = 1 ∧
        Scope.ReadsStrayInside catalog ⟨scope, wires, ∅⟩) := by
  by_cases hpasses : (settle catalog wires limit scope).2.passes = 1
  · have hone : (settle catalog wires limit scope).2 = ⟨1, true⟩ := by
      rw [← hpasses, ← h]
    obtain ⟨hquiet, heq⟩ := settle_of_one_pass hone
    have hiff := @atRest_passAll_iff catalog ⟨scope, wires, ∅⟩ hquiet
    rw [heq]
    exact hiff.trans (not_congr ⟨fun hreads => ⟨hpasses, hreads⟩, And.right⟩)
  · refine iff_of_true (atRest_of_converged h (Or.inr hpasses)) ?_
    exact fun hstray => hpasses hstray.1

end Breadboard
