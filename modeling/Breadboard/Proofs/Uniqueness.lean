import Breadboard.Proofs.Equations
import Breadboard.Proofs.Held
import Breadboard.Proofs.Level

/-!
# A circuit has at most one state at rest

In an acyclic circuit the bits that no pass writes determine all others: two circuits that hold the
same, with wires that lead the same way into every instance, agree in every field at every depth as
soon as both are at rest.

* `Signals.agree_iff`, `agreeAll_iff`: agreement, field by field and place by place;
* `agree_of_atRest`: two instances at rest under the same inputs agree;
* **`agreeAll_of_atRest_of_held`**, `agreeAll_of_atRest`: two scopes at rest agree.
-/

namespace Breadboard

variable {catalog : Catalog} {wires : List Wire} {inherited inputs : Pins}

/-! ## Agreement -/

theorem Signals.agree_iff {a b : Signals} :
    a.agree b = true ↔ a.value = b.value ∧ a.next = b.next ∧
      (∀ pin, a.inputs.get? pin = b.inputs.get? pin) ∧
      ∀ pin, a.outputs.get? pin = b.outputs.get? pin := by
  unfold Signals.agree
  rw [Bool.and_eq_true, Bool.and_eq_true, Bool.and_eq_true, beq_iff_eq, beq_iff_eq,
    NameMap.agree_iff_get?, NameMap.agree_iff_get?, and_assoc, and_assoc]

theorem agree_unknown {part : Part} {expanded : Bool} {s s' : Signals} :
    Instance.agree ⟨part, expanded, s, .unknown⟩ ⟨part, expanded, s', .unknown⟩ = true ↔
      s.agree s' = true := by
  rw [Instance.agree]
  simp

theorem agree_primitive {part : Part} {expanded : Bool} {s s' : Signals} {kind : PrimitiveKind} :
    Instance.agree ⟨part, expanded, s, .primitive kind⟩ ⟨part, expanded, s', .primitive kind⟩ =
      true ↔ s.agree s' = true := by
  rw [Instance.agree]
  simp

theorem agree_composite {part : Part} {expanded : Bool} {s s' : Signals}
    {parts parts' : List Instance} {inner : List Wire} :
    Instance.agree ⟨part, expanded, s, .composite parts inner⟩
      ⟨part, expanded, s', .composite parts' inner⟩ = true ↔
        s.agree s' = true ∧ agreeAll parts parts' = true := by
  rw [Instance.agree]
  simp

/-- Instances that agree are of one part and kind, are drawn alike and hold the same bits. -/
theorem Instance.agree_spec {i j : Instance} (h : i.agree j = true) :
    i.part = j.part ∧ i.expanded = j.expanded ∧ i.body.hollow = j.body.hollow ∧
      i.signals.agree j.signals = true := by
  obtain ⟨part, expanded, s, body⟩ := i
  obtain ⟨part', expanded', s', body'⟩ := j
  rw [Instance.agree.eq_def] at h
  simp only [Bool.and_eq_true, beq_iff_eq] at h
  obtain ⟨⟨⟨hpart, hexpanded⟩, hsignals⟩, hbody⟩ := h
  refine ⟨hpart, hexpanded, ?_, hsignals⟩
  cases body <;> cases body' <;>
    simp only [Bool.false_eq_true, Bool.and_eq_true, beq_iff_eq] at hbody
  · rfl
  · simp only [Body.hollow, hbody]
  · simp only [Body.hollow, hbody.2]

/-- Instances that agree read the same. -/
theorem Instance.read_of_agree {i j : Instance} (h : i.agree j = true) (pin : Option String) :
    i.read pin = j.read pin := by
  obtain ⟨hvalue, -, -, houtputs⟩ := Signals.agree_iff.1 (Instance.agree_spec h).2.2.2
  cases pin with
  | none => exact hvalue
  | some pin =>
    change (i.signals.outputs.get? pin).getD false = (j.signals.outputs.get? pin).getD false
    rw [houtputs]

theorem agreeAll_iff {scope : List Instance} : ∀ {scope' : List Instance},
    agreeAll scope scope' = true ↔ scope.length = scope'.length ∧
      ∀ (k : Nat) (i j : Instance), scope[k]? = some i → scope'[k]? = some j →
        i.agree j = true := by
  induction scope with
  | nil =>
    intro scope'
    cases scope' with
    | nil => simp [agreeAll]
    | cons j rest => simp [agreeAll]
  | cons i rest ih =>
    intro scope'
    cases scope' with
    | nil => simp [agreeAll]
    | cons j rest' =>
      rw [agreeAll, Bool.and_eq_true, ih]
      constructor
      · rintro ⟨hij, hlength, hrest⟩
        refine ⟨by simp [hlength], fun k a b ha hb => ?_⟩
        cases k with
        | zero =>
          cases ha
          cases hb
          exact hij
        | succ k => exact hrest k a b ha hb
      · rintro ⟨hlength, hall⟩
        refine ⟨hall 0 i j rfl rfl, by simpa using hlength, fun k a b ha hb => ?_⟩
        exact hall (k + 1) a b ha hb

theorem getElem?_rel_of_agreeAll {scope scope' : List Instance}
    (h : agreeAll scope scope' = true) (k : Nat) :
    Option.Rel (fun i j => i.agree j = true) (scope[k]?) (scope'[k]?) := by
  obtain ⟨hlength, hall⟩ := agreeAll_iff.1 h
  cases hi : scope[k]? with
  | none =>
    rw [List.getElem?_eq_none_iff, hlength, ← List.getElem?_eq_none_iff] at hi
    rw [hi]
    exact .none
  | some i =>
    obtain ⟨hk, -⟩ := List.getElem?_eq_some_iff.1 hi
    have hj := List.getElem?_eq_getElem (hlength ▸ hk)
    rw [hj]
    exact .some (hall k i _ hi hj)

/-- Scopes that agree have instances that agree as the first of an id. -/
theorem findInstance?_rel_of_agreeAll {parts parts' : List Instance}
    (hids : parts.map Instance.id = parts'.map Instance.id)
    (h : agreeAll parts parts' = true) (id : String) :
    Option.Rel (fun i j => i.agree j = true) (findInstance? parts id) (findInstance? parts' id) :=
  findInstance?_rel hids (getElem?_rel_of_agreeAll h) id

theorem Tap.read_of_agreeAll {parts parts' : List Instance}
    (hids : parts.map Instance.id = parts'.map Instance.id)
    (h : agreeAll parts parts' = true) (tap : Tap) : tap.read parts = tap.read parts' := by
  have hfind := findInstance?_rel_of_agreeAll hids h tap.id
  unfold Tap.read
  generalize findInstance? parts tap.id = found, findInstance? parts' tap.id = found' at hfind ⊢
  cases hfind with
  | none => rfl
  | @some i j hij =>
    obtain ⟨hvalue, -, -, houtputs⟩ := Signals.agree_iff.1 (Instance.agree_spec hij).2.2.2
    have hpins : i.signals.outputs.get? = j.signals.outputs.get? := funext houtputs
    simp only [hpins, Instance.value, hvalue]

theorem mainOutput_of_agreeAll {parts parts' : List Instance}
    (hids : parts.map Instance.id = parts'.map Instance.id)
    (h : agreeAll parts parts' = true) (id : String) :
    mainOutput parts id = mainOutput parts' id := by
  have hfind := findInstance?_rel_of_agreeAll hids h id
  unfold mainOutput
  generalize findInstance? parts id = found, findInstance? parts' id = found' at hfind ⊢
  cases hfind with
  | none => rfl
  | some hij => exact Instance.read_of_agree hij none

/-! ## Instances at rest -/

/-- Two primitives with the same sources, at rest under the same inputs, hold the same bits. -/
theorem agree_of_atRest_primitive {part : Part} {expanded : Bool} {s s' : Signals}
    {kind : PrimitiveKind}
    (hsource : Instance.SameSource ⟨part, expanded, s, .primitive kind⟩
      ⟨part, expanded, s', .primitive kind⟩)
    (hinputs : ∀ pin, s.inputs.get? pin = s'.inputs.get? pin)
    (h : Instance.AtRest catalog inputs ⟨part, expanded, s, .primitive kind⟩)
    (h' : Instance.AtRest catalog inputs ⟨part, expanded, s', .primitive kind⟩) :
    s.agree s' = true := by
  have hbit : ∀ n,
      s.bit (catalog.inputsOf part.chip) n = s'.bit (catalog.inputsOf part.chip) n := by
    intro n
    unfold Signals.bit
    rw [show s.inputs.get? = s'.inputs.get? from funext hinputs]
  by_cases hk : kind = .dff
  · subst hk
    have hvalue : s.value = s'.value := hsource.value rfl
    refine Signals.agree_iff.2 ⟨hvalue, ?_, hinputs, hsource.outputs rfl⟩
    rw [(atRest_flipFlop.1 h).2, (atRest_flipFlop.1 h').2, hbit]
  · obtain ⟨-, hvalue, houtputs⟩ := (atRest_gate hk).1 h
    obtain ⟨-, hvalue', houtputs'⟩ := (atRest_gate hk).1 h'
    have hnext : s.next = s'.next := by
      refine hsource.next ?_
      cases kind with
      | dff => exact absurd rfl hk
      | input | and | or | nand | not | xor => rfl
    have hsame : s.value = s'.value := by
      by_cases hinput : kind = .input
      · subst hinput
        exact hsource.value rfl
      · rw [hvalue, hvalue', hbit, hbit]
        exact evaluate_current hinput hk _ _ _ _
    refine Signals.agree_iff.2 ⟨hsame, hnext, hinputs, fun pin => ?_⟩
    rw [houtputs, houtputs', hsame]

/-- Instances at rest under the same inputs hold the same inputs. -/
theorem get?_inputs_of_atRest {i j : Instance} (h : i.AtRest catalog inputs)
    (h' : j.AtRest catalog inputs) (pin : String) :
    i.signals.inputs.get? pin = j.signals.inputs.get? pin :=
  (NameMap.agree_iff_get?.1 h.agree pin).trans (NameMap.agree_iff_get?.1 h'.agree pin).symm

/-- **Switches and flip-flops at rest with the same sources read the same**, whatever their inputs
are. -/
theorem read_of_atRest_stored {i j : Instance} {inputs' : Pins} (hsource : i.SameSource j)
    (hstored : i.isStored = true) (h : i.AtRest catalog inputs) (h' : j.AtRest catalog inputs')
    (pin : Option String) : i.read pin = j.read pin := by
  have hvalue := hsource.value hstored
  have houtputs : ∀ pin, i.signals.outputs.get? pin = j.signals.outputs.get? pin := by
    obtain ⟨part, expanded, s, body⟩ := i
    cases body with
    | unknown | composite => exact absurd hstored (by simp [Instance.isStored])
    | primitive kind =>
      obtain ⟨s', rfl⟩ := hsource.eq_primitive
      cases kind with
      | dff => exact hsource.outputs rfl
      | and | or | nand | not | xor => exact absurd hstored (by simp [Instance.isStored])
      | input =>
        intro pin
        obtain ⟨-, -, hdriven⟩ := (atRest_gate (by decide)).1 h
        obtain ⟨-, -, hdriven'⟩ := (atRest_gate (by decide)).1 h'
        change s.value = s'.value at hvalue
        change s.outputs.get? pin = s'.outputs.get? pin
        rw [hdriven, hdriven', hvalue]
  cases pin with
  | none => exact hvalue
  | some pin =>
    change (i.signals.outputs.get? pin).getD false = (j.signals.outputs.get? pin).getD false
    rw [houtputs]

/-! ## Scopes at rest -/

section Scopes

variable {s t : Scope}

/-- An instance gets the same inputs in two scopes at rest that hold the same, if all that feed it
agree. -/
theorem inputsFor_of_feeds (hheld : s.Corresponds (Instance.SameHeld catalog) t)
    (hwires : ∀ target, (s.wires.filter fun wire => wire.target == target) =
      t.wires.filter fun wire => wire.target == target)
    (hinherited : ∀ pin, s.inherited.get? pin = t.inherited.get? pin)
    (hrest : s.AtRest catalog) (hrest' : t.AtRest catalog) {k : Nat} {i : Instance}
    (hi : s.instances[k]? = some i)
    (hfeeds : ∀ n, s.Feeds n k → ∀ a b, s.instances[n]? = some a → t.instances[n]? = some b →
      a.agree b = true) :
    s.inputsFor catalog i.part = t.inputsFor catalog i.part := by
  unfold Scope.inputsFor
  have hids := hheld.map_eq fun a b hab => congrArg Part.id hab.1.part
  refine resolveInputs_congr (hwires _) fun wire hwire htarget => ?_
  refine Wire.read_congr hids hinherited fun n a b hseat ha hb => ?_
  by_cases hstored : a.isStored = true
  · -- switches and flip-flops hold what is read from them
    have hresta := Scope.atRest_iff.1 hrest a (List.mem_of_getElem? ha)
    have hrestb := Scope.atRest_iff.1 hrest' b (List.mem_of_getElem? hb)
    exact read_of_atRest_stored (hheld.getElem? ha hb).1.1 hstored hresta hrestb wire.sourcePin
  · rw [Bool.not_eq_true] at hstored
    have hfeed : s.Feeds n k := ⟨a, i, wire, ha, hi, hwire, hseat, htarget, hstored⟩
    exact Instance.read_of_agree (hfeeds n hfeed a b ha hb) wire.sourcePin

/-- Two scopes at rest agree if their instances do whenever they are at rest under the same inputs:
an instance gets the same inputs in both, because all that feed it agree. -/
theorem agreeAll_of_atRest_of (hacyclic : s.Acyclic)
    (hheld : s.Corresponds (Instance.SameHeld catalog) t)
    (hwires : ∀ target, (s.wires.filter fun wire => wire.target == target) =
      t.wires.filter fun wire => wire.target == target)
    (hinherited : ∀ pin, s.inherited.get? pin = t.inherited.get? pin)
    (hrest : s.AtRest catalog) (hrest' : t.AtRest catalog)
    (h : ∀ i ∈ s.instances, ∀ j : Instance, i.Corresponds (Instance.SameHeld catalog) j →
      ∀ inputs, i.AtRest catalog inputs → j.AtRest catalog inputs → i.agree j = true) :
    agreeAll s.instances t.instances = true := by
  have hagree : ∀ (k : Nat) (i j : Instance), s.instances[k]? = some i →
      t.instances[k]? = some j → i.agree j = true := by
    intro k
    induction k using (acyclic_iff_wellFounded.1 hacyclic).induction with
    | h k ih =>
      intro i j hi hj
      have hij := hheld.getElem? hi hj
      have hmem := List.mem_of_getElem? hi
      have hinputs := inputsFor_of_feeds hheld hwires hinherited hrest hrest' hi ih
      have hown := Scope.atRest_iff.1 hrest i hmem
      have hown' := Scope.atRest_iff.1 hrest' j (List.mem_of_getElem? hj)
      rw [← hij.1.1.part, ← hinputs] at hown'
      exact h i hmem j hij _ hown hown'
  exact agreeAll_iff.2 ⟨hheld.length_eq, hagree⟩

/-- **Two instances that hold the same agree** if they are at rest under the same inputs. -/
theorem agree_of_atRest (i : Instance) : i.AcyclicInside → ∀ j : Instance,
    i.Corresponds (Instance.SameHeld catalog) j → ∀ inputs,
      i.AtRest catalog inputs → j.AtRest catalog inputs → i.agree j = true := by
  induction i using Instance.induct with
  | leaf i hleaf =>
    intro _ j hij inputs h h'
    have hsource := hij.1.1
    have hinputs := get?_inputs_of_atRest h h'
    obtain ⟨part, expanded, s, body⟩ := i
    cases body with
    | composite => exact absurd hleaf (by simp [Instance.isComposite])
    | unknown =>
      obtain ⟨s', rfl⟩ := hsource.eq_unknown
      obtain ⟨-, hvalue, houtputs⟩ := atRest_unknown.1 h
      obtain ⟨-, hvalue', houtputs'⟩ := atRest_unknown.1 h'
      refine agree_unknown.2 (Signals.agree_iff.2 ⟨?_, hsource.next rfl, hinputs, fun pin => ?_⟩)
      · rw [hvalue, hvalue']
      · rw [houtputs, houtputs']
    | primitive kind =>
      obtain ⟨s', rfl⟩ := hsource.eq_primitive
      exact agree_primitive.2 (agree_of_atRest_primitive hsource hinputs h h')
  | composite part expanded s parts inner ih =>
    intro hacyclic j hij inputs h h'
    have hinside := hacyclic parts inner rfl
    obtain ⟨⟨hsource, hresidue⟩, hparts⟩ := hij
    obtain ⟨s', parts', rfl⟩ := hsource.eq_composite
    have hinputs : ∀ pin, s.inputs.get? pin = s'.inputs.get? pin := get?_inputs_of_atRest h h'
    obtain ⟨-, hrest, hpublished, hmain⟩ := atRest_composite.1 h
    obtain ⟨-, hrest', hpublished', hmain'⟩ := atRest_composite.1 h'
    have hheld : Scope.Corresponds (Instance.SameHeld catalog) ⟨parts, inner, s.inputs⟩
        ⟨parts', inner, s'.inputs⟩ := by
      cases hparts with
      | some hheld => exact hheld
    have hscope : Scope.AcyclicInside ⟨parts, inner, s.inputs⟩ := hinside.of_blankAll rfl rfl
    have hids := hheld.map_eq fun a b hab => congrArg Part.id hab.1.part
    have hagree : agreeAll parts parts' = true := by
      refine agreeAll_of_atRest_of (hscope _ (.refl _)) hheld (fun _ => rfl) hinputs hrest hrest' ?_
      exact fun p hp p' hpp' => ih p hp (hinside.instance hp) p' hpp'
    refine agree_composite.2
      ⟨Signals.agree_iff.2 ⟨?_, hsource.next rfl, hinputs, fun pin => ?_⟩, hagree⟩
    · cases hm : (catalog.pinMapOf part.chip).main with
      | none => exact hresidue.main rfl hm
      | some id => rw [hmain id hm, hmain' id hm, mainOutput_of_agreeAll hids hagree]
    · cases hpin : (catalog.pinMapOf part.chip).outputs.get? pin with
      | none => exact hresidue.unmapped rfl pin hpin
      | some tap =>
        have hentry := NameMap.get?_eq_some_iff.1 hpin
        rw [hpublished (pin, tap) hentry, hpublished' (pin, tap) hentry,
          Tap.read_of_agreeAll hids hagree]

/-- **A circuit has at most one state at rest**: two scopes that hold the same, whose wires lead the
same way into every instance, agree as soon as both are at rest. -/
theorem agreeAll_of_atRest_of_held (hacyclic : s.AcyclicInside)
    (hheld : s.Corresponds (Instance.SameHeld catalog) t)
    (hwires : ∀ target, (s.wires.filter fun wire => wire.target == target) =
      t.wires.filter fun wire => wire.target == target)
    (hinherited : ∀ pin, s.inherited.get? pin = t.inherited.get? pin)
    (hrest : s.AtRest catalog) (hrest' : t.AtRest catalog) :
    agreeAll s.instances t.instances = true := by
  refine agreeAll_of_atRest_of (hacyclic s (.refl s)) hheld hwires hinherited hrest hrest' ?_
  exact fun i hi j hij inputs h h' => agree_of_atRest i (hacyclic.instance hi) j hij inputs h h'

/-- Plain scopes that keep the same agree as soon as both are at rest. -/
theorem agreeAll_of_atRest (hacyclic : s.AcyclicInside)
    (hkept : keptAll s.instances = keptAll t.instances)
    (hwires : ∀ target, (s.wires.filter fun wire => wire.target == target) =
      t.wires.filter fun wire => wire.target == target)
    (hinherited : ∀ pin, s.inherited.get? pin = t.inherited.get? pin)
    (hplain : Throughout (Instance.Plain catalog) s.instances)
    (hplain' : Throughout (Instance.Plain catalog) t.instances)
    (hrest : s.AtRest catalog) (hrest' : t.AtRest catalog) :
    agreeAll s.instances t.instances = true :=
  agreeAll_of_atRest_of_held hacyclic (Scope.PlainAlike.corresponds ⟨hkept, hplain, hplain'⟩)
    hwires hinherited hrest hrest'

end Scopes

end Breadboard
