import Breadboard.Proofs.Place
import Breadboard.Proofs.Plain

/-!
# What no pass writes

A pass computes nearly every bit of a circuit anew. It leaves alone the bits of switches and
flip-flops and the outputs of flip-flops, which are the sources of the circuit, and also a residue
in its composites: a main output whose pin map names no main part, and outputs that its pin map does
not name. Two instances hold the same if they have the same sources and the same residue.

* `Instance.SameSource`, `Instance.SameResidue`, `Instance.SameHeld`: the same in two instances;
* `Scope.PlainAlike.corresponds`: plain circuits that keep the same hold the same;
* `sameHeld_pass`, `corresponds_settle`: a pass, and so settling, leaves it alone at every place.
-/

namespace Breadboard

variable {catalog : Catalog} {wires : List Wire} {inherited inputs : Pins}

/-- The instances are of one part and kind, drawn alike, and hold the same bits as far as these wait
for a toggle or for the clock. -/
structure Instance.SameSource (i j : Instance) : Prop where
  part : i.part = j.part
  expanded : i.expanded = j.expanded
  body : i.body.hollow = j.body.hollow
  next : i.isFlipFlop = false → i.next = j.next
  value : i.isStored = true → i.value = j.value
  outputs : i.isFlipFlop = true →
    ∀ pin, i.signals.outputs.get? pin = j.signals.outputs.get? pin

/-- If they are composites, they have the same main output unless their pin map names a main part,
and the same outputs but for those that their pin map names. -/
structure Instance.SameResidue (catalog : Catalog) (i j : Instance) : Prop where
  main : i.isComposite = true → (catalog.pinMapOf i.chip).main = none → i.value = j.value
  unmapped : i.isComposite = true →
    ∀ pin, (catalog.pinMapOf i.chip).outputs.get? pin = none →
      i.signals.outputs.get? pin = j.signals.outputs.get? pin

/-- The instances hold the same. -/
def Instance.SameHeld (catalog : Catalog) (i j : Instance) : Prop :=
  i.SameSource j ∧ i.SameResidue catalog j

section Equivalence

variable {i j k : Instance}

theorem isStored_of_hollow (h : j.body.hollow = i.body.hollow) : j.isStored = i.isStored := by
  obtain ⟨part, expanded, s, body⟩ := i
  obtain ⟨part', expanded', s', body'⟩ := j
  cases body <;> cases body' <;> simp_all [Body.hollow, Instance.isStored]

theorem isComposite_of_hollow (h : j.body.hollow = i.body.hollow) :
    j.isComposite = i.isComposite := by
  obtain ⟨part, expanded, s, body⟩ := i
  obtain ⟨part', expanded', s', body'⟩ := j
  cases body <;> cases body' <;> simp_all [Body.hollow, Instance.isComposite]

/-- What is computed is no source. -/
theorem Instance.SameSource.of_computed (hstored : i.isStored = false) (hpart : i.part = j.part)
    (hexpanded : i.expanded = j.expanded) (hbody : i.body.hollow = j.body.hollow)
    (hnext : i.next = j.next) : i.SameSource j := by
  refine ⟨hpart, hexpanded, hbody, fun _ => hnext, fun hs => ?_, fun hf => ?_⟩
  · exact absurd (hstored.symm.trans hs) Bool.false_ne_true
  · exact absurd (hstored.symm.trans (isStored_of_isFlipFlop hf)) Bool.false_ne_true

/-- A chip without parts has no residue. -/
theorem Instance.SameResidue.of_leaf (hleaf : i.isComposite = false) : i.SameResidue catalog j :=
  ⟨fun hc => absurd (hleaf.symm.trans hc) Bool.false_ne_true,
    fun hc => absurd (hleaf.symm.trans hc) Bool.false_ne_true⟩

theorem Instance.SameSource.refl (i : Instance) : i.SameSource i :=
  ⟨rfl, rfl, rfl, fun _ => rfl, fun _ => rfl, fun _ _ => rfl⟩

theorem Instance.SameSource.symm (h : i.SameSource j) : j.SameSource i := by
  refine ⟨h.part.symm, h.expanded.symm, h.body.symm, fun hf => ?_, fun hs => ?_, fun hf pin => ?_⟩
  · exact (h.next (isFlipFlop_of_hollow h.body ▸ hf)).symm
  · exact (h.value (isStored_of_hollow h.body ▸ hs)).symm
  · exact (h.outputs (isFlipFlop_of_hollow h.body ▸ hf) pin).symm

theorem Instance.SameSource.trans (h : i.SameSource j) (h' : j.SameSource k) : i.SameSource k := by
  refine ⟨h.part.trans h'.part, h.expanded.trans h'.expanded, h.body.trans h'.body, fun hf => ?_,
    fun hs => ?_, fun hf pin => ?_⟩
  · exact (h.next hf).trans (h'.next (isFlipFlop_of_hollow h.body ▸ hf))
  · exact (h.value hs).trans (h'.value (isStored_of_hollow h.body ▸ hs))
  · exact (h.outputs hf pin).trans (h'.outputs (isFlipFlop_of_hollow h.body ▸ hf) pin)

theorem Instance.SameHeld.refl (catalog : Catalog) (i : Instance) : i.SameHeld catalog i :=
  ⟨.refl i, fun _ _ => rfl, fun _ _ _ => rfl⟩

theorem Instance.SameHeld.symm (h : i.SameHeld catalog j) : j.SameHeld catalog i := by
  obtain ⟨hsource, hmain, hunmapped⟩ := h
  have hchip : i.chip = j.chip := congrArg Part.chip hsource.part
  have hkind := isComposite_of_hollow hsource.body
  refine ⟨hsource.symm, fun hc hm => ?_, fun hc pin hpin => ?_⟩
  · rw [← hchip] at hm
    exact (hmain (hkind ▸ hc) hm).symm
  · rw [← hchip] at hpin
    exact (hunmapped (hkind ▸ hc) pin hpin).symm

theorem Instance.SameHeld.trans (h : i.SameHeld catalog j) (h' : j.SameHeld catalog k) :
    i.SameHeld catalog k := by
  obtain ⟨hsource, hmain, hunmapped⟩ := h
  obtain ⟨hsource', hmain', hunmapped'⟩ := h'
  have hchip : i.chip = j.chip := congrArg Part.chip hsource.part
  have hkind := isComposite_of_hollow hsource.body
  refine ⟨hsource.trans hsource', fun hc hm => ?_, fun hc pin hpin => ?_⟩
  · refine (hmain hc hm).trans (hmain' (hkind ▸ hc) ?_)
    rw [← hchip]
    exact hm
  · refine (hunmapped hc pin hpin).trans (hunmapped' (hkind ▸ hc) pin ?_)
    rw [← hchip]
    exact hpin

end Equivalence

section Kinds

variable {part : Part} {expanded : Bool} {s : Signals} {j : Instance}

theorem Instance.SameSource.eq_unknown (h : Instance.SameSource ⟨part, expanded, s, .unknown⟩ j) :
    ∃ s', j = ⟨part, expanded, s', .unknown⟩ := by
  obtain ⟨part', expanded', s', body⟩ := j
  obtain rfl : part = part' := h.part
  obtain rfl : expanded = expanded' := h.expanded
  cases body with
  | unknown => exact ⟨s', rfl⟩
  | primitive | composite => exact absurd h.body (by simp [Body.hollow])

theorem Instance.SameSource.eq_primitive {kind : PrimitiveKind}
    (h : Instance.SameSource ⟨part, expanded, s, .primitive kind⟩ j) :
    ∃ s', j = ⟨part, expanded, s', .primitive kind⟩ := by
  obtain ⟨part', expanded', s', body⟩ := j
  obtain rfl : part = part' := h.part
  obtain rfl : expanded = expanded' := h.expanded
  have hbody := h.body
  cases body with
  | unknown | composite => exact absurd hbody (by simp [Body.hollow])
  | primitive kind' =>
    cases hbody
    exact ⟨s', rfl⟩

theorem Instance.SameSource.eq_composite {parts : List Instance} {inner : List Wire}
    (h : Instance.SameSource ⟨part, expanded, s, .composite parts inner⟩ j) :
    ∃ s' parts', j = ⟨part, expanded, s', .composite parts' inner⟩ := by
  obtain ⟨part', expanded', s', body⟩ := j
  obtain rfl : part = part' := h.part
  obtain rfl : expanded = expanded' := h.expanded
  have hbody := h.body
  cases body with
  | unknown | primitive => exact absurd hbody (by simp [Body.hollow])
  | composite parts' inner' =>
    cases hbody
    exact ⟨s', parts', rfl⟩

end Kinds

/-! ## Plain circuits -/

theorem sameSource_of_kept {i j : Instance} (h : i.kept = j.kept) : i.SameSource j := by
  obtain ⟨part, expanded, s, body⟩ := j
  cases body with
  | unknown =>
    obtain ⟨s', rfl, hnext⟩ := kept_eq_unknown h
    exact .of_computed rfl rfl rfl rfl hnext
  | composite parts inner =>
    obtain ⟨s', parts', rfl, -⟩ := kept_eq_composite h
    rw [kept_composite, kept_composite] at h
    exact .of_computed rfl rfl rfl rfl (congrArg (fun k => k.signals.next) h)
  | primitive kind =>
    obtain ⟨s', rfl, hstored⟩ := kept_eq_primitive h
    refine ⟨rfl, rfl, rfl, fun hf => ?_, fun hs => value_of_kept hs h, fun hf pin => ?_⟩
    · have hnext := congrArg Signals.next hstored
      cases kind with
      | dff => exact absurd hf (by simp [Instance.isFlipFlop])
      | input | and | or | nand | not | xor => exact hnext
    · have houtputs := congrArg (fun k : Signals => k.outputs.get? pin) hstored
      cases body_of_isFlipFlop hf
      exact houtputs

/-- **Plain instances that keep the same hold the same**: a plain composite has no residue. -/
theorem sameHeld_of_kept {i j : Instance} (h : i.kept = j.kept) (hplain : i.Plain catalog)
    (hplain' : j.Plain catalog) : i.SameHeld catalog j := by
  have hsource := sameSource_of_kept h
  have hchip : i.chip = j.chip := congrArg Part.chip hsource.part
  have hkind : i.isComposite = j.isComposite := isComposite_of_hollow hsource.body
  refine ⟨hsource, fun hc hm => ?_, fun hc pin hpin => ?_⟩
  · rw [hplain.main hc hm, hplain'.main (hkind ▸ hc) (hchip ▸ hm)]
  · rw [hplain.unmapped hc hpin, hplain'.unmapped (hkind ▸ hc) (hchip ▸ hpin)]

/-- Two scopes are plain and keep the same. -/
structure Scope.PlainAlike (catalog : Catalog) (s t : Scope) : Prop where
  kept : keptAll s.instances = keptAll t.instances
  plain : Throughout (Instance.Plain catalog) s.instances
  plain' : Throughout (Instance.Plain catalog) t.instances

theorem Scope.PlainAlike.getElem? {s t : Scope} (h : s.PlainAlike catalog t) (k : Nat) :
    Option.Rel (fun i j => i.kept = j.kept ∧ i.Throughout (Instance.Plain catalog) ∧
      j.Throughout (Instance.Plain catalog)) (s.instances[k]?) (t.instances[k]?) := by
  have hkept := h.kept
  rw [keptAll_eq_map, keptAll_eq_map] at hkept
  refine rel_imp (fun i j hij => ?_) (getElem?_rel_of_map_eq hkept k)
  exact ⟨hij.2.2, throughout_iff.1 h.plain i hij.1, throughout_iff.1 h.plain' j hij.2.1⟩

theorem inside?_of_plain {i j : Instance} (h : i.kept = j.kept)
    (hplain : i.Throughout (Instance.Plain catalog))
    (hplain' : j.Throughout (Instance.Plain catalog)) :
    Option.Rel (Scope.PlainAlike catalog) i.inside? j.inside? := by
  obtain ⟨part, expanded, s, body⟩ := j
  cases body with
  | unknown =>
    obtain ⟨s', rfl, -⟩ := kept_eq_unknown h
    exact .none
  | primitive kind =>
    obtain ⟨s', rfl, -⟩ := kept_eq_primitive h
    exact .none
  | composite parts inner =>
    obtain ⟨s', parts', rfl, hparts⟩ := kept_eq_composite h
    rw [Instance.throughout_composite] at hplain hplain'
    exact .some ⟨hparts, hplain.2, hplain'.2⟩

/-- **Plain circuits that keep the same hold the same** at every place. -/
theorem Scope.PlainAlike.corresponds {s t : Scope} (h : s.PlainAlike catalog t) :
    s.Corresponds (Instance.SameHeld catalog) t := by
  refine Scope.corresponds_of (fun u v huv k => ?_) (fun u v huv k => ?_) h
  · exact rel_imp (fun _ _ hij => sameHeld_of_kept hij.1 hij.2.1.1 hij.2.2.1) (huv.getElem? k)
  · exact rel_bind (fun _ _ hij => inside?_of_plain hij.1 hij.2.1 hij.2.2) (huv.getElem? k)

/-! ## Passes leave it alone -/

/-- **A pass over an instance changes nothing that it holds.** -/
theorem sameHeld_pass (i : Instance) (inputs : Pins) :
    i.SameHeld catalog (i.pass catalog inputs).1 := by
  refine ⟨sameSource_of_kept (kept_pass i inputs).symm, ?_⟩
  obtain ⟨part, expanded, s, body⟩ := i
  cases body with
  | unknown | primitive => exact .of_leaf rfl
  | composite parts inner =>
    rw [pass_composite]
    refine ⟨fun _ hm => ?_, fun _ pin hpin => ?_⟩
    · simp only [Instance.chip] at hm
      simp [Instance.value, Signals.publish, hm]
    · simp only [Instance.chip] at hpin
      rw [Signals.get?_publish, hpin, Signals.receive_outputs]
      rfl

/-- One scope is the other after a pass. -/
def Scope.Passed (catalog : Catalog) (s t : Scope) : Prop :=
  ∃ wires inherited, t.instances = (passAll catalog wires inherited s.instances).1

theorem Scope.Passed.getElem? {s t : Scope} (h : s.Passed catalog t) (k : Nat) :
    Option.Rel (fun i j => ∃ inputs, j = (i.pass catalog inputs).1)
      (s.instances[k]?) (t.instances[k]?) := by
  obtain ⟨wires, inherited, heq⟩ := h
  rw [heq]
  cases hi : s.instances[k]? with
  | none =>
    rw [List.getElem?_eq_none_iff, ← length_passAll, ← List.getElem?_eq_none_iff] at hi
    rw [hi]
    exact .none
  | some i =>
    rw [passAll_spec hi]
    exact .some ⟨_, rfl⟩

/-- The inside of a composite that a pass went over has been passed. -/
theorem inside?_pass (i : Instance) (inputs : Pins) :
    Option.Rel (Scope.Passed catalog) i.inside? (i.pass catalog inputs).1.inside? := by
  obtain ⟨part, expanded, s, body⟩ := i
  cases body with
  | unknown =>
    rw [pass_unknown]
    exact .none
  | primitive kind =>
    rw [pass_primitive]
    exact .none
  | composite parts inner =>
    rw [pass_composite]
    exact .some ⟨inner, (s.receive inputs).inputs, rfl⟩

theorem corresponds_passed {s t : Scope} (h : s.Passed catalog t) :
    s.Corresponds (Instance.SameHeld catalog) t := by
  refine Scope.corresponds_of (P := Scope.Passed catalog) (fun u v huv k => ?_)
    (fun u v huv k => ?_) h
  · refine rel_imp (fun i j hij => ?_) (huv.getElem? k)
    obtain ⟨inputs, rfl⟩ := hij
    exact sameHeld_pass i inputs
  · refine rel_bind (fun i j hij => ?_) (huv.getElem? k)
    obtain ⟨inputs, rfl⟩ := hij
    exact inside?_pass i inputs

/-- **Settling changes nothing that is held**, at any place. -/
theorem corresponds_settle (limit : Nat) (s : Scope) :
    s.Corresponds (Instance.SameHeld catalog)
      ⟨(settle catalog wires limit s.instances).1, wires, inherited⟩ := by
  refine settle_induct (P := fun scope => s.Corresponds (Instance.SameHeld catalog)
    ⟨scope, wires, inherited⟩) (fun scope h => ?_) limit ?_
  · refine h.trans (corresponds_passed ⟨wires, ∅, rfl⟩) fun _ _ _ hij hjk => hij.trans hjk
  · have hself := Scope.Corresponds.refl (Instance.SameHeld.refl catalog) s
    exact Scope.corresponds_iff.2 fun k => Scope.corresponds_iff.1 hself k

end Breadboard
