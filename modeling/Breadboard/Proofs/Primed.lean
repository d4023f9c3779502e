import Breadboard.Proofs.Command

/-!
# Flip-flops that were never clocked

A flip-flop drives nothing until the first clock edge, but one that comes back from a snapshot
drives its bit at once. `Instance.primed` is the instance after that difference: every flip-flop
without outputs, at any depth, drives its bit. In a circuit that was never restored such a bit is
low, and a low output reads like none at all. So no wire, no tap and no change flag tells a circuit
from the primed one, and everything that is done to a circuit commutes with priming it:

* `read_primedAll`, `Tap.read_primedAll`: what is read;
* `pass_primed`, `settle_primed`: passes and settlings, with their flags and reports;
* `commitAll_primed`, `updateInstance_primed`: clock edges, toggles and drawing.
-/

namespace Breadboard

/-- The signals, driving their bit if they drove nothing. -/
def Signals.primed (s : Signals) : Signals := if s.outputs.isEmpty then s.drive s.value else s

mutual

/-- The instance whose flip-flops, at every depth, drive their bits if they drove nothing. -/
def Instance.primed : Instance → Instance
  | ⟨part, expanded, s, body⟩ =>
    match body with
    | .primitive .dff => ⟨part, expanded, s.primed, .primitive .dff⟩
    | .composite parts wires => ⟨part, expanded, s, .composite (primedAll parts) wires⟩
    | body => ⟨part, expanded, s, body⟩

/-- `Instance.primed` for the instances of a scope. -/
def primedAll : List Instance → List Instance
  | [] => []
  | i :: rest => i.primed :: primedAll rest

end

variable {catalog : Catalog} {wires : List Wire} {inherited inputs : Pins}

theorem primed_flipFlop (part : Part) (expanded : Bool) (s : Signals) :
    Instance.primed ⟨part, expanded, s, .primitive .dff⟩ =
      ⟨part, expanded, s.primed, .primitive .dff⟩ := by
  rw [Instance.primed]

theorem primed_composite (part : Part) (expanded : Bool) (s : Signals) (parts : List Instance)
    (inner : List Wire) :
    Instance.primed ⟨part, expanded, s, .composite parts inner⟩ =
      ⟨part, expanded, s, .composite (primedAll parts) inner⟩ := by
  rw [Instance.primed]

/-- Every chip without parts that is no flip-flop is primed. -/
theorem primed_leaf {i : Instance} (hleaf : i.isComposite = false)
    (hk : i.body ≠ .primitive .dff) : i.primed = i := by
  obtain ⟨part, expanded, s, body⟩ := i
  cases body with
  | composite parts inner => exact absurd hleaf (by simp [Instance.isComposite])
  | unknown => simp [Instance.primed]
  | primitive kind =>
    cases kind with
    | dff => exact absurd rfl hk
    | input | and | or | nand | not | xor => simp [Instance.primed]

theorem primedAll_eq_map (scope : List Instance) : primedAll scope = scope.map Instance.primed := by
  induction scope with
  | nil => rw [primedAll]; rfl
  | cons i rest ih => rw [primedAll, ih]; rfl

namespace Signals

theorem primed_of_isEmpty {s : Signals} (h : s.outputs.isEmpty = true) :
    s.primed = s.drive s.value := if_pos h

theorem primed_of_not_isEmpty {s : Signals} (h : s.outputs.isEmpty = false) : s.primed = s := by
  unfold primed
  rw [h]
  exact if_neg Bool.false_ne_true

@[simp] theorem primed_value (s : Signals) : s.primed.value = s.value := by
  unfold primed
  split <;> rfl

@[simp] theorem primed_next (s : Signals) : s.primed.next = s.next := by
  unfold primed
  split <;> rfl

@[simp] theorem primed_inputs (s : Signals) : s.primed.inputs = s.inputs := by
  unfold primed
  split <;> rfl

@[simp] theorem primed_drive (s : Signals) (bit : Bool) : (s.drive bit).primed = s.drive bit :=
  primed_of_not_isEmpty rfl

/-- Driving overwrites what priming has done. -/
@[simp] theorem drive_primed (s : Signals) (bit : Bool) : s.primed.drive bit = s.drive bit := by
  unfold primed
  split <;> rfl

/-- What priming adds reads low, where the bit is low. -/
theorem get?_primed {s : Signals}
    (h : s.outputs = ∅ ∧ s.value = false ∨ s.outputs = outOnly s.value) (pin : String) :
    s.primed.outputs.get? pin = s.outputs.get? pin ∨
      s.primed.outputs.get? pin = some false ∧ s.outputs.get? pin = none ∧ s.value = false := by
  rcases h with ⟨hempty, hlow⟩ | hdriven
  · have hprimed : s.primed = s.drive false := by
      rw [primed_of_isEmpty (by rw [hempty]; rfl), hlow]
    rw [hprimed, hempty, drive_outputs, get?_outOnly]
    split
    · exact Or.inr ⟨rfl, rfl, hlow⟩
    · exact Or.inl rfl
  · rw [primed_of_not_isEmpty (by rw [hdriven]; rfl)]
    exact Or.inl rfl

end Signals

@[simp] theorem primed_part (i : Instance) : i.primed.part = i.part := by
  obtain ⟨part, expanded, s, body⟩ := i
  cases body with
  | unknown => rfl
  | primitive kind => cases kind <;> rfl
  | composite => rw [primed_composite]

@[simp] theorem primed_expanded (i : Instance) : i.primed.expanded = i.expanded := by
  obtain ⟨part, expanded, s, body⟩ := i
  cases body with
  | unknown => rfl
  | primitive kind => cases kind <;> rfl
  | composite => rw [primed_composite]

theorem primed_id (i : Instance) : i.primed.id = i.id := congrArg Part.id (primed_part i)

/-- Priming touches the signals of flip-flops only. -/
theorem primed_signals (i : Instance) :
    i.primed.signals = i.signals ∨
      i.body = .primitive .dff ∧ i.primed.signals = i.signals.primed := by
  obtain ⟨part, expanded, s, body⟩ := i
  cases body with
  | unknown => exact Or.inl rfl
  | composite parts inner =>
    rw [primed_composite]
    exact Or.inl rfl
  | primitive kind =>
    cases kind with
    | dff => exact Or.inr ⟨rfl, by rw [primed_flipFlop]⟩
    | input | and | or | nand | not | xor => exact Or.inl rfl

theorem primed_value (i : Instance) : i.primed.value = i.value := by
  unfold Instance.value
  rcases primed_signals i with h | ⟨-, h⟩ <;> rw [h]
  exact Signals.primed_value _

theorem blank_primed (i : Instance) : i.primed.blank = i.blank := by
  induction i using Instance.induct with
  | leaf i hleaf =>
    by_cases hk : i.body = .primitive .dff
    · obtain ⟨part, expanded, s, body⟩ := i
      cases hk
      rw [primed_flipFlop, blank_primitive, blank_primitive]
    · rw [primed_leaf hleaf hk]
  | composite part expanded s parts inner ih =>
    have hparts : blankAll (primedAll parts) = blankAll parts := by
      rw [primedAll_eq_map, blankAll_eq_map, blankAll_eq_map, List.map_map]
      exact List.map_congr_left ih
    rw [primed_composite, blank_composite, blank_composite, hparts]

/-! ## Reading -/

theorem findInstance?_primedAll (scope : List Instance) (id : String) :
    findInstance? (primedAll scope) id = (findInstance? scope id).map Instance.primed := by
  rw [primedAll_eq_map]
  exact findInstance?_map fun i _ => by rw [primed_id]

theorem Instance.Plain.get?_primed {i : Instance} (h : i.Plain catalog) (pin : String) :
    i.primed.signals.outputs.get? pin = i.signals.outputs.get? pin ∨
      i.primed.signals.outputs.get? pin = some false ∧ i.signals.outputs.get? pin = none ∧
        i.value = false := by
  rcases primed_signals i with hsame | ⟨hflip, hprimed⟩
  · rw [hsame]
    exact Or.inl rfl
  · rw [hprimed]
    unfold Instance.Plain at h
    rw [hflip] at h
    exact Signals.get?_primed h pin

/-- **A plain instance reads the same when it is primed**, on every pin. -/
theorem Instance.Plain.read_primed {i : Instance} (h : i.Plain catalog) (pin : Option String) :
    i.primed.read pin = i.read pin := by
  cases pin with
  | none => exact primed_value i
  | some pin =>
    change (i.primed.signals.outputs.get? pin).getD false = (i.signals.outputs.get? pin).getD false
    rcases h.get?_primed pin with hsame | ⟨hprimed, hnone, -⟩
    · rw [hsame]
    · rw [hprimed, hnone]
      rfl

section Read

variable {scope parts : List Instance}

theorem plain_of_findInstance? (h : ∀ i ∈ scope, i.Plain catalog) {id : String} {i : Instance}
    (hi : findInstance? scope id = some i) : i.Plain catalog :=
  h i (List.mem_of_find?_eq_some hi)

/-- **A wire reads the same in a primed scope.** -/
theorem read_primedAll (h : ∀ i ∈ scope, i.Plain catalog) (inherited : Pins) (wire : Wire) :
    wire.read (primedAll scope) inherited = wire.read scope inherited := by
  unfold Wire.read
  rw [findInstance?_primedAll]
  cases hi : findInstance? scope wire.source with
  | none => rfl
  | some i => exact (plain_of_findInstance? h hi).read_primed wire.sourcePin

/-- **A tap reads the same in a primed scope.** -/
theorem Tap.read_primedAll (h : ∀ i ∈ parts, i.Plain catalog) (tap : Tap) :
    tap.read (primedAll parts) = tap.read parts := by
  unfold Tap.read
  rw [findInstance?_primedAll]
  cases hi : findInstance? parts tap.id with
  | none => rfl
  | some i =>
    simp only [Option.map_some, primed_value]
    cases tap.pin with
    | none => rfl
    | some pin =>
      rw [Option.bind_some, Option.bind_some]
      rcases (plain_of_findInstance? h hi).get?_primed pin with hsame | ⟨hprimed, hnone, hlow⟩
      · rw [hsame]
      · rw [hprimed, hnone, hlow]
        rfl

theorem mainOutput_primedAll (parts : List Instance) (id : String) :
    mainOutput (primedAll parts) id = mainOutput parts id := by
  unfold mainOutput
  rw [findInstance?_primedAll]
  cases findInstance? parts id with
  | none => rfl
  | some i => exact primed_value i

theorem publish_primedAll (h : ∀ i ∈ parts, i.Plain catalog) (pinMap : PinMap) (s : Signals) :
    s.publish pinMap (primedAll parts) = s.publish pinMap parts := by
  unfold Signals.publish
  simp only [Tap.read_primedAll h, mainOutput_primedAll]

theorem isPublished_primedAll (h : ∀ i ∈ parts, i.Plain catalog) (pinMap : PinMap) (s : Signals) :
    s.isPublished pinMap (primedAll parts) = s.isPublished pinMap parts := by
  unfold Signals.isPublished
  simp only [Tap.read_primedAll h]

end Read

/-! ## Passing -/

/-- An instance that is primed makes the pass it would have made, and tells the same. -/
def Instance.PassesPrimed (catalog : Catalog) (i : Instance) : Prop :=
  ∀ inputs, i.primed.pass catalog inputs =
    ((i.pass catalog inputs).1.primed, (i.pass catalog inputs).2)

/-- A pass over instances that come after others, all of them primed. -/
theorem passFrom_primedAll (scope : List Instance) :
    ∀ visited : List Instance, (∀ i ∈ visited ++ scope, i.Plain catalog) →
      (∀ i ∈ scope, i.PassesPrimed catalog) →
        passFrom catalog wires inherited (primedAll visited) (primedAll scope) =
          (primedAll (passFrom catalog wires inherited visited scope).1,
            (passFrom catalog wires inherited visited scope).2) := by
  induction scope with
  | nil =>
    intro visited _ _
    simp [passFrom, primedAll]
  | cons i rest ih =>
    intro visited hplain hpass
    have happend : ∀ l l' : List Instance, primedAll l ++ primedAll l' = primedAll (l ++ l') := by
      intro l l'
      rw [primedAll_eq_map, primedAll_eq_map, primedAll_eq_map, List.map_append]
    -- the wires of the first one read the same, so it makes the same pass
    have hown :
        i.primed.passIn catalog wires inherited (primedAll visited ++ primedAll (i :: rest)) =
          ((i.passIn catalog wires inherited (visited ++ i :: rest)).1.primed,
            (i.passIn catalog wires inherited (visited ++ i :: rest)).2) := by
      have hinputs :
          resolveInputs catalog (primedAll (visited ++ i :: rest)) wires inherited i.part =
            resolveInputs catalog (visited ++ i :: rest) wires inherited i.part :=
        resolveInputs_congr rfl fun wire _ _ => read_primedAll hplain inherited wire
      unfold Instance.passIn
      rw [primed_part, happend, hinputs]
      exact hpass i List.mem_cons_self _
    have hafter : ∀ j ∈ visited ++ [(i.passIn catalog wires inherited (visited ++ i :: rest)).1] ++
        rest, j.Plain catalog := by
      intro j hj
      simp only [List.mem_append, List.mem_singleton] at hj
      rcases hj with (hj | rfl) | hj
      · exact hplain j (List.mem_append_left _ hj)
      · exact plain_pass i _ (hplain i (by simp))
      · exact hplain j (by simp [hj])
    have hrest := ih _ hafter fun j hj => hpass j (List.mem_cons_of_mem i hj)
    rw [← happend] at hrest
    rw [primedAll] at hown ⊢
    rw [passFrom_cons, passFrom_cons, hown, primedAll]
    simp only [primedAll] at hrest
    rw [hrest]

theorem passAll_primed_of {scope : List Instance} (hplain : ∀ i ∈ scope, i.Plain catalog)
    (h : ∀ i ∈ scope, i.PassesPrimed catalog) :
    passAll catalog wires inherited (primedAll scope) =
      (primedAll (passAll catalog wires inherited scope).1,
        (passAll catalog wires inherited scope).2) := by
  have hpass : passFrom catalog wires inherited (primedAll []) (primedAll scope) =
      (primedAll (passAll catalog wires inherited scope).1,
        (passAll catalog wires inherited scope).2) := passFrom_primedAll scope [] hplain h
  rwa [primedAll] at hpass

theorem receive_primed (s : Signals) (inputs : Pins) :
    s.primed.receive inputs = (s.receive inputs).primed := by
  unfold Signals.receive
  rw [Signals.primed_inputs]
  split
  · rfl
  · unfold Signals.primed
    split <;> rfl

/-- A flip-flop takes down its next value and leaves its outputs alone, primed or not. -/
theorem compute_primed (s : Signals) (declared : List String) :
    s.primed.compute .dff declared = (s.compute .dff declared).primed := by
  change { s.primed with next := s.primed.bit declared 0 } =
    Signals.primed { s with next := s.bit declared 0 }
  cases h : s.outputs.isEmpty with
  | true =>
    have h' : Signals.primed { s with next := s.bit declared 0 } =
        Signals.drive { s with next := s.bit declared 0 } s.value := Signals.primed_of_isEmpty h
    rw [Signals.primed_of_isEmpty h, h']
    rfl
  | false =>
    have h' : Signals.primed { s with next := s.bit declared 0 } =
        { s with next := s.bit declared 0 } := Signals.primed_of_not_isEmpty h
    rw [Signals.primed_of_not_isEmpty h, h']

theorem passesPrimed_flipFlop (part : Part) (expanded : Bool) (s : Signals) :
    Instance.PassesPrimed catalog ⟨part, expanded, s, .primitive .dff⟩ := by
  intro inputs
  rw [primed_flipFlop, pass_primitive, pass_primitive, primed_flipFlop, receive_primed,
    compute_primed]
  simp only [Signals.primed_inputs, Signals.isSteady, Signals.primed_value, Signals.primed_next,
    PrimitiveKind.isEdgeTriggered, Bool.true_or]

/-- **A pass over a primed instance**: what the pass leaves, primed, and what it tells. -/
theorem pass_primed (i : Instance) : i.Throughout (Instance.Plain catalog) →
    i.PassesPrimed catalog := by
  induction i using Instance.induct with
  | leaf i hleaf =>
    intro _
    by_cases hk : i.body = .primitive .dff
    · obtain ⟨part, expanded, s, body⟩ := i
      cases hk
      exact passesPrimed_flipFlop part expanded s
    · intro inputs
      have hafter : (i.pass catalog inputs).1.primed = (i.pass catalog inputs).1 := by
        have hblank : (i.pass catalog inputs).1.blank = i.blank :=
          blank_of_kept (kept_pass i inputs)
        refine primed_leaf (isComposite_of_blank hblank ▸ hleaf) fun hbody => hk ?_
        obtain ⟨part, expanded, s, body⟩ := i
        cases body with
        | unknown =>
          rw [pass_unknown] at hbody
          exact absurd hbody (by simp)
        | composite => exact absurd hleaf (by simp [Instance.isComposite])
        | primitive kind =>
          rw [pass_primitive] at hbody
          exact hbody
      rw [primed_leaf hleaf hk, hafter]
  | composite part expanded s parts inner ih =>
    intro hplain inputs
    rw [Instance.throughout_composite] at hplain
    have hparts := throughout_iff.1 hplain.2
    have hown : ∀ i ∈ parts, i.Plain catalog := fun i hi => (hparts i hi).1
    have hinside : passAll catalog inner (s.receive inputs).inputs (primedAll parts) =
        (primedAll (passAll catalog inner (s.receive inputs).inputs parts).1,
          (passAll catalog inner (s.receive inputs).inputs parts).2) :=
      passAll_primed_of hown fun i hi => ih i hi (hparts i hi)
    have hafter : ∀ i ∈ (passAll catalog inner (s.receive inputs).inputs parts).1,
        i.Plain catalog := by
      intro j hj
      obtain ⟨i, hi, inputs', rfl⟩ := mem_passAll hj
      exact plain_pass i inputs' (hown i hi)
    rw [primed_composite, pass_composite, pass_composite, hinside, primed_composite,
      publish_primedAll hafter, isPublished_primedAll hafter]

/-- **A pass over a primed scope.** -/
theorem passAll_primed {scope : List Instance}
    (h : Throughout (Instance.Plain catalog) scope) :
    passAll catalog wires inherited (primedAll scope) =
      (primedAll (passAll catalog wires inherited scope).1,
        (passAll catalog wires inherited scope).2) := by
  have hplain := throughout_iff.1 h
  exact passAll_primed_of (fun i hi => (hplain i hi).1) fun i hi => pass_primed i (hplain i hi)

/-- **A primed scope at rest.** -/
theorem Scope.AtRest.primed {scope : List Instance}
    (h : Scope.AtRest catalog ⟨scope, wires, inherited⟩)
    (hplain : Throughout (Instance.Plain catalog) scope) :
    Scope.AtRest catalog ⟨primedAll scope, wires, inherited⟩ := by
  have hpass : passAll catalog wires inherited scope = (scope, false) := h
  unfold Scope.AtRest
  rw [passAll_primed hplain, hpass]

/-! ## Settling -/

theorem settleFrom_primed (n : Nat) : ∀ (done : Nat) (scope : List Instance),
    Throughout (Instance.Plain catalog) scope →
      settleFrom catalog wires done n (primedAll scope) =
        (primedAll (settleFrom catalog wires done n scope).1,
          (settleFrom catalog wires done n scope).2) := by
  induction n with
  | zero =>
    intro done scope h
    rw [settleFrom, settleFrom, passAll_primed h]
  | succ n ih =>
    intro done scope h
    have hpass : passAll catalog wires ∅ (primedAll scope) =
        (primedAll (passAll catalog wires ∅ scope).1, (passAll catalog wires ∅ scope).2) :=
      passAll_primed h
    cases hq : (passAll catalog wires ∅ scope).2 with
    | false =>
      rw [settleFrom_of_quiet done (n + 1) hq,
        settleFrom_of_quiet done (n + 1) ((congrArg Prod.snd hpass).trans hq), hpass]
    | true =>
      rw [settleFrom_of_busy done n hq,
        settleFrom_of_busy done n ((congrArg Prod.snd hpass).trans hq), hpass]
      exact ih (done + 1) _ (throughout_plain_passAll h)

/-- **A primed circuit settles like the circuit itself**, with the same report. -/
theorem settle_primed {scope : List Instance} (limit : Nat)
    (h : Throughout (Instance.Plain catalog) scope) :
    settle catalog wires limit (primedAll scope) =
      (primedAll (settle catalog wires limit scope).1, (settle catalog wires limit scope).2) :=
  settleFrom_primed (limit - 1) 0 scope h

/-! ## Clock edges and updates -/

theorem commit_primed (i : Instance) : i.primed.commit.1 = i.commit.1.primed := by
  induction i using Instance.induct with
  | leaf i hleaf =>
    by_cases hk : i.body = .primitive .dff
    · obtain ⟨part, expanded, s, body⟩ := i
      cases hk
      rw [primed_flipFlop, commit_flipFlop, commit_flipFlop, primed_flipFlop, Signals.primed_next,
        Signals.drive_primed, Signals.primed_drive]
    · rw [primed_leaf hleaf hk, commit_leaf hleaf hk, primed_leaf hleaf hk]
  | composite part expanded s parts inner ih =>
    have hparts : (commitAll (primedAll parts)).1 = primedAll (commitAll parts).1 := by
      rw [commitAll_fst, commitAll_fst, primedAll_eq_map, primedAll_eq_map, List.map_map,
        List.map_map]
      exact List.map_congr_left ih
    rw [primed_composite, commit_composite, commit_composite, primed_composite, hparts]

/-- **A clock edge on a primed circuit.** -/
theorem commitAll_primed (scope : List Instance) :
    (commitAll (primedAll scope)).1 = primedAll (commitAll scope).1 := by
  rw [commitAll_fst, commitAll_fst, primedAll_eq_map, primedAll_eq_map, List.map_map, List.map_map]
  exact List.map_congr_left fun i _ => commit_primed i

/-- **An update of a primed circuit**, by what commutes with priming. -/
theorem updateInstance_primed {f : Instance → Instance} (h : ∀ i, f i.primed = (f i).primed)
    (scope : List Instance) (id : String) :
    updateInstance (primedAll scope) id f = primedAll (updateInstance scope id f) := by
  induction scope with
  | nil => rfl
  | cons i rest ih =>
    rw [primedAll, updateInstance, updateInstance, primed_id]
    split
    · rw [primedAll, h]
    · rw [primedAll, ih]

theorem flip_primed (i : Instance) :
    i.primed.drive (!i.primed.value) = (i.drive (!i.value)).primed := by
  obtain ⟨part, expanded, s, body⟩ := i
  cases body with
  | unknown => rfl
  | composite parts inner =>
    unfold Instance.drive
    rw [primed_composite, primed_composite]
    rfl
  | primitive kind =>
    cases kind with
    | dff =>
      unfold Instance.drive
      rw [primed_flipFlop, primed_flipFlop, Signals.primed_drive, Signals.drive_primed]
      simp only [Instance.value, Signals.primed_value]
    | input | and | or | nand | not | xor => rfl

theorem draw_primed (i : Instance) (expanded : Bool) :
    { i.primed with expanded } = Instance.primed { i with expanded } := by
  obtain ⟨part, shown, s, body⟩ := i
  cases body with
  | unknown => rfl
  | composite parts inner => rw [primed_composite, primed_composite]
  | primitive kind => cases kind <;> rfl

theorem isInput_primed (i : Instance) : i.primed.isInput = i.isInput :=
  isInput_of_blank (blank_primed i)

end Breadboard
