import Breadboard.Circuit.Clock
import Breadboard.Circuit.Settle
import Breadboard.Proofs.Rest

/-!
# What settling leaves alone

`Instance.kept` forgets every bit that a pass computes and keeps the others: the parts and wires at
every depth, the bit of each switch, the bit and the outputs of each flip-flop, and the next value
of every chip that is no flip-flop. A pass does not change it (`kept_pass`, `keptAll_passAll`), and
so settling does not (`keptAll_settle`).

Settling itself is told from its passes: `settleFrom_converged` says how it comes to an end, and
`settle_eq_self_iff` when it changes nothing at all.
-/

namespace Breadboard

/-- The bits of a primitive that a pass leaves alone. -/
def Signals.stored (s : Signals) : PrimitiveKind → Signals
  | .dff => { value := s.value, outputs := s.outputs }
  | .input => { value := s.value, next := s.next }
  | _ => { next := s.next }

mutual

/-- The instance without the bits that a pass computes. -/
def Instance.kept : Instance → Instance
  | ⟨part, expanded, s, body⟩ =>
    match body with
    | .unknown => ⟨part, expanded, { next := s.next }, .unknown⟩
    | .primitive kind => ⟨part, expanded, s.stored kind, .primitive kind⟩
    | .composite parts wires =>
      ⟨part, expanded, { next := s.next }, .composite (keptAll parts) wires⟩

/-- The instances of a scope without the bits that a pass computes. -/
def keptAll : List Instance → List Instance
  | [] => []
  | i :: rest => i.kept :: keptAll rest

end

variable {catalog : Catalog} {wires : List Wire} {inherited inputs : Pins}

theorem kept_unknown (part : Part) (expanded : Bool) (s : Signals) :
    Instance.kept ⟨part, expanded, s, .unknown⟩ =
      ⟨part, expanded, { next := s.next }, .unknown⟩ := by
  rw [Instance.kept]

theorem kept_primitive (part : Part) (expanded : Bool) (s : Signals) (kind : PrimitiveKind) :
    Instance.kept ⟨part, expanded, s, .primitive kind⟩ =
      ⟨part, expanded, s.stored kind, .primitive kind⟩ := by
  rw [Instance.kept]

theorem kept_composite (part : Part) (expanded : Bool) (s : Signals) (parts : List Instance)
    (inner : List Wire) :
    Instance.kept ⟨part, expanded, s, .composite parts inner⟩ =
      ⟨part, expanded, { next := s.next }, .composite (keptAll parts) inner⟩ := by
  rw [Instance.kept]

theorem keptAll_eq_map (scope : List Instance) : keptAll scope = scope.map Instance.kept := by
  induction scope with
  | nil => rw [keptAll]; rfl
  | cons i rest ih => rw [keptAll, ih]; rfl

@[simp] theorem kept_part (i : Instance) : i.kept.part = i.part := by
  obtain ⟨part, expanded, s, body⟩ := i
  cases body with
  | unknown => rw [kept_unknown]
  | primitive kind => rw [kept_primitive]
  | composite parts inner => rw [kept_composite]

/-- Circuits that keep the same have the same parts. -/
theorem map_part_of_keptAll {scope scope' : List Instance} (h : keptAll scope = keptAll scope') :
    scope.map Instance.part = scope'.map Instance.part := by
  have hmap : ∀ l : List Instance, l.map Instance.part = (keptAll l).map Instance.part := by
    intro l
    rw [keptAll_eq_map, List.map_map]
    exact List.map_congr_left fun i _ => (kept_part i).symm
  rw [hmap scope, hmap scope', h]

theorem map_id_of_keptAll {scope scope' : List Instance} (h : keptAll scope = keptAll scope') :
    scope.map Instance.id = scope'.map Instance.id := by
  have hp := congrArg (List.map Part.id) (map_part_of_keptAll h)
  simp only [List.map_map] at hp
  exact hp

/-- The places of two circuits that keep the same. -/
theorem getElem?_of_keptAll {scope scope' : List Instance} (h : keptAll scope = keptAll scope')
    {k : Nat} {i : Instance} (hi : scope[k]? = some i) :
    ∃ i', scope'[k]? = some i' ∧ i'.kept = i.kept := by
  rw [keptAll_eq_map, keptAll_eq_map] at h
  exact getElem?_of_map_eq h hi

theorem kept_of_keptAll {scope scope' : List Instance} (h : keptAll scope = keptAll scope')
    {k : Nat} {i i' : Instance} (hi : scope[k]? = some i) (hi' : scope'[k]? = some i') :
    i.kept = i'.kept := by
  rw [keptAll_eq_map, keptAll_eq_map] at h
  exact eq_of_map_eq h hi hi'

/-! ## A pass keeps -/

theorem keptAll_passAll_of {scope : List Instance}
    (h : ∀ i ∈ scope, ∀ inputs, (i.pass catalog inputs).1.kept = i.kept) :
    keptAll (passAll catalog wires inherited scope).1 = keptAll scope := by
  rw [keptAll_eq_map, keptAll_eq_map]
  exact map_passAll fun k i hk => h i (List.mem_of_getElem? hk) _

/-- **A pass over an instance changes nothing that is kept.** -/
theorem kept_pass (i : Instance) : ∀ inputs, (i.pass catalog inputs).1.kept = i.kept := by
  induction i using Instance.induct with
  | leaf i hleaf =>
    intro inputs
    obtain ⟨part, expanded, s, body⟩ := i
    cases body with
    | composite parts inner => exact absurd hleaf (by simp [Instance.isComposite])
    | unknown =>
      rw [pass_unknown, kept_unknown, kept_unknown, Signals.drive_next, Signals.receive_next]
    | primitive kind =>
      rw [pass_primitive, kept_primitive, kept_primitive]
      cases kind with
      | input => simp [Signals.compute, Signals.stored, PrimitiveKind.evaluate]
      | dff | and | or | nand | not | xor => simp [Signals.compute, Signals.stored]
  | composite part expanded s parts inner ih =>
    intro inputs
    rw [pass_composite, kept_composite, kept_composite, keptAll_passAll_of ih]
    unfold Signals.publish
    rw [Signals.receive_next]

/-- **A pass over a scope changes nothing that is kept.** -/
theorem keptAll_passAll (scope : List Instance) :
    keptAll (passAll catalog wires inherited scope).1 = keptAll scope :=
  keptAll_passAll_of fun i _ => kept_pass i

/-! ## Settling -/

/-- What every pass preserves, settling preserves. -/
theorem settleFrom_induct {P : List Instance → Prop}
    (h : ∀ scope, P scope → P (passAll catalog wires ∅ scope).1) (n : Nat) :
    ∀ (done : Nat) (scope : List Instance), P scope →
      P (settleFrom catalog wires done n scope).1 := by
  induction n with
  | zero => exact fun done scope hP => h scope hP
  | succ n ih =>
    intro done scope hP
    have hpass := h scope hP
    rw [settleFrom]
    rcases hp : passAll catalog wires ∅ scope with ⟨scope', changed⟩
    rw [hp] at hpass
    cases changed with
    | true => exact ih (done + 1) scope' hpass
    | false => exact hpass

theorem settle_induct {P : List Instance → Prop}
    (h : ∀ scope, P scope → P (passAll catalog wires ∅ scope).1) (limit : Nat)
    {scope : List Instance} (hP : P scope) : P (settle catalog wires limit scope).1 :=
  settleFrom_induct h (limit - 1) 0 scope hP

/-- **Settling changes nothing that is kept.** -/
theorem keptAll_settle (limit : Nat) (scope : List Instance) :
    keptAll (settle catalog wires limit scope).1 = keptAll scope := by
  refine settle_induct (P := fun scope' => keptAll scope' = keptAll scope) (fun scope' h => ?_)
    limit rfl
  rw [keptAll_passAll, h]

theorem settleFrom_of_quiet {scope : List Instance} (done n : Nat)
    (h : (passAll catalog wires ∅ scope).2 = false) :
    settleFrom catalog wires done n scope =
      ((passAll catalog wires ∅ scope).1, ⟨done + 1, true⟩) := by
  rcases hp : passAll catalog wires ∅ scope with ⟨scope', changed⟩
  rw [hp] at h
  cases h
  cases n with
  | zero => rw [settleFrom, hp]; rfl
  | succ n => rw [settleFrom, hp]

theorem settleFrom_of_busy {scope : List Instance} (done n : Nat)
    (h : (passAll catalog wires ∅ scope).2 = true) :
    settleFrom catalog wires done (n + 1) scope =
      settleFrom catalog wires (done + 1) n (passAll catalog wires ∅ scope).1 := by
  rw [settleFrom]
  rcases hp : passAll catalog wires ∅ scope with ⟨scope', changed⟩
  rw [hp] at h
  cases h
  rfl

/-- How a settling that converged came to its end: after its first pass, or after a later one. -/
theorem settleFrom_converged (n : Nat) : ∀ (done : Nat) (scope : List Instance),
    (settleFrom catalog wires done n scope).2.converged = true →
      ((passAll catalog wires ∅ scope).2 = false ∧
        settleFrom catalog wires done n scope =
          ((passAll catalog wires ∅ scope).1, ⟨done + 1, true⟩)) ∨
      (done + 1 < (settleFrom catalog wires done n scope).2.passes ∧
        ∃ earlier, (passAll catalog wires ∅ (passAll catalog wires ∅ earlier).1).2 = false ∧
          (settleFrom catalog wires done n scope).1 =
            (passAll catalog wires ∅ (passAll catalog wires ∅ earlier).1).1) := by
  induction n with
  | zero =>
    intro done scope h
    rw [settleFrom] at h
    exact Or.inl ⟨by simpa using h, settleFrom_of_quiet done 0 (by simpa using h)⟩
  | succ n ih =>
    intro done scope h
    cases hq : (passAll catalog wires ∅ scope).2 with
    | false => exact Or.inl ⟨rfl, settleFrom_of_quiet done (n + 1) hq⟩
    | true =>
      right
      rw [settleFrom_of_busy done n hq] at h ⊢
      rcases ih (done + 1) _ h with ⟨hquiet, heq⟩ | ⟨hlt, hearlier⟩
      · rw [heq]
        exact ⟨Nat.lt_succ_self _, scope, hquiet, rfl⟩
      · exact ⟨by omega, hearlier⟩

/-- Settling ends with a pass. -/
theorem settleFrom_eq_passAll (n : Nat) : ∀ (done : Nat) (scope : List Instance),
    ∃ earlier, (settleFrom catalog wires done n scope).1 =
      (passAll catalog wires ∅ earlier).1 := by
  induction n with
  | zero => exact fun done scope => ⟨scope, rfl⟩
  | succ n ih =>
    intro done scope
    cases hq : (passAll catalog wires ∅ scope).2 with
    | false =>
      rw [settleFrom_of_quiet done (n + 1) hq]
      exact ⟨scope, rfl⟩
    | true =>
      rw [settleFrom_of_busy done n hq]
      exact ih (done + 1) _

/-- **Settling leaves only tidy instances behind**, at every depth. -/
theorem throughout_tidy_settle (limit : Nat) (scope : List Instance) :
    Throughout Instance.Tidy (settle catalog wires limit scope).1 := by
  unfold settle
  obtain ⟨earlier, h⟩ : ∃ earlier, (settleFrom catalog wires 0 (limit - 1) scope).1 =
      (passAll catalog wires ∅ earlier).1 := settleFrom_eq_passAll (limit - 1) 0 scope
  rw [h]
  exact throughout_tidy_passAll earlier

/-- How a settling that took one pass and converged came to its end. -/
theorem settle_of_one_pass {scope : List Instance} {limit : Nat}
    (h : (settle catalog wires limit scope).2 = ⟨1, true⟩) :
    (passAll catalog wires ∅ scope).2 = false ∧
      (settle catalog wires limit scope).1 = (passAll catalog wires ∅ scope).1 := by
  unfold settle at h ⊢
  rcases settleFrom_converged (limit - 1) 0 scope (congrArg SettleReport.converged h) with
    ⟨hquiet, heq⟩ | ⟨hlt, -⟩
  · exact ⟨hquiet, congrArg Prod.fst heq⟩
  · rw [h] at hlt
    exact absurd hlt (Nat.lt_irrefl 1)

/-- **A circuit settles in one pass and stays as it is** iff it is at rest. -/
theorem settle_eq_self_iff {scope : List Instance} {limit : Nat} :
    settle catalog wires limit scope = (scope, ⟨1, true⟩) ↔
      Scope.AtRest catalog ⟨scope, wires, ∅⟩ := by
  constructor
  · intro h
    obtain ⟨hquiet, heq⟩ := settle_of_one_pass (congrArg Prod.snd h)
    rw [congrArg Prod.fst h] at heq
    exact Prod.ext heq.symm hquiet
  · intro h
    have hpass : passAll catalog wires ∅ scope = (scope, false) := h
    unfold settle
    rw [settleFrom_of_quiet 0 (limit - 1) (congrArg Prod.snd hpass), hpass]

/-- **A settling that converges leaves a circuit at rest**, if the circuit was tidy or if it took
more than one pass. -/
theorem atRest_of_converged {scope : List Instance} {limit : Nat}
    (h : (settle catalog wires limit scope).2.converged = true)
    (hstart : Throughout Instance.Tidy scope ∨ (settle catalog wires limit scope).2.passes ≠ 1) :
    Scope.AtRest catalog ⟨(settle catalog wires limit scope).1, wires, ∅⟩ := by
  unfold settle at h hstart ⊢
  rcases settleFrom_converged (limit - 1) 0 scope h with ⟨hquiet, heq⟩ | ⟨-, earlier, hquiet, heq⟩
  · rw [heq] at hstart ⊢
    have hrest : Scope.AtRest catalog ⟨scope, wires, ∅⟩ :=
      Scope.atRest_of_quiet (hstart.resolve_right fun hne => hne rfl) hquiet
    rw [congrArg Prod.fst hrest]
    exact hrest
  · have hrest : Scope.AtRest catalog ⟨(passAll catalog wires ∅ earlier).1, wires, ∅⟩ :=
      Scope.atRest_of_quiet (throughout_tidy_passAll earlier) hquiet
    rw [heq, congrArg Prod.fst hrest]
    exact hrest

/-! ## Circuits that keep the same -/

/-- What an instance that keeps the same as a chip without parts is. -/
theorem kept_eq_unknown {i : Instance} {part : Part} {expanded : Bool} {s : Signals}
    (h : i.kept = Instance.kept ⟨part, expanded, s, .unknown⟩) :
    ∃ s', i = ⟨part, expanded, s', .unknown⟩ ∧ s'.next = s.next := by
  obtain ⟨part', expanded', s', body⟩ := i
  rw [kept_unknown] at h
  cases body with
  | unknown =>
    rw [kept_unknown] at h
    simp only [Instance.mk.injEq, Signals.mk.injEq] at h
    obtain ⟨rfl, rfl, ⟨-, hnext, -⟩, -⟩ := h
    exact ⟨s', rfl, hnext⟩
  | primitive kind =>
    rw [kept_primitive] at h
    simp at h
  | composite parts inner =>
    rw [kept_composite] at h
    simp at h

theorem kept_eq_primitive {i : Instance} {part : Part} {expanded : Bool} {s : Signals}
    {kind : PrimitiveKind} (h : i.kept = Instance.kept ⟨part, expanded, s, .primitive kind⟩) :
    ∃ s', i = ⟨part, expanded, s', .primitive kind⟩ ∧ s'.stored kind = s.stored kind := by
  obtain ⟨part', expanded', s', body⟩ := i
  rw [kept_primitive] at h
  cases body with
  | unknown =>
    rw [kept_unknown] at h
    simp at h
  | primitive kind' =>
    rw [kept_primitive] at h
    simp only [Instance.mk.injEq, Body.primitive.injEq] at h
    obtain ⟨rfl, rfl, hstored, rfl⟩ := h
    exact ⟨s', rfl, hstored⟩
  | composite parts inner =>
    rw [kept_composite] at h
    simp at h

/-- What an instance that keeps the same as a composite is. -/
theorem kept_eq_composite {i : Instance} {part : Part} {expanded : Bool} {s : Signals}
    {parts : List Instance} {inner : List Wire}
    (h : i.kept = Instance.kept ⟨part, expanded, s, .composite parts inner⟩) :
    ∃ s' parts', i = ⟨part, expanded, s', .composite parts' inner⟩ ∧
      keptAll parts' = keptAll parts := by
  obtain ⟨part', expanded', s', body⟩ := i
  rw [kept_composite] at h
  cases body with
  | unknown =>
    rw [kept_unknown] at h
    simp at h
  | primitive kind =>
    rw [kept_primitive] at h
    simp at h
  | composite parts' inner' =>
    rw [kept_composite] at h
    simp only [Instance.mk.injEq, Body.composite.injEq] at h
    obtain ⟨rfl, rfl, -, hparts, rfl⟩ := h
    exact ⟨s', parts', rfl, hparts⟩

end Breadboard
