import Breadboard.Proofs.Order

/-!
# Restricted circuits

`keep` selects instances by id. If the wires into the kept ones read the same without the others,
then the kept ones never notice them: whatever is done to a scope and then restricted could be done
to the restricted scope. Only the number of passes may differ, since the kept part comes to rest no
later than the whole, and then waits.

* `restrictAll`, `restrictWires`: what is kept;
* `Severable`: the kept ones read the same without the others, and passes do not change that;
* `Severable.restrict_passAll`, `Scope.AtRest.sever`: passes;
* **`Severable.restrict_settle`**: the part settles with the whole, in at most as many passes;
* `UpstreamClosed`, `severable_of_upstreamClosed`, `settle_restrict`: no wire leads from an instance
  that is left out to one that is kept;
* `restrictAll_commitAll`, `restrictAll_toggleInput`: clock edges and toggles.
-/

namespace Breadboard

variable {catalog : Catalog} {wires : List Wire} {inherited : Pins} {keep : String → Bool}

/-! ## Restricted circuits -/

/-- The instances that are kept, in their order. -/
def restrictAll (keep : String → Bool) (scope : List Instance) : List Instance :=
  scope.filter fun i => keep i.id

/-- The wires into instances that are kept, in their order. -/
def restrictWires (keep : String → Bool) (wires : List Wire) : List Wire :=
  wires.filter fun wire => keep wire.target

/-- The instances that are kept, and the wires into them. -/
def Netlist.restrict (keep : String → Bool) (n : Netlist) : Netlist :=
  ⟨restrictAll keep n.instances, restrictWires keep n.wires⟩

/-- No wire leads from an instance that is left out to one that is kept. -/
def UpstreamClosed (keep : String → Bool) (ids : List String) (wires : List Wire) : Prop :=
  ∀ wire ∈ wires, keep wire.target = true → wire.source ∈ ids → keep wire.source = true

theorem restrictAll_cons_of_keep {i : Instance} (h : keep i.id = true) (rest : List Instance) :
    restrictAll keep (i :: rest) = i :: restrictAll keep rest :=
  List.filter_cons_of_pos h

theorem restrictAll_cons_of_not_keep {i : Instance} (h : keep i.id = false)
    (rest : List Instance) : restrictAll keep (i :: rest) = restrictAll keep rest :=
  List.filter_cons_of_neg (by simp [h])

theorem restrictAll_append (keep : String → Bool) (l l' : List Instance) :
    restrictAll keep (l ++ l') = restrictAll keep l ++ restrictAll keep l' :=
  List.filter_append l l'

theorem restrictAll_map {f : Instance → Instance} (hf : ∀ i, (f i).id = i.id)
    (scope : List Instance) : restrictAll keep (scope.map f) = (restrictAll keep scope).map f := by
  unfold restrictAll
  rw [List.filter_map]
  refine congrArg (List.map f) (List.filter_congr fun i _ => ?_)
  exact congrArg keep (hf i)

theorem throughout_restrictAll {P : Instance → Prop} {scope : List Instance}
    (h : Throughout P scope) : Throughout P (restrictAll keep scope) :=
  throughout_iff.2 fun i hi => throughout_iff.1 h i (List.mem_filter.1 hi).1

/-! ## Reading -/

theorem findInstance?_restrictAll {id : String} (h : keep id = true) (scope : List Instance) :
    findInstance? (restrictAll keep scope) id = findInstance? scope id :=
  findInstance?_filter fun _ _ hid => hid.symm ▸ h

theorem findInstance?_restrictAll_of_not_keep {id : String} (h : keep id = false)
    (scope : List Instance) : findInstance? (restrictAll keep scope) id = none := by
  refine findInstance?_eq_none_iff.2 fun hid => ?_
  obtain ⟨i, hi, rfl⟩ := List.mem_map.1 hid
  exact Bool.false_ne_true (h.symm.trans (List.mem_filter.1 hi).2)

/-- New chips for the kept parts are the kept ones of the new chips. -/
theorem restrictAll_fresh (catalog : Catalog) (keep : String → Bool) (parts : List Part) :
    restrictAll keep (parts.map (Instance.fresh catalog)) =
      (parts.filter fun part => keep part.id).map (Instance.fresh catalog) := by
  unfold restrictAll
  rw [List.filter_map]
  rfl

/-- **A wire into a kept instance reads the same** in the restricted scope. -/
theorem read_restrictAll {scope : List Instance}
    (hclosed : UpstreamClosed keep (scope.map Instance.id) wires) {wire : Wire} (hw : wire ∈ wires)
    (hkeep : keep wire.target = true) :
    wire.read (restrictAll keep scope) inherited = wire.read scope inherited := by
  unfold Wire.read
  by_cases hsource : wire.source ∈ scope.map Instance.id
  · rw [findInstance?_restrictAll (hclosed wire hw hkeep hsource)]
  · have hleft : wire.source ∉ (restrictAll keep scope).map Instance.id := fun h =>
      hsource ((List.filter_sublist.map Instance.id).subset h)
    rw [findInstance?_eq_none_iff.2 hsource, findInstance?_eq_none_iff.2 hleft]

/-! ## Severable instances -/

/-- As long as `P` holds, which passes preserve, the kept instances **can be severed** from the
others: `wires'` lead into them as `wires` do, and these read the same without the others. -/
structure Severable (catalog : Catalog) (keep : String → Bool) (wires wires' : List Wire)
    (inherited : Pins) (P : List Instance → Prop) : Prop where
  into : ∀ id, keep id = true →
    (wires.filter fun wire => wire.target == id) = wires'.filter fun wire => wire.target == id
  read : ∀ scope, P scope → ∀ wire ∈ wires, keep wire.target = true →
    wire.read (restrictAll keep scope) inherited = wire.read scope inherited
  pass : ∀ visited i rest inputs, P (visited ++ i :: rest) →
    P (visited ++ (i.pass catalog inputs).1 :: rest)

section Severable

variable {wires' : List Wire} {P : List Instance → Prop}

/-- **A kept instance makes the same pass** in the restricted scope. -/
theorem Severable.passIn_eq (h : Severable catalog keep wires wires' inherited P)
    {scope : List Instance} (hP : P scope) {i : Instance} (hkeep : keep i.id = true) :
    i.passIn catalog wires' inherited (restrictAll keep scope) =
      i.passIn catalog wires inherited scope := by
  unfold Instance.passIn
  have hinputs : resolveInputs catalog scope wires inherited i.part =
      resolveInputs catalog (restrictAll keep scope) wires' inherited i.part :=
    resolveInputs_congr (h.into i.id hkeep) fun wire hw htarget =>
      (h.read scope hP wire hw (htarget.symm ▸ hkeep)).symm
  rw [hinputs]

theorem passIn_id (i : Instance) (scope : List Instance) :
    (i.passIn catalog wires inherited scope).1.id = i.id :=
  congrArg Part.id (pass_part i)

/-- A pass over instances that come after others, restricted. -/
theorem Severable.restrict_passFrom (h : Severable catalog keep wires wires' inherited P)
    (scope : List Instance) : ∀ visited : List Instance, P (visited ++ scope) →
      restrictAll keep (passFrom catalog wires inherited visited scope).1 =
          (passFrom catalog wires' inherited (restrictAll keep visited)
            (restrictAll keep scope)).1 ∧
        ((passFrom catalog wires inherited visited scope).2 = false →
          (passFrom catalog wires' inherited (restrictAll keep visited)
            (restrictAll keep scope)).2 = false) ∧
        P (visited ++ (passFrom catalog wires inherited visited scope).1) := by
  induction scope with
  | nil =>
    intro visited hP
    exact ⟨by simp [passFrom, restrictAll], fun _ => by
      simp [passFrom, restrictAll], by simpa [passFrom] using hP⟩
  | cons i rest ih =>
    intro visited hP
    have hid : (i.passIn catalog wires inherited (visited ++ i :: rest)).1.id = i.id :=
      passIn_id i _
    have hP' : P (visited ++ [(i.passIn catalog wires inherited (visited ++ i :: rest)).1] ++
        rest) := by
      rw [List.append_assoc]
      exact h.pass visited i rest _ hP
    obtain ⟨hrest, hquiet, hlast⟩ := ih _ hP'
    rw [restrictAll_append] at hrest hquiet
    rw [List.append_assoc] at hlast
    rw [passFrom_cons]
    cases hkeep : keep i.id with
    | true =>
      have hown : i.passIn catalog wires' inherited (restrictAll keep (visited ++ i :: rest)) =
          i.passIn catalog wires inherited (visited ++ i :: rest) := h.passIn_eq hP hkeep
      rw [restrictAll_append, restrictAll_cons_of_keep hkeep] at hown
      have hone : restrictAll keep [(i.passIn catalog wires inherited (visited ++ i :: rest)).1] =
          [(i.passIn catalog wires inherited (visited ++ i :: rest)).1] :=
        restrictAll_cons_of_keep (hid ▸ hkeep) []
      rw [hone] at hrest hquiet
      rw [restrictAll_cons_of_keep (hid ▸ hkeep), restrictAll_cons_of_keep hkeep,
        passFrom_cons, hown]
      refine ⟨congrArg _ hrest, fun h => ?_, hlast⟩
      rw [Bool.or_eq_false_iff] at h ⊢
      exact ⟨h.1, hquiet h.2⟩
    | false =>
      have hone : restrictAll keep [(i.passIn catalog wires inherited (visited ++ i :: rest)).1] =
          [] := restrictAll_cons_of_not_keep (hid ▸ hkeep) []
      rw [hone, List.append_nil] at hrest hquiet
      rw [restrictAll_cons_of_not_keep (hid ▸ hkeep), restrictAll_cons_of_not_keep hkeep]
      refine ⟨hrest, fun h => ?_, hlast⟩
      rw [Bool.or_eq_false_iff] at h
      exact hquiet h.2

/-- **A pass over the whole is a pass over the kept part**, and if it changes nothing in the whole,
it changes nothing in the part. -/
theorem Severable.restrict_passAll (h : Severable catalog keep wires wires' inherited P)
    {scope : List Instance} (hP : P scope) :
    restrictAll keep (passAll catalog wires inherited scope).1 =
        (passAll catalog wires' inherited (restrictAll keep scope)).1 ∧
      ((passAll catalog wires inherited scope).2 = false →
        (passAll catalog wires' inherited (restrictAll keep scope)).2 = false) ∧
      P (passAll catalog wires inherited scope).1 :=
  h.restrict_passFrom scope [] hP

/-- A restricted scope rests if the whole does. -/
theorem Scope.AtRest.sever {scope : List Instance}
    (hrest : Scope.AtRest catalog ⟨scope, wires, inherited⟩)
    (h : Severable catalog keep wires wires' inherited P) (hP : P scope) :
    Scope.AtRest catalog ⟨restrictAll keep scope, wires', inherited⟩ := by
  have hpass : passAll catalog wires inherited scope = (scope, false) := hrest
  obtain ⟨hsame, hquiet, -⟩ := h.restrict_passAll hP
  rw [hpass] at hsame hquiet
  exact Prod.ext hsame.symm (hquiet rfl)

/-- **What rests in the part stays as it is** while the whole settles. -/
theorem Severable.restrict_settleFrom_of_rest (h : Severable catalog keep wires wires' ∅ P)
    {scope : List Instance} (hP : P scope)
    (hrest : Scope.AtRest catalog ⟨restrictAll keep scope, wires', ∅⟩) (done n : Nat) :
    restrictAll keep (settleFrom catalog wires done n scope).1 = restrictAll keep scope := by
  refine (settleFrom_induct (P := fun s => P s ∧ restrictAll keep s = restrictAll keep scope)
    (fun s hs => ?_) n done scope ⟨hP, rfl⟩).2
  obtain ⟨hpass, -, hP'⟩ := h.restrict_passAll hs.1
  refine ⟨hP', ?_⟩
  rw [hpass, hs.2]
  exact congrArg Prod.fst hrest

/-- **The part settles with the whole, and no later.** -/
theorem Severable.restrict_settleFrom (h : Severable catalog keep wires wires' ∅ P) (n : Nat) :
    ∀ (done : Nat) (scope : List Instance), P scope → Throughout Instance.Tidy scope →
      (settleFrom catalog wires done n scope).2.converged = true →
        (settleFrom catalog wires' done n (restrictAll keep scope)).1 =
            restrictAll keep (settleFrom catalog wires done n scope).1 ∧
          (settleFrom catalog wires' done n (restrictAll keep scope)).2.converged = true ∧
          (settleFrom catalog wires' done n (restrictAll keep scope)).2.passes ≤
            (settleFrom catalog wires done n scope).2.passes := by
  induction n with
  | zero =>
    intro done scope hP _ hconverged
    rw [settleFrom] at hconverged
    obtain ⟨hpass, hquiet, -⟩ := h.restrict_passAll hP
    have hwhole : (passAll catalog wires ∅ scope).2 = false := by simpa using hconverged
    rw [settleFrom_of_quiet done 0 hwhole, settleFrom_of_quiet done 0 (hquiet hwhole)]
    exact ⟨hpass.symm, rfl, Nat.le_refl _⟩
  | succ n ih =>
    intro done scope hP htidy hconverged
    obtain ⟨hpass, hquiet, hP'⟩ := h.restrict_passAll hP
    cases hwhole : (passAll catalog wires ∅ scope).2 with
    | false =>
      rw [settleFrom_of_quiet done (n + 1) hwhole, settleFrom_of_quiet done (n + 1) (hquiet hwhole)]
      exact ⟨hpass.symm, rfl, Nat.le_refl _⟩
    | true =>
      rw [settleFrom_of_busy done n hwhole] at hconverged ⊢
      cases hpart : (passAll catalog wires' ∅ (restrictAll keep scope)).2 with
      | true =>
        rw [settleFrom_of_busy done n hpart, ← hpass]
        exact ih (done + 1) _ hP' (throughout_tidy_passAll scope) hconverged
      | false =>
        -- the part has come to rest, and waits for the whole
        have hrest : Scope.AtRest catalog ⟨restrictAll keep scope, wires', ∅⟩ :=
          Scope.atRest_of_quiet (throughout_restrictAll htidy) hpart
        have hsame : (passAll catalog wires' ∅ (restrictAll keep scope)).1 =
            restrictAll keep scope := congrArg Prod.fst hrest
        rw [settleFrom_of_quiet done (n + 1) hpart]
        rw [hsame] at hpass ⊢
        refine ⟨?_, rfl, ?_⟩
        · rw [h.restrict_settleFrom_of_rest hP' (hpass.symm ▸ hrest), hpass]
        · rcases settleFrom_converged n (done + 1) _ hconverged with ⟨-, heq⟩ | ⟨hlt, -⟩
          · rw [heq]
            exact Nat.le_succ _
          · exact Nat.le_of_lt (Nat.lt_of_succ_lt hlt)

/-- **The part settles with the whole, and no later**, from the first pass on. -/
theorem Severable.restrict_settle (h : Severable catalog keep wires wires' ∅ P)
    {scope : List Instance} {limit : Nat} (hP : P scope) (htidy : Throughout Instance.Tidy scope)
    (hconverged : (settle catalog wires limit scope).2.converged = true) :
    (settle catalog wires' limit (restrictAll keep scope)).1 =
        restrictAll keep (settle catalog wires limit scope).1 ∧
      (settle catalog wires' limit (restrictAll keep scope)).2.converged = true ∧
      (settle catalog wires' limit (restrictAll keep scope)).2.passes ≤
        (settle catalog wires limit scope).2.passes :=
  h.restrict_settleFrom (limit - 1) 0 scope hP htidy hconverged

end Severable

/-! ## Instances that depend on nothing else -/

/-- What depends on nothing else can be severed: its wires read the same. -/
theorem severable_of_upstreamClosed {ids : List String} (hclosed : UpstreamClosed keep ids wires) :
    Severable catalog keep wires (restrictWires keep wires) inherited
      fun scope => scope.map Instance.id = ids where
  into := by
    intro id hkeep
    unfold restrictWires
    rw [List.filter_filter]
    refine List.filter_congr fun wire _ => ?_
    by_cases htarget : wire.target = id
    · simp [htarget, hkeep]
    · simp [htarget]
  read := fun _ hids _ hw hkeep => read_restrictAll (hids.symm ▸ hclosed) hw hkeep
  pass := by
    intro visited i rest inputs hids
    have hid : (i.pass catalog inputs).1.id = i.id := congrArg Part.id (pass_part i)
    rw [← hids]
    simp [hid]

/-- A restricted scope rests if the whole does. -/
theorem Scope.AtRest.restrict {scope : List Instance}
    (h : Scope.AtRest catalog ⟨scope, wires, inherited⟩)
    (hclosed : UpstreamClosed keep (scope.map Instance.id) wires) :
    Scope.AtRest catalog ⟨restrictAll keep scope, restrictWires keep wires, inherited⟩ :=
  h.sever (severable_of_upstreamClosed hclosed) rfl

/-- **What rests in the part stays as it is** while the whole settles. -/
theorem restrictAll_settleFrom {scope : List Instance}
    (hclosed : UpstreamClosed keep (scope.map Instance.id) wires)
    (h : Scope.AtRest catalog ⟨restrictAll keep scope, restrictWires keep wires, ∅⟩)
    (done n : Nat) :
    restrictAll keep (settleFrom catalog wires done n scope).1 = restrictAll keep scope :=
  (severable_of_upstreamClosed hclosed).restrict_settleFrom_of_rest rfl h done n

/-- **The part settles with the whole, and no later**, from the first pass on. -/
theorem settle_restrict {scope : List Instance} {limit : Nat}
    (hclosed : UpstreamClosed keep (scope.map Instance.id) wires)
    (htidy : Throughout Instance.Tidy scope)
    (hconverged : (settle catalog wires limit scope).2.converged = true) :
    (settle catalog (restrictWires keep wires) limit (restrictAll keep scope)).1 =
        restrictAll keep (settle catalog wires limit scope).1 ∧
      (settle catalog (restrictWires keep wires) limit (restrictAll keep scope)).2.converged =
        true ∧
      (settle catalog (restrictWires keep wires) limit (restrictAll keep scope)).2.passes ≤
        (settle catalog wires limit scope).2.passes :=
  (severable_of_upstreamClosed hclosed).restrict_settle rfl htidy hconverged

/-! ## Clock edges and toggles -/

/-- **A clock edge comes to the part as to the whole.** -/
theorem restrictAll_commitAll (scope : List Instance) :
    restrictAll keep (commitAll scope).1 = (commitAll (restrictAll keep scope)).1 := by
  rw [commitAll_fst, commitAll_fst]
  exact restrictAll_map (fun i => id_of_blank (blank_commit i)) scope

theorem restrictAll_updateInstance (keep : String → Bool) {f : Instance → Instance}
    (hf : ∀ i, (f i).id = i.id) (scope : List Instance) (id : String) :
    restrictAll keep (updateInstance scope id f) =
      if keep id then updateInstance (restrictAll keep scope) id f else restrictAll keep scope := by
  induction scope with
  | nil => simp [updateInstance, restrictAll]
  | cons i rest ih =>
    rw [updateInstance]
    by_cases hid : i.id = id
    · subst hid
      rw [if_pos rfl]
      cases hkeep : keep i.id with
      | true =>
        rw [restrictAll_cons_of_keep ((hf i).symm ▸ hkeep), restrictAll_cons_of_keep hkeep,
          if_pos rfl, updateInstance, if_pos rfl]
      | false =>
        rw [restrictAll_cons_of_not_keep ((hf i).symm ▸ hkeep), restrictAll_cons_of_not_keep hkeep,
          if_neg Bool.false_ne_true]
    · rw [if_neg hid]
      cases hkeep : keep i.id with
      | true =>
        rw [restrictAll_cons_of_keep hkeep, restrictAll_cons_of_keep hkeep, ih, updateInstance,
          if_neg hid]
        split <;> rfl
      | false => rw [restrictAll_cons_of_not_keep hkeep, restrictAll_cons_of_not_keep hkeep, ih]

/-- The first instance with the given id is a switch. -/
def isSwitch (scope : List Instance) (id : String) : Bool :=
  ((findInstance? scope id).filter Instance.isInput).isSome

theorem isSwitch_restrictAll (scope : List Instance) (id : String) :
    isSwitch (restrictAll keep scope) id = (keep id && isSwitch scope id) := by
  unfold isSwitch
  cases hkeep : keep id with
  | true => rw [findInstance?_restrictAll hkeep, Bool.true_and]
  | false =>
    rw [findInstance?_restrictAll_of_not_keep hkeep]
    rfl

theorem toggleInput_eq (scope : List Instance) (id : String) :
    toggleInput scope id =
      if isSwitch scope id then updateInstance scope id fun i => i.drive (!i.value) else scope := by
  unfold toggleInput isSwitch
  cases (findInstance? scope id).filter Instance.isInput <;> rfl

/-- **A toggle comes to the part if its switch is kept.** -/
theorem restrictAll_toggleInput (keep : String → Bool) (scope : List Instance) (id : String) :
    restrictAll keep (toggleInput scope id) =
      if keep id then toggleInput (restrictAll keep scope) id else restrictAll keep scope := by
  rw [toggleInput_eq, toggleInput_eq, isSwitch_restrictAll]
  have hupdate := restrictAll_updateInstance keep (f := fun i => i.drive (!i.value)) (fun _ => rfl)
    scope id
  cases hkeep : keep id <;> cases isSwitch scope id <;> simp [hkeep, hupdate]

/-- Whether an id is that of a switch is a matter of the shape. -/
theorem isSwitch_of_blankAll {scope scope' : List Instance} (h : blankAll scope = blankAll scope')
    (id : String) : isSwitch scope id = isSwitch scope' id := by
  unfold isSwitch
  rw [findInstance?_eq_seat, findInstance?_eq_seat, ← seat?_congr (map_id_of_blankAll h)]
  cases hk : seat? scope id with
  | none => rfl
  | some k =>
    obtain ⟨i, hi, -⟩ := seat?_spec hk
    obtain ⟨j, hj, hij⟩ := getElem?_of_blankAll h hi
    rw [Option.bind_some, Option.bind_some, hi, hj, Option.filter_some, Option.filter_some,
      isInput_of_blank hij]
    split <;> rfl

end Breadboard
