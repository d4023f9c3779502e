import Breadboard.Circuit.Netlist
import Mathlib.Data.List.Perm.Basic

/-!
# The chips of a netlist

Ordering the switches moves them between their places and does nothing else
(`orderInputs_eq_refill`), so a netlist has the chips of its program, each as often as the program
declares it (`orderInputs_perm`, `ofProgram_perm`).

It moves them once: what decides about their order is the chips that are no switches, which keep
their places, and the wires. So the switches of an ordered netlist are in order already
(`orderInputs_orderInputs`).
-/

namespace Breadboard

theorem perm_of_findInstance? {scope : List Instance} {id : String} {i : Instance}
    (h : findInstance? scope id = some i) :
    (i :: scope.eraseP fun j => j.id == id).Perm scope := by
  induction scope with
  | nil => exact absurd h (by simp [findInstance?])
  | cons j rest ih =>
    by_cases hj : (j.id == id) = true
    · have hi : j = i := by simpa [findInstance?, hj] using h
      rw [List.eraseP_cons, hj, hi]
      exact List.Perm.refl _
    · rw [Bool.not_eq_true] at hj
      have hrest : findInstance? rest id = some i := by simpa [findInstance?, hj] using h
      rw [List.eraseP_cons, hj]
      exact (List.Perm.swap j i _).trans ((ih hrest).cons j)

/-- Pulling instances to the front loses none. -/
theorem pullFront_perm (ids : List String) :
    ∀ scope : List Instance, (pullFront scope ids).Perm scope := by
  induction ids with
  | nil => exact fun _ => List.Perm.refl _
  | cons id ids ih =>
    intro scope
    rw [pullFront]
    split
    · rename_i i hi
      exact ((ih _).cons i).trans (perm_of_findInstance? hi)
    · exact ih scope

theorem refill_nil (scope : List Instance) : refill [] scope = scope := by
  cases scope <;> rw [refill]
  exact List.cons_ne_nil _ _

/-- What is no switch keeps its place. -/
theorem refill_cons_of_not_switch {i : Instance} (hi : ¬i.isSwitch = true)
    (filling rest : List Instance) : refill filling (i :: rest) = i :: refill filling rest := by
  cases filling with
  | nil => rw [refill_nil, refill_nil]
  | cons s filling => rw [refill, if_neg hi]

/-- As many instances as there are switches take the places of the switches. -/
theorem refill_perm (scope : List Instance) :
    ∀ filling : List Instance, filling.length = (scope.filter Instance.isSwitch).length →
      (refill filling scope).Perm (filling ++ scope.filter fun i => !i.isSwitch) := by
  induction scope with
  | nil =>
    intro filling h
    rw [List.length_eq_zero_iff.1 h]
    exact List.Perm.refl _
  | cons i rest ih =>
    intro filling h
    by_cases hi : i.isSwitch = true
    · rw [List.filter_cons_of_pos hi] at h
      cases filling with
      | nil => exact absurd h (by simp)
      | cons s filling =>
        rw [refill, if_pos hi, List.filter_cons_of_neg (by simp [hi])]
        exact (ih filling (by simpa using h)).cons s
    · rw [List.filter_cons_of_neg hi] at h
      rw [List.filter_cons_of_pos (by simp [hi]), refill_cons_of_not_switch hi]
      exact ((ih filling h).cons i).trans List.perm_middle.symm

/-- The switches fill their own places. -/
theorem refill_filter (scope : List Instance) :
    refill (scope.filter Instance.isSwitch) scope = scope := by
  induction scope with
  | nil => rw [refill]
  | cons i rest ih =>
    by_cases hi : i.isSwitch = true
    · rw [List.filter_cons_of_pos hi, refill, if_pos hi, ih]
    · rw [List.filter_cons_of_neg hi, refill_cons_of_not_switch hi, ih]

/-- Where there is an anchor, the switches that drive its pins are pulled to the front. -/
theorem orderInputs_of_anchor {catalog : Catalog} {wires : List Wire} {scope : List Instance}
    {anchor : Instance} (hmany : ¬(scope.filter Instance.isSwitch).length < 2)
    (hanchor : anchor? scope wires = some anchor) :
    orderInputs catalog wires scope = refill (pullFront (scope.filter Instance.isSwitch)
      (feeders (catalog.inputsOf anchor.chip) wires anchor.id)) scope := by
  simp only [orderInputs, if_neg hmany, hanchor]

/-- **Ordering the switches pulls some of them to the front**, and no other chip moves. -/
theorem orderInputs_eq_refill (catalog : Catalog) (wires : List Wire) (scope : List Instance) :
    ∃ ids, orderInputs catalog wires scope =
      refill (pullFront (scope.filter Instance.isSwitch) ids) scope := by
  have hsame : scope = refill (pullFront (scope.filter Instance.isSwitch) []) scope :=
    (refill_filter scope).symm
  by_cases hfew : (scope.filter Instance.isSwitch).length < 2
  · exact ⟨[], by simpa only [orderInputs, if_pos hfew] using hsame⟩
  · cases hanchor : anchor? scope wires with
    | none => exact ⟨[], by simpa only [orderInputs, if_neg hfew, hanchor] using hsame⟩
    | some anchor => exact ⟨_, orderInputs_of_anchor hfew hanchor⟩

/-- **Ordering the switches loses no instance and adds none.** -/
theorem orderInputs_perm (catalog : Catalog) (wires : List Wire) (scope : List Instance) :
    (orderInputs catalog wires scope).Perm scope := by
  obtain ⟨ids, hordered⟩ := orderInputs_eq_refill catalog wires scope
  have hpull := pullFront_perm ids (scope.filter Instance.isSwitch)
  rw [hordered]
  refine (refill_perm scope _ hpull.length_eq).trans ?_
  refine (hpull.append_right _).trans ?_
  exact List.filter_append_perm Instance.isSwitch scope

/-- **The chips of a netlist are those that its program declares**, built anew. -/
theorem ofProgram_perm (catalog : Catalog) (program : Program) :
    (Netlist.ofProgram catalog program).instances.Perm
      (program.parts.map (Instance.fresh catalog)) :=
  orderInputs_perm _ _ _

/-- They are what is built from their parts. -/
theorem map_fresh_parts (catalog : Catalog) (program : Program) :
    ((Netlist.ofProgram catalog program).instances.map Instance.part).map
      (Instance.fresh catalog) = (Netlist.ofProgram catalog program).instances := by
  rw [List.map_map]
  refine (List.map_congr_left fun i hi => ?_).trans (List.map_id _)
  obtain ⟨part, -, rfl⟩ := List.mem_map.1 ((ofProgram_perm catalog program).mem_iff.1 hi)
  exact Instance.fresh_fold catalog part

/-! ## Ordering twice -/

/-- Pulling the same instances to the front again moves none. -/
theorem pullFront_pullFront (ids : List String) :
    ∀ scope : List Instance, pullFront (pullFront scope ids) ids = pullFront scope ids := by
  induction ids with
  | nil => exact fun _ => rfl
  | cons id ids ih =>
    intro scope
    cases h : findInstance? scope id with
    | some i =>
      have hid : (i.id == id) = true := List.find?_some (p := fun i : Instance => i.id == id) h
      have hfront : findInstance? (i :: pullFront (scope.eraseP fun j => j.id == id) ids) id =
          some i := by
        rw [findInstance?, List.find?_cons, hid]
      have herase : ∀ rest : List Instance, (i :: rest).eraseP (fun j => j.id == id) = rest := by
        intro rest
        rw [List.eraseP_cons, hid, cond_true]
      simp only [pullFront, h, hfront, herase, ih]
    | none =>
      have hnone : findInstance? (pullFront scope ids) id = none := by
        refine List.find?_eq_none.2 fun i hi => ?_
        exact List.find?_eq_none.1 h i ((pullFront_perm ids scope).mem_iff.1 hi)
      simp only [pullFront, h, hnone, ih]

/-- The places of the switches are filled by the given ones, in order. -/
theorem filter_refill (scope : List Instance) :
    ∀ filling : List Instance, (∀ s ∈ filling, s.isSwitch = true) →
      filling.length = (scope.filter Instance.isSwitch).length →
        (refill filling scope).filter Instance.isSwitch = filling ∧
          (refill filling scope).filter (fun i => !i.isSwitch) =
            scope.filter fun i => !i.isSwitch := by
  induction scope with
  | nil =>
    intro filling _ h
    rw [List.length_eq_zero_iff.1 h]
    exact ⟨rfl, rfl⟩
  | cons i rest ih =>
    intro filling hswitches h
    by_cases hi : i.isSwitch = true
    · rw [List.filter_cons_of_pos hi] at h
      cases filling with
      | nil => exact absurd h (by simp)
      | cons s filling =>
        have hs := hswitches s List.mem_cons_self
        obtain ⟨hin, hout⟩ := ih filling (fun t ht => hswitches t (List.mem_cons_of_mem s ht))
          (Nat.succ.inj h)
        rw [refill, if_pos hi]
        simp [hs, hi, hin, hout]
    · rw [List.filter_cons_of_neg hi] at h
      obtain ⟨hin, hout⟩ := ih filling hswitches h
      rw [refill_cons_of_not_switch hi]
      simp [hi, hin, hout]

/-- The switches of an ordered scope are those pulled to the front; the other chips are as they
were. -/
theorem filter_refill_pullFront (scope : List Instance) (ids : List String) :
    (refill (pullFront (scope.filter Instance.isSwitch) ids) scope).filter Instance.isSwitch =
        pullFront (scope.filter Instance.isSwitch) ids ∧
      (refill (pullFront (scope.filter Instance.isSwitch) ids) scope).filter
        (fun i => !i.isSwitch) = scope.filter fun i => !i.isSwitch :=
  have hperm := pullFront_perm ids (scope.filter Instance.isSwitch)
  filter_refill scope _ (fun _ hs => (List.mem_filter.1 (hperm.mem_iff.1 hs)).2) hperm.length_eq

theorem findInstance?_isSome_perm {scope scope' : List Instance} (h : scope'.Perm scope)
    (id : String) : (findInstance? scope' id).isSome = (findInstance? scope id).isSome := by
  rw [Bool.eq_iff_iff]
  simp only [findInstance?, List.find?_isSome, h.mem_iff]

/-- **The anchor is a matter of the chips that are no switches**, in their order, and of which
switches there are. -/
theorem anchor?_congr {scope scope' : List Instance} (wires : List Wire)
    (hswitches : (scope'.filter Instance.isSwitch).Perm (scope.filter Instance.isSwitch))
    (hothers : (scope'.filter fun i => !i.isSwitch) = scope.filter fun i => !i.isSwitch) :
    anchor? scope' wires = anchor? scope wires := by
  have hfilter : ∀ (l : List Instance) (fed : Instance → Bool),
      l.find? (fun i => !i.isSwitch && fed i) = (l.filter fun i => !i.isSwitch).find? fed := by
    intro l fed
    simp [List.find?_filter]
  unfold anchor?
  simp only [hfilter, hothers, findInstance?_isSome_perm hswitches]

/-- **Ordering the switches twice is ordering them once.** -/
theorem orderInputs_orderInputs (catalog : Catalog) (wires : List Wire) (scope : List Instance) :
    orderInputs catalog wires (orderInputs catalog wires scope) =
      orderInputs catalog wires scope := by
  by_cases hfew : (scope.filter Instance.isSwitch).length < 2
  · simp only [orderInputs, if_pos hfew]
  · cases hanchor : anchor? scope wires with
    | none => simp only [orderInputs, if_neg hfew, hanchor]
    | some anchor =>
      have hordered := @orderInputs_of_anchor catalog _ _ _ hfew hanchor
      generalize hids : feeders (catalog.inputsOf anchor.chip) wires anchor.id = ids at hordered
      have hperm := pullFront_perm ids (scope.filter Instance.isSwitch)
      obtain ⟨hswitches, hothers⟩ := filter_refill_pullFront scope ids
      rw [← hordered] at hswitches hothers
      -- the same anchor asks for the same switches, and they are in front already
      have hanchor' : anchor? (orderInputs catalog wires scope) wires = some anchor :=
        (anchor?_congr wires (hswitches ▸ hperm) hothers).trans hanchor
      have hfew' : ¬((orderInputs catalog wires scope).filter Instance.isSwitch).length < 2 := by
        rwa [hswitches, hperm.length_eq]
      have hfront : pullFront ((orderInputs catalog wires scope).filter Instance.isSwitch) ids =
          (orderInputs catalog wires scope).filter Instance.isSwitch := by
        rw [hswitches, pullFront_pullFront]
      conv_lhs => rw [orderInputs]
      simp only [if_neg hfew', hanchor', hids, hfront, refill_filter]

end Breadboard
