import Breadboard.Proofs.Command
import Breadboard.Proofs.Uniqueness

/-!
# Netlists that differ in the order of their chips

`Netlist.Alike` is what two netlists have in common that were laid out from the same statements in
another order: the same chips, in any order, keep the same, and the wires lead the same way into
every chip. As a circuit has but one state at rest, alike netlists at rest agree chip by chip. So
a clock edge, which needs the next values of the flip-flops, leaves them alike as well.

* `Netlist.Alike.agree`: alike netlists at rest agree, once one is put in the order of the other;
* `Netlist.Alike.of_kept`: what keeps the same as alike netlists is alike;
* `Netlist.Alike.settle`, `.toggle`: settlings and toggles keep netlists alike;
* `Netlist.Alike.commit`: clock edges keep netlists alike that are at rest.
-/

namespace Breadboard

variable {catalog : Catalog} {wires : List Wire} {inherited inputs : Pins}

/-! ## Scopes without double ids -/

/-- Without double ids an id finds the one instance that has it. -/
theorem findInstance?_eq_some_iff {scope : List Instance}
    (hnodup : (scope.map Instance.id).Nodup) {id : String} {i : Instance} :
    findInstance? scope id = some i ↔ i ∈ scope ∧ i.id = id := by
  constructor
  · intro h
    exact ⟨List.mem_of_find?_eq_some h, by simpa using List.find?_some h⟩
  · rintro ⟨hi, hid⟩
    cases hfind : findInstance? scope id with
    | none =>
      have hnone := List.find?_eq_none.1 hfind i hi
      simp [hid] at hnone
    | some j =>
      have hj := List.mem_of_find?_eq_some hfind
      have hjid : j.id = id := by simpa using List.find?_some hfind
      rw [List.inj_on_of_nodup_map hnodup hj hi (hjid.trans hid.symm)]

theorem findInstance?_perm {scope scope' : List Instance} (h : scope'.Perm scope)
    (hnodup : (scope.map Instance.id).Nodup) (id : String) :
    findInstance? scope' id = findInstance? scope id := by
  have hnodup' : (scope'.map Instance.id).Nodup := (h.map Instance.id).nodup_iff.2 hnodup
  refine Option.ext fun i => ?_
  rw [findInstance?_eq_some_iff hnodup, findInstance?_eq_some_iff hnodup', h.mem_iff]

/-- **Rest does not depend on the order of the instances.** -/
theorem Scope.AtRest.perm {scope scope' : List Instance}
    (h : Scope.AtRest catalog ⟨scope, wires, inherited⟩) (hperm : scope'.Perm scope)
    (hnodup : (scope.map Instance.id).Nodup) :
    Scope.AtRest catalog ⟨scope', wires, inherited⟩ := by
  refine Scope.atRest_iff.2 fun i hi => ?_
  have hrest := Scope.atRest_iff.1 h i (hperm.mem_iff.1 hi)
  have hinputs : Scope.inputsFor catalog ⟨scope', wires, inherited⟩ i.part =
      Scope.inputsFor catalog ⟨scope, wires, inherited⟩ i.part := by
    unfold Scope.inputsFor
    refine resolveInputs_congr rfl fun wire _ _ => ?_
    unfold Wire.read
    rw [findInstance?_perm hperm hnodup]
  rw [hinputs]
  exact hrest

/-! ## Alike netlists -/

/-- Netlists with the same chips in any order, that keep the same, and whose wires lead the same way
into every chip. -/
structure Netlist.Alike (catalog : Catalog) (n m : Netlist) : Prop where
  nodup : (n.instances.map Instance.id).Nodup
  kept : (keptAll m.instances).Perm (keptAll n.instances)
  wires : ∀ target, (n.wires.filter fun wire => wire.target == target) =
    m.wires.filter fun wire => wire.target == target
  acyclic : n.top.AcyclicInside
  plain : Throughout (Instance.Plain catalog) n.instances
  plain' : Throughout (Instance.Plain catalog) m.instances

section Alike

variable {n m : Netlist}

/-- The chips of the one in the order of the other. -/
theorem Netlist.Alike.aligned (h : Netlist.Alike catalog n m) :
    ∃ scope, scope.Perm m.instances ∧ keptAll scope = keptAll n.instances := by
  have hcomp : Relation.Comp (fun l l' => l = l'.map Instance.kept) List.Perm
      (keptAll n.instances) m.instances := by
    have hkept := h.kept.symm
    rw [keptAll_eq_map m.instances] at hkept
    rw [List.eq_map_comp_perm]
    exact hkept
  obtain ⟨scope, hscope, hperm⟩ := hcomp
  exact ⟨scope, hperm, by rw [keptAll_eq_map, hscope]⟩

theorem Netlist.Alike.ids (h : Netlist.Alike catalog n m) :
    (m.instances.map Instance.id).Perm (n.instances.map Instance.id) := by
  obtain ⟨scope, hperm, hkept⟩ := h.aligned
  rw [← map_id_of_keptAll hkept]
  exact (hperm.map Instance.id).symm

theorem Netlist.Alike.nodup' (h : Netlist.Alike catalog n m) :
    (m.instances.map Instance.id).Nodup :=
  h.ids.nodup_iff.2 h.nodup

/-- **Alike netlists at rest agree**, once one is put in the order of the other. -/
theorem Netlist.Alike.agree (h : Netlist.Alike catalog n m) (hrest : n.top.AtRest catalog)
    (hrest' : m.top.AtRest catalog) :
    ∃ scope, scope.Perm m.instances ∧ keptAll scope = keptAll n.instances ∧
      agreeAll n.instances scope = true := by
  obtain ⟨scope, hperm, hkept⟩ := h.aligned
  refine ⟨scope, hperm, hkept, ?_⟩
  exact agreeAll_of_atRest (s := n.top) (t := ⟨scope, m.wires, ∅⟩) h.acyclic hkept.symm h.wires
    (fun _ => rfl) h.plain (h.plain'.perm hperm) hrest (hrest'.perm hperm h.nodup')

/-- Chips of one id in alike netlists at rest agree. -/
theorem Netlist.Alike.agree_of_id (h : Netlist.Alike catalog n m) (hrest : n.top.AtRest catalog)
    (hrest' : m.top.AtRest catalog) {i j : Instance} (hi : i ∈ n.instances) (hj : j ∈ m.instances)
    (hid : i.id = j.id) : i.agree j = true := by
  obtain ⟨scope, hperm, hkept, hagree⟩ := h.agree hrest hrest'
  obtain ⟨k, hk⟩ := List.mem_iff_getElem?.1 hi
  obtain ⟨j', hj', hkept'⟩ := getElem?_of_keptAll hkept.symm hk
  have hjid : j'.id = j.id := by
    unfold Instance.id at hid ⊢
    rw [← hid, ← kept_part j', hkept', kept_part]
  have hmem := hperm.mem_iff.1 (List.mem_of_getElem? hj')
  rw [← List.inj_on_of_nodup_map h.nodup' hmem hj hjid]
  exact (agreeAll_iff.1 hagree).2 k i j' hk hj'

/-- What keeps the chips of alike netlists alike keeps the netlists alike. -/
theorem Netlist.Alike.map (h : Netlist.Alike catalog n m) {f : Instance → Instance}
    {scope : List Instance} (hscope : scope.Perm m.instances)
    (hkept : keptAll (scope.map f) = keptAll (n.instances.map f))
    (hblank : ∀ i, (f i).blank = i.blank)
    (hplain : ∀ l, Throughout (Instance.Plain catalog) l →
      Throughout (Instance.Plain catalog) (l.map f)) :
    Netlist.Alike catalog ⟨n.instances.map f, n.wires⟩ ⟨m.instances.map f, m.wires⟩ := by
  have hids : (n.instances.map f).map Instance.id = n.instances.map Instance.id := by
    rw [List.map_map]
    exact List.map_congr_left fun i _ => id_of_blank (hblank i)
  have hall : blankAll (n.instances.map f) = blankAll n.instances := by
    rw [blankAll_eq_map, blankAll_eq_map, List.map_map]
    exact List.map_congr_left fun i _ => hblank i
  refine ⟨hids ▸ h.nodup, ?_, h.wires, ?_, hplain _ h.plain, hplain _ h.plain'⟩
  · rw [← hkept, keptAll_eq_map, keptAll_eq_map]
    exact ((hscope.map f).map Instance.kept).symm
  · exact h.acyclic.of_blankAll hall.symm rfl

/-- Netlists that keep the same as alike netlists are alike. -/
theorem Netlist.Alike.of_kept (h : Netlist.Alike catalog n m) {n' m' : Netlist}
    (hkept : keptAll n'.instances = keptAll n.instances)
    (hkept' : keptAll m'.instances = keptAll m.instances) (hwires : n'.wires = n.wires)
    (hwires' : m'.wires = m.wires) (hplain : Throughout (Instance.Plain catalog) n'.instances)
    (hplain' : Throughout (Instance.Plain catalog) m'.instances) :
    Netlist.Alike catalog n' m' := by
  refine ⟨?_, ?_, fun target => ?_, ?_, hplain, hplain'⟩
  · rw [map_id_of_keptAll hkept]
    exact h.nodup
  · rw [hkept, hkept']
    exact h.kept
  · rw [hwires, hwires']
    exact h.wires target
  · exact h.acyclic.of_blankAll (blankAll_of_keptAll hkept).symm hwires.symm

/-- **Settling keeps netlists alike.** -/
theorem Netlist.Alike.settle (h : Netlist.Alike catalog n m) (limit limit' : Nat) :
    Netlist.Alike catalog ⟨(Breadboard.settle catalog n.wires limit n.instances).1, n.wires⟩
      ⟨(Breadboard.settle catalog m.wires limit' m.instances).1, m.wires⟩ :=
  h.of_kept (keptAll_settle limit n.instances) (keptAll_settle limit' m.instances) rfl rfl
    (throughout_plain_settle _ h.plain) (throughout_plain_settle _ h.plain')

/-- In alike netlists at rest an id finds chips that agree. -/
theorem Netlist.Alike.find_rel (h : Netlist.Alike catalog n m) (hrest : n.top.AtRest catalog)
    (hrest' : m.top.AtRest catalog) (id : String) :
    Option.Rel (fun i j => i.agree j = true) (findInstance? n.instances id)
      (findInstance? m.instances id) := by
  obtain ⟨scope, hperm, hkept, hagree⟩ := h.agree hrest hrest'
  have hids := map_id_of_keptAll hkept.symm
  rw [← findInstance?_perm hperm h.nodup']
  exact findInstance?_rel_of_agreeAll hids hagree id

end Alike

theorem keptAll_map_congr {f : Instance → Instance} {scope scope' : List Instance}
    (h : keptAll scope = keptAll scope')
    (hf : ∀ (k : Nat) (i j : Instance), scope[k]? = some i → scope'[k]? = some j →
      i.kept = j.kept → (f i).kept = (f j).kept) :
    keptAll (scope.map f) = keptAll (scope'.map f) := by
  rw [keptAll_eq_map, keptAll_eq_map, List.map_map, List.map_map]
  have hlength := length_of_blankAll (blankAll_of_keptAll h)
  refine map_eq_map_of_getElem? hlength fun k i j hi hj => ?_
  exact hf k i j hi hj (kept_of_keptAll h hi hj)

/-! ## Toggles -/

/-- The instance, flipped if it is the switch of the given id. -/
def Instance.flipped (id : String) (i : Instance) : Instance :=
  if i.id = id ∧ i.isInput = true then i.drive (!i.value) else i

theorem updateInstance_eq_map {scope : List Instance} (hnodup : (scope.map Instance.id).Nodup)
    (id : String) (f : Instance → Instance) :
    updateInstance scope id f = scope.map fun i => if i.id = id then f i else i := by
  induction scope with
  | nil => rfl
  | cons i rest ih =>
    rw [List.map_cons, List.nodup_cons] at hnodup
    rw [updateInstance, List.map_cons]
    by_cases hid : i.id = id
    · rw [if_pos hid, if_pos hid]
      refine congrArg (f i :: ·) ?_
      -- the others have other ids
      have hother : ∀ j ∈ rest, (if j.id = id then f j else j) = j := by
        intro j hj
        refine if_neg fun hjid => hnodup.1 ?_
        rw [hid, ← hjid]
        exact List.mem_map_of_mem hj
      rw [List.map_congr_left hother, List.map_id']
    · rw [if_neg hid, if_neg hid, ih hnodup.2]

/-- **Without double ids a toggle flips the switch of the id** and nothing else. -/
theorem toggleInput_eq_map {scope : List Instance} (hnodup : (scope.map Instance.id).Nodup)
    (id : String) : toggleInput scope id = scope.map (Instance.flipped id) := by
  unfold toggleInput
  split
  · rename_i found hfound
    obtain ⟨hfind, hinput⟩ := Option.filter_eq_some_iff.1 hfound
    obtain ⟨hmem, hid⟩ := (findInstance?_eq_some_iff hnodup).1 hfind
    rw [updateInstance_eq_map hnodup]
    refine List.map_congr_left fun i hi => ?_
    unfold Instance.flipped
    by_cases hiid : i.id = id
    · rw [List.inj_on_of_nodup_map hnodup hi hmem (hiid.trans hid.symm), if_pos hid,
        if_pos ⟨hid, hinput⟩]
    · rw [if_neg hiid, if_neg fun h => hiid h.1]
  · rename_i hnone
    have hkeep : ∀ i ∈ scope, Instance.flipped id i = i := by
      intro i hi
      unfold Instance.flipped
      refine if_neg fun h => ?_
      rw [(findInstance?_eq_some_iff hnodup).2 ⟨hi, h.1⟩] at hnone
      simp [h.2] at hnone
    rw [List.map_congr_left hkeep, List.map_id']

/-- What a flipped instance keeps is a matter of what it kept before. -/
theorem kept_flipped {i j : Instance} (h : i.kept = j.kept) (id : String) :
    (Instance.flipped id i).kept = (Instance.flipped id j).kept := by
  have hblank := blank_of_kept h
  unfold Instance.flipped
  rw [id_of_blank hblank, isInput_of_blank hblank]
  by_cases hj : j.id = id ∧ j.isInput = true
  · rw [if_pos hj, if_pos hj]
    obtain ⟨part, expanded, s, body⟩ := j
    cases body_of_isInput hj.2
    obtain ⟨s', rfl, hstored⟩ := kept_eq_primitive h
    have hvalue : (s'.stored .input).value = (s.stored .input).value := by rw [hstored]
    have hnext : (s'.stored .input).next = (s.stored .input).next := by rw [hstored]
    change s'.value = s.value at hvalue
    change s'.next = s.next at hnext
    change Instance.kept ⟨part, expanded, s'.drive (!s'.value), .primitive .input⟩ =
      Instance.kept ⟨part, expanded, s.drive (!s.value), .primitive .input⟩
    rw [kept_primitive, kept_primitive]
    unfold Signals.stored
    rw [Signals.drive_value, Signals.drive_value, Signals.drive_next, Signals.drive_next, hvalue,
      hnext]
  · rw [if_neg hj, if_neg hj]
    exact h

/-- **Toggles keep netlists alike.** -/
theorem Netlist.Alike.toggle {n m : Netlist} (h : Netlist.Alike catalog n m) (id : String) :
    Netlist.Alike catalog ⟨toggleInput n.instances id, n.wires⟩
      ⟨toggleInput m.instances id, m.wires⟩ := by
  obtain ⟨scope, hperm, hkept⟩ := h.aligned
  rw [toggleInput_eq_map h.nodup, toggleInput_eq_map h.nodup']
  refine h.map hperm ?_ (fun i => ?_) fun l hl => ?_
  · exact keptAll_map_congr hkept fun _ _ _ _ _ hij => kept_flipped hij id
  · unfold Instance.flipped
    split
    · exact blank_congr rfl rfl
    · rfl
  · refine throughout_iff.2 fun j hj => ?_
    obtain ⟨i, hi, rfl⟩ := List.mem_map.1 hj
    have hown := throughout_iff.1 hl i hi
    unfold Instance.flipped
    split
    · rename_i hinput
      exact throughout_drive (fun i bit hinput _ => plain_drive i bit hinput) _ hinput.2 hown
    · exact hown

/-! ## Clock edges -/

/-- After a clock edge, what an instance keeps is a matter of what it kept and held before: a
flip-flop takes its next value. -/
theorem kept_commit (i : Instance) : ∀ j : Instance, i.kept = j.kept → i.agree j = true →
    i.commit.1.kept = j.commit.1.kept := by
  induction i using Instance.induct with
  | leaf i hleaf =>
    intro j hkept hagree
    by_cases hk : i.body = .primitive .dff
    · obtain ⟨part, expanded, s, body⟩ := i
      cases hk
      obtain ⟨s', rfl, -⟩ := kept_eq_primitive hkept.symm
      obtain ⟨-, hnext, -⟩ := Signals.agree_iff.1 (agree_primitive.1 hagree)
      rw [commit_flipFlop, commit_flipFlop, kept_primitive, kept_primitive, hnext]
      rfl
    · have hk' : j.body ≠ .primitive .dff := by
        obtain ⟨part, expanded, s, body⟩ := j
        rintro rfl
        obtain ⟨s', rfl, -⟩ := kept_eq_primitive hkept
        exact hk rfl
      have hleaf' : j.isComposite = false := by
        rw [← isComposite_of_blank (blank_of_kept hkept)]
        exact hleaf
      rw [commit_leaf hleaf hk, commit_leaf hleaf' hk', hkept]
  | composite part expanded s parts inner ih =>
    intro j hkept hagree
    obtain ⟨s', parts', rfl, hparts⟩ := kept_eq_composite hkept.symm
    have hall := agreeAll_iff.1 (agree_composite.1 hagree).2
    have hinside : keptAll (commitAll parts).1 = keptAll (commitAll parts').1 := by
      rw [commitAll_fst, commitAll_fst]
      refine keptAll_map_congr hparts.symm fun k p p' hp hp' hpkept => ?_
      exact ih p (List.mem_of_getElem? hp) p' hpkept (hall.2 k p p' hp hp')
    rw [kept_composite, kept_composite] at hkept
    rw [commit_composite, commit_composite, kept_composite, kept_composite, hinside]
    have hnext : s.next = s'.next := congrArg (fun k => k.signals.next) hkept
    rw [hnext]

/-- **Clock edges keep netlists alike** that are at rest. -/
theorem Netlist.Alike.commit {n m : Netlist} (h : Netlist.Alike catalog n m)
    (hrest : n.top.AtRest catalog) (hrest' : m.top.AtRest catalog) :
    Netlist.Alike catalog ⟨(commitAll n.instances).1, n.wires⟩
      ⟨(commitAll m.instances).1, m.wires⟩ := by
  obtain ⟨scope, hperm, hkept, hagree⟩ := h.agree hrest hrest'
  rw [commitAll_fst, commitAll_fst]
  refine h.map hperm ?_ blank_commit fun l hl => ?_
  · refine keptAll_map_congr hkept fun k i j hi hj hij => ?_
    exact (kept_commit j i hij.symm ((agreeAll_iff.1 hagree).2 k j i hj hi)).symm
  · rw [← commitAll_fst]
    exact throughout_commitAll plain_commit hl

end Breadboard
