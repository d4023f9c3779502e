import Breadboard.Circuit.Pass
import Mathlib.Data.List.Induction
import Mathlib.Data.List.Nodup
import Mathlib.Data.List.Perm.Subperm

/-!
# Pin tables as functions

A pass compares tables of pins without their order (`NameMap.agree`) and fills them entry by entry.
Here both are read as functions of the pin:

* `agree_iff_get?`: two tables agree iff every name has the same value in both;
* `get?_foldl_insert_last`, `keys_foldl_insert`: a list of entries written into a table, also with
  names that come more than once;
* `get?_ofList`: in a table made of a list, a name has its last value;
* `get?_foldl_insert`: writing the entries of one table into another;
* `ofList_entries`: the entries of a table make that table again;
* `outOnly`: the table with `OUT` as its only pin, which is what `Signals.drive` leaves.
-/

namespace Breadboard

namespace NameMap

variable {α : Type}

theorem nodup_entries (m : NameMap α) : m.entries.Nodup := m.nodup.of_map _

/-- **`agree` is equality of functions.** -/
theorem agree_iff_get? [BEq α] [LawfulBEq α] {a b : NameMap α} :
    a.agree b = true ↔ ∀ k, a.get? k = b.get? k := by
  rw [agree_iff]
  constructor
  · rintro ⟨hsize, hsub⟩ k
    -- the entries of `a` are among those of `b`, and they are as many
    have hperm : a.entries.Perm b.entries := by
      have hlength : b.entries.length ≤ a.entries.length := Nat.le_of_eq hsize.symm
      refine (List.subperm_of_subset a.nodup_entries fun e he => ?_).perm_of_length_le hlength
      exact get?_eq_some_iff.1 (hsub e.1 e.2 (get?_eq_some_iff.2 he))
    refine Option.ext fun v => ?_
    rw [get?_eq_some_iff, get?_eq_some_iff, hperm.mem_iff]
  · intro h
    have hperm : a.entries.Perm b.entries :=
      (List.perm_ext_iff_of_nodup a.nodup_entries b.nodup_entries).2 fun e => by
        rw [← get?_eq_some_iff, ← get?_eq_some_iff, h]
    exact ⟨hperm.length_eq, fun k v hv => h k ▸ hv⟩

@[simp] theorem agree_refl [BEq α] [LawfulBEq α] (a : NameMap α) : a.agree a = true :=
  agree_iff_get?.2 fun _ => rfl

theorem isEmpty_iff {m : NameMap α} : m.isEmpty = true ↔ ∀ k, m.get? k = none := by
  rw [isEmpty, List.isEmpty_iff, List.eq_nil_iff_forall_not_mem]
  constructor
  · intro h k
    refine Option.eq_none_iff_forall_not_mem.2 fun v hv => h (k, v) (get?_eq_some_iff.1 hv)
  · rintro h ⟨k, v⟩ hentry
    rw [← get?_eq_some_iff, h] at hentry
    exact absurd hentry (by simp)

/-! ## Writing -/

theorem put_of_find? {l : List (String × α)} {k : String} {v : α} (h : find? l k = some v) :
    put l k v = l := by
  induction l with
  | nil => exact absurd h (by simp [find?])
  | cons e rest ih =>
    obtain ⟨k', v'⟩ := e
    by_cases hk : k' = k
    · simp only [find?, if_pos hk, Option.some.injEq] at h
      simp [put, hk, h]
    · simp only [find?, if_neg hk] at h
      simp [put, hk, ih h]

/-- Writing the value that is there already changes nothing. -/
theorem insert_of_get? {m : NameMap α} {k : String} {v : α} (h : m.get? k = some v) :
    m.insert k v = m := by
  cases m with
  | mk entries nodup =>
    have hput : put entries k v = entries := put_of_find? h
    simp [insert, hput]

theorem get?_foldl_insert_list {β : Type} (f : β → α) (q : String) :
    ∀ (l : List (String × β)) (m : NameMap α), (l.map Prod.fst).Nodup →
      (l.foldl (fun out e => out.insert e.1 (f e.2)) m).get? q =
        ((find? l q).map f).or (m.get? q)
  | [], m, _ => by simp [find?]
  | (k, v) :: rest, m, h => by
    rw [List.map_cons, List.nodup_cons] at h
    rw [List.foldl_cons, get?_foldl_insert_list f q rest _ h.2, get?_insert]
    by_cases hq : q = k
    · -- the later entries have other names
      have hnone : find? rest q = none := by
        cases hf : find? rest q with
        | none => rfl
        | some w =>
          have hm := (find?_eq_some_iff h.2).1 hf
          exact absurd (List.mem_map.2 ⟨_, hm, hq⟩) h.1
      rw [hnone]
      simp [find?, hq]
    · simp [find?, hq, Ne.symm hq]

/-- **Writing the entries of a table into another**: they win over what was there. -/
theorem get?_foldl_insert {β : Type} (t : NameMap β) (f : β → α) (m : NameMap α) (q : String) :
    (t.entries.foldl (fun out e => out.insert e.1 (f e.2)) m).get? q =
      ((t.get? q).map f).or (m.get? q) :=
  get?_foldl_insert_list f q t.entries m t.nodup

/-- Writing entries that are all there already changes nothing. -/
theorem foldl_insert_of_get? {β : Type} (f : β → α) (m : NameMap α) :
    ∀ l : List (String × β), (∀ e ∈ l, m.get? e.1 = some (f e.2)) →
      l.foldl (fun out e => out.insert e.1 (f e.2)) m = m
  | [], _ => rfl
  | e :: rest, h => by
    rw [List.foldl_cons, insert_of_get? (h e List.mem_cons_self)]
    exact foldl_insert_of_get? f m rest fun e' he' => h e' (List.mem_cons_of_mem _ he')

/-- **Where the entries of a list are written** one after the other, a name has its last value, or
the one it had. -/
theorem get?_foldl_insert_last (l : List (String × α)) (m : NameMap α) (q : String) :
    (l.foldl (fun m e => m.insert e.1 e.2) m).get? q =
      (((l.filter fun e => e.1 == q).getLast?).map Prod.snd).or (m.get? q) := by
  induction l using List.reverseRecOn with
  | nil => rfl
  | append_singleton l e ih =>
    rw [List.foldl_append, List.foldl_cons, List.foldl_nil, get?_insert, List.filter_append]
    by_cases hq : q = e.1
    · simp [hq]
    · have hne : (e.1 == q) = false := by simpa using Ne.symm hq
      simp [hq, hne, ih]

/-- In the table of a list each name has its last value. -/
theorem get?_ofList (l : List (String × α)) (q : String) :
    (ofList l).get? q = ((l.filter fun e => e.1 == q).getLast?).map Prod.snd :=
  (get?_foldl_insert_last l empty q).trans (Option.or_none ..)

/-- Where the entries of a list are written one after the other, the names that were there keep
their places and the new ones follow, each where it first comes. -/
theorem keys_foldl_insert (l : List (String × α)) : ∀ m : NameMap α,
    (l.foldl (fun m e => m.insert e.1 e.2) m).keys =
      m.keys ++ ((l.map Prod.fst).removeAll m.keys).eraseDups := by
  induction l with
  | nil =>
    intro m
    rw [List.map_nil, List.nil_removeAll, List.eraseDups_nil, List.append_nil]
    rfl
  | cons e l ih =>
    intro m
    rw [List.foldl_cons, ih, keys_insert, List.map_cons, List.cons_removeAll]
    by_cases he : e.1 ∈ m.keys
    · rw [if_pos he, if_neg (by simpa using he)]
    · have hrest : (l.map Prod.fst).removeAll (m.keys ++ [e.1]) =
          ((l.map Prod.fst).removeAll m.keys).filter fun name => !name == e.1 := by
        unfold List.removeAll
        rw [List.filter_filter]
        refine List.filter_congr fun name _ => ?_
        rw [Bool.eq_iff_iff]
        simp [and_comm]
      rw [if_neg he, if_pos (by simpa using he), hrest, List.eraseDups_cons, List.append_assoc]
      rfl

/-- A table with one entry. -/
theorem entries_eq_singleton {m : NameMap α} {k : String} {v : α} (hsize : m.size = 1)
    (h : m.get? k = some v) : m.entries = [(k, v)] := by
  obtain ⟨e, he⟩ := List.length_eq_one_iff.1 hsize
  have hm := get?_eq_some_iff.1 h
  rw [he, List.mem_singleton] at hm
  rw [he, hm]

theorem ext_entries {a b : NameMap α} (h : a.entries = b.entries) : a = b := by
  cases a
  cases b
  cases h
  rfl

theorem put_of_not_mem {l : List (String × α)} {k : String} (h : k ∉ l.map Prod.fst) (v : α) :
    put l k v = l ++ [(k, v)] := by
  induction l with
  | nil => rfl
  | cons e l ih =>
    rw [List.map_cons, List.mem_cons, not_or] at h
    rw [put, if_neg (Ne.symm h.1), ih h.2, List.cons_append]

/-- Writing entries of new names adds them at the end. -/
theorem entries_foldl_insert (l : List (String × α)) : ∀ m : NameMap α,
    ((m.entries ++ l).map Prod.fst).Nodup →
      (l.foldl (fun m e => m.insert e.1 e.2) m).entries = m.entries ++ l := by
  induction l with
  | nil => exact fun m _ => (List.append_nil _).symm
  | cons e l ih =>
    intro m hnodup
    have hnew : (m.insert e.1 e.2).entries = m.entries ++ [e] := by
      refine put_of_not_mem (fun hmem => ?_) e.2
      rw [List.map_append, List.nodup_append] at hnodup
      exact hnodup.2.2 _ hmem e.1 (by simp) rfl
    rw [List.foldl_cons, ih _ (by rw [hnew, List.append_assoc]; exact hnodup), hnew,
      List.append_assoc]
    rfl

/-- The table of the entries of a table is that table. -/
theorem ofList_entries (m : NameMap α) : ofList m.entries = m :=
  ext_entries (entries_foldl_insert m.entries empty m.nodup)

end NameMap

/-! ## The outputs of a driven chip -/

/-- `OUT` alone. -/
def outOnly (bit : Bool) : Pins := NameMap.empty.insert outPin bit

@[simp] theorem get?_outOnly (bit : Bool) (pin : String) :
    (outOnly bit).get? pin = if pin = outPin then some bit else none :=
  NameMap.get?_insert _ _ _ _

@[simp] theorem entries_outOnly (bit : Bool) : (outOnly bit).entries = [(outPin, bit)] := rfl

namespace Signals

@[simp] theorem drive_value (s : Signals) (bit : Bool) : (s.drive bit).value = bit := rfl

@[simp] theorem drive_next (s : Signals) (bit : Bool) : (s.drive bit).next = s.next := rfl

@[simp] theorem drive_inputs (s : Signals) (bit : Bool) : (s.drive bit).inputs = s.inputs := rfl

@[simp] theorem drive_outputs (s : Signals) (bit : Bool) : (s.drive bit).outputs = outOnly bit :=
  rfl

/-- Driving the bit that is driven already changes nothing. -/
theorem drive_eq_self {s : Signals} {bit : Bool} (hv : s.value = bit)
    (ho : s.outputs = outOnly bit) : s.drive bit = s := by
  cases s
  simp only at hv ho
  subst hv ho
  rfl

theorem isDriven_iff {s : Signals} {bit : Bool} :
    s.isDriven bit = true ↔ s.outputs.size = 1 ∧ s.output outPin = bit := by
  simp [isDriven]

theorem isDriven_of_outOnly {s : Signals} {bit : Bool} (h : s.outputs = outOnly bit) :
    s.isDriven bit = true := by
  rw [isDriven_iff, output, h]
  exact ⟨rfl, by simp⟩

theorem isSteady_iff {a b : Signals} :
    a.isSteady b = true ↔ a.value = b.value ∧ a.next = b.next := by
  simp [isSteady]

theorem isPublished_iff {pinMap : PinMap} {parts : List Instance} {s : Signals} :
    s.isPublished pinMap parts = true ↔
      ∀ e ∈ pinMap.outputs.entries, s.outputs.get? e.1 = some (e.2.read parts) := by
  simp [isPublished]

theorem receive_of_agree {s : Signals} {inputs : Pins} (h : s.inputs.agree inputs = true) :
    s.receive inputs = s := if_pos h

/-- What is received agrees with what came. -/
theorem agree_receive (s : Signals) (inputs : Pins) :
    (s.receive inputs).inputs.agree inputs = true := by
  unfold receive
  split
  · assumption
  · exact NameMap.agree_refl _

@[simp] theorem receive_value (s : Signals) (inputs : Pins) :
    (s.receive inputs).value = s.value := by
  unfold receive
  split <;> rfl

@[simp] theorem receive_next (s : Signals) (inputs : Pins) : (s.receive inputs).next = s.next := by
  unfold receive
  split <;> rfl

@[simp] theorem receive_outputs (s : Signals) (inputs : Pins) :
    (s.receive inputs).outputs = s.outputs := by
  unfold receive
  split <;> rfl

/-- **What is published, pin by pin**: a pin of the map has the bit of its tap, any other keeps
its own. -/
theorem get?_publish (pinMap : PinMap) (parts : List Instance) (s : Signals) (pin : String) :
    (s.publish pinMap parts).outputs.get? pin =
      ((pinMap.outputs.get? pin).map (Tap.read parts)).or (s.outputs.get? pin) :=
  NameMap.get?_foldl_insert pinMap.outputs (Tap.read parts) s.outputs pin

end Signals

end Breadboard
