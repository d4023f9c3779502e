/-!
# Tables keyed by name, in the order the names first came

A `NameMap` is a list of `(name, value)` entries in which no name occurs twice. Pins, output taps
and chip types are all looked up by name and all written out in the order in which they were first
given, so the order is part of the value.

* `get? m k` is the value of `k`;
* `insert m k v` replaces the value of a name in its place, or adds a new name at the end
  (`get?_insert`, `keys_insert`);
* `erase m k` drops a name and keeps the order of the others (`get?_erase`);
* `agree a b` compares two tables without their order (`agree_iff`).
-/

namespace Breadboard

/-- Entries in order of first insertion, no name twice. -/
structure NameMap (α : Type) where
  entries : List (String × α)
  nodup : (entries.map Prod.fst).Nodup
deriving DecidableEq, Repr

namespace NameMap

variable {α : Type}

/-! ## Entry lists -/

/-- The value of the first entry for `k`. -/
def find? : List (String × α) → String → Option α
  | [], _ => none
  | (k', v) :: rest, k => if k' = k then some v else find? rest k

/-- Replace the value of `k`, or add an entry at the end. -/
def put : List (String × α) → String → α → List (String × α)
  | [], k, v => [(k, v)]
  | (k', v') :: rest, k, v => if k' = k then (k, v) :: rest else (k', v') :: put rest k v

theorem map_fst_put (l : List (String × α)) (k : String) (v : α) :
    (put l k v).map Prod.fst =
      if k ∈ l.map Prod.fst then l.map Prod.fst else l.map Prod.fst ++ [k] := by
  induction l with
  | nil => simp [put]
  | cons e rest ih =>
    obtain ⟨k', v'⟩ := e
    by_cases h : k' = k
    · simp [put, h]
    · simp only [put, if_neg h, List.map_cons, ih, List.mem_cons, Ne.symm h, false_or]
      split <;> simp

theorem nodup_put {l : List (String × α)} (h : (l.map Prod.fst).Nodup) (k : String) (v : α) :
    ((put l k v).map Prod.fst).Nodup := by
  rw [map_fst_put]
  split
  · exact h
  · rename_i hk
    exact List.nodup_append.2 ⟨h, by simp, fun a ha b hb => by
      rw [List.mem_singleton] at hb
      exact fun hab => hk (hb ▸ hab ▸ ha)⟩

theorem mem_put {l : List (String × α)} {k : String} {v : α} {e : String × α}
    (h : e ∈ put l k v) : e = (k, v) ∨ e ∈ l := by
  induction l with
  | nil => exact Or.inl (List.mem_singleton.1 h)
  | cons x rest ih =>
    obtain ⟨k', v'⟩ := x
    simp only [put] at h
    split at h
    · rcases List.mem_cons.1 h with h | h
      · exact Or.inl h
      · exact Or.inr (List.mem_cons_of_mem _ h)
    · rcases List.mem_cons.1 h with h | h
      · exact Or.inr (h ▸ List.mem_cons_self)
      · exact (ih h).imp id (List.mem_cons_of_mem _)

theorem find?_put (l : List (String × α)) (k : String) (v : α) (q : String) :
    find? (put l k v) q = if q = k then some v else find? l q := by
  induction l with
  | nil => simp [put, find?, eq_comm]
  | cons e rest ih =>
    obtain ⟨k', v'⟩ := e
    by_cases h : k' = k
    · subst h
      by_cases hq : q = k'
      · simp [put, find?, hq]
      · simp [put, find?, hq, Ne.symm hq]
    · by_cases hq : q = k
      · subst hq
        simp [put, find?, h, ih]
      · simp [put, find?, h, ih, hq]

/-! ## Tables -/

/-- The table without names. -/
def empty : NameMap α := ⟨[], List.nodup_nil⟩

instance : EmptyCollection (NameMap α) := ⟨empty⟩
instance : Inhabited (NameMap α) := ⟨empty⟩

/-- The names, in order. -/
def keys (m : NameMap α) : List String := m.entries.map Prod.fst

/-- The number of names. -/
def size (m : NameMap α) : Nat := m.entries.length

def isEmpty (m : NameMap α) : Bool := m.entries.isEmpty

/-- The value of `k`, if it has one. -/
def get? (m : NameMap α) (k : String) : Option α := find? m.entries k

def contains (m : NameMap α) (k : String) : Bool := (m.get? k).isSome

/-- Replace the value of `k` in its place, or add `k` at the end. -/
def insert (m : NameMap α) (k : String) (v : α) : NameMap α :=
  ⟨put m.entries k v, nodup_put m.nodup k v⟩

/-- The table of `l`: each name in the place where it first occurs, with its last value. -/
def ofList (l : List (String × α)) : NameMap α :=
  l.foldl (fun m e => m.insert e.1 e.2) empty

/-- The table without `k`. -/
def erase (m : NameMap α) (k : String) : NameMap α where
  entries := m.entries.filter fun e => e.1 != k
  nodup := m.nodup.sublist (List.filter_sublist.map Prod.fst)

/-- Equality without order: the same names with the same values. -/
def agree [BEq α] (a b : NameMap α) : Bool :=
  a.size == b.size && a.entries.all fun e => b.get? e.1 == some e.2

/-! ## Lemmas -/

@[simp] theorem entries_empty : (∅ : NameMap α).entries = [] := rfl

@[simp] theorem get?_empty (k : String) : (∅ : NameMap α).get? k = none := rfl

/-- **Reading after a write.** -/
theorem get?_insert (m : NameMap α) (k : String) (v : α) (q : String) :
    (m.insert k v).get? q = if q = k then some v else m.get? q :=
  find?_put m.entries k v q

/-- A name that is there keeps its place; a new one comes last. -/
theorem keys_insert (m : NameMap α) (k : String) (v : α) :
    (m.insert k v).keys = if k ∈ m.keys then m.keys else m.keys ++ [k] :=
  map_fst_put m.entries k v

theorem mem_insert {m : NameMap α} {k : String} {v : α} {e : String × α}
    (h : e ∈ (m.insert k v).entries) : e = (k, v) ∨ e ∈ m.entries :=
  mem_put h

theorem find?_eq_some_iff {l : List (String × α)} (h : (l.map Prod.fst).Nodup) {k : String}
    {v : α} : find? l k = some v ↔ (k, v) ∈ l := by
  induction l with
  | nil => simp [find?]
  | cons e rest ih =>
    obtain ⟨k', v'⟩ := e
    rw [List.map_cons, List.nodup_cons] at h
    by_cases hk : k' = k
    · subst hk
      simp only [find?, if_pos, Option.some.injEq, List.mem_cons, Prod.mk.injEq, true_and]
      refine ⟨fun hv => Or.inl hv.symm, fun hv => ?_⟩
      rcases hv with hv | hv
      · exact hv.symm
      · exact absurd (List.mem_map.2 ⟨_, hv, rfl⟩) h.1
    · simp [find?, hk, ih h.2, Ne.symm hk]

theorem get?_eq_some_iff {m : NameMap α} {k : String} {v : α} :
    m.get? k = some v ↔ (k, v) ∈ m.entries :=
  find?_eq_some_iff m.nodup

theorem contains_iff {m : NameMap α} {k : String} : m.contains k = true ↔ k ∈ m.keys := by
  rw [contains, Option.isSome_iff_exists]
  simp [get?_eq_some_iff, keys]

theorem get?_erase (m : NameMap α) (k q : String) :
    (m.erase k).get? q = if q = k then none else m.get? q := by
  apply Option.ext
  intro v
  rw [get?_eq_some_iff]
  by_cases h : q = k
  · simp [erase, h]
  · simp [erase, h, get?_eq_some_iff]

theorem size_erase_lt {m : NameMap α} {k : String} {v : α} (h : m.get? k = some v) :
    (m.erase k).size < m.size := by
  have hm := get?_eq_some_iff.1 h
  exact List.length_filter_lt_length_iff_exists.2 ⟨(k, v), hm, by simp⟩

/-- **`agree` compares the tables as functions.** -/
theorem agree_iff [BEq α] [LawfulBEq α] {a b : NameMap α} :
    a.agree b = true ↔ a.size = b.size ∧ ∀ k v, a.get? k = some v → b.get? k = some v := by
  simp only [agree, Bool.and_eq_true, beq_iff_eq, List.all_eq_true, get?_eq_some_iff]
  exact ⟨fun h => ⟨h.1, fun k v hk => h.2 (k, v) hk⟩, fun h => ⟨h.1, fun e he => h.2 e.1 e.2 he⟩⟩

end NameMap

end Breadboard
