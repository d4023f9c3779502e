import Breadboard.Circuit.Blueprint
import Mathlib.Data.List.Nodup
import Mathlib.Logic.Relation
import Mathlib.Order.WellFounded

/-!
# Chip types that contain each other

The parts of a composite are built from the catalog without the composite itself, so that building
ends on every catalog. In a catalog where no type contains itself that makes no difference:

* `bodyOf_erase`: a type is built alike without another one that it does not contain;
* **`bodyOf_eq_fresh`**: the parts of a composite are fresh chips, built from the whole catalog;
* `noCycle_of_rank`: a catalog has no cycle if its types can be ranked.
-/

namespace Breadboard

/-- A chip of type `chip` has a part of type `inner`. -/
def Catalog.Contains (catalog : Catalog) (chip inner : String) : Prop :=
  ∃ d part, catalog.get? chip = some (.composite d) ∧ part ∈ d.parts ∧ part.chip = inner

/-- No chip type contains itself, at any depth. -/
def Catalog.NoCycle (catalog : Catalog) : Prop :=
  ∀ chip, ¬Relation.TransGen catalog.Contains chip chip

variable {catalog : Catalog}

theorem Catalog.Contains.of_erase {taken chip inner : String}
    (h : (catalog.erase taken).Contains chip inner) : catalog.Contains chip inner := by
  obtain ⟨d, part, hget, hpart, hchip⟩ := h
  rw [Catalog.get?_erase] at hget
  split at hget
  · exact absurd hget (by simp)
  · exact ⟨d, part, hget, hpart, hchip⟩

/-- Types are taken out in any order. -/
theorem Catalog.erase_comm (catalog : Catalog) (a b : String) :
    (catalog.erase a).erase b = (catalog.erase b).erase a := by
  cases catalog with
  | mk chips upper_name upper_parts =>
    simp only [Catalog.erase, NameMap.erase, Catalog.mk.injEq, NameMap.mk.injEq,
      List.filter_filter]
    exact List.filter_congr fun e _ => Bool.and_comm _ _

/-- The parts of a composite of a catalog have their types in upper case. -/
theorem fold_of_mem_parts {chip : String} {d : Composite}
    (h : catalog.get? chip = some (.composite d)) {part : Part} (hpart : part ∈ d.parts) :
    part.fold = part := by
  have hfold := catalog.upper_parts _ (NameMap.get?_eq_some_iff.1 h)
  simp only [ChipType.fold, ChipType.composite.injEq] at hfold
  have hparts : d.parts.map Part.fold = d.parts := congrArg Composite.parts hfold
  exact List.map_inj_left.1 (hparts.trans (List.map_id d.parts).symm) part hpart

/-- **A type is built alike without another one that it does not contain.** -/
theorem bodyOf_erase (catalog : Catalog) (chip : String) : ∀ taken,
    (∀ inner, Relation.ReflTransGen catalog.Contains chip inner → inner ≠ taken) →
      bodyOf (catalog.erase taken) chip = bodyOf catalog chip := by
  induction catalog, chip using bodyOf.induct with
  | case1 catalog =>
    intro taken _
    rw [bodyOf_input, bodyOf_input]
  | case2 catalog chip hi hget =>
    intro taken _
    have hget' : (catalog.erase taken).get? chip = none := by
      rw [Catalog.get?_erase, hget, ite_self]
    rw [bodyOf_unknown hi hget, bodyOf_unknown hi hget']
  | case3 catalog chip hi d hget =>
    intro taken h
    have hget' : (catalog.erase taken).get? chip = some (.primitive d) := by
      rw [Catalog.get?_erase, if_neg (h chip .refl), hget]
    rw [bodyOf_primitive hi hget, bodyOf_primitive hi hget']
  | case4 catalog chip hi d hget ih =>
    intro taken h
    have hget' : (catalog.erase taken).get? chip = some (.composite d) := by
      rw [Catalog.get?_erase, if_neg (h chip .refl), hget]
    rw [bodyOf_composite hi hget, bodyOf_composite hi hget']
    refine congrArg (Body.composite · d.wires) (List.map_congr_left fun part hpart => ?_)
    rw [Catalog.erase_comm, ih part taken fun inner hinner => h inner ?_]
    -- what the part contains without its composite, the composite contains
    have hless : (catalog.erase chip).Contains ≤ catalog.Contains := fun _ _ hab => hab.of_erase
    have hpath := Relation.ReflTransGen.mono hless _ _ hinner
    exact .head ⟨d, part, hget, hpart, rfl⟩ hpath

/-- **The parts of a composite are fresh chips**, in a catalog where no type contains itself. -/
theorem bodyOf_eq_fresh (h : catalog.NoCycle) {chip : String} (hi : chip ≠ inputType)
    {d : Composite} (hget : catalog.get? chip = some (.composite d)) :
    bodyOf catalog chip = .composite (d.parts.map (Instance.fresh catalog)) d.wires := by
  rw [bodyOf_composite hi hget]
  refine congrArg (Body.composite · d.wires) (List.map_congr_left fun part hpart => ?_)
  have hout : ∀ inner, Relation.ReflTransGen catalog.Contains part.chip inner → inner ≠ chip := by
    rintro inner hinner rfl
    exact h inner (.head' ⟨d, part, hget, hpart, rfl⟩ hinner)
  rw [bodyOf_erase catalog part.chip chip hout]
  unfold Instance.fresh
  rw [fold_of_mem_parts hget hpart]

/-- A catalog has no cycle if its types can be ranked. -/
theorem noCycle_of_rank (rank : String → Nat)
    (h : ∀ chip inner, catalog.Contains chip inner → rank inner < rank chip) : catalog.NoCycle := by
  have hlt : ∀ chip inner, Relation.TransGen catalog.Contains chip inner →
      rank inner < rank chip := by
    intro chip inner hpath
    induction hpath with
    | single hab => exact h _ _ hab
    | tail _ hab ih => exact Nat.lt_trans (h _ _ hab) ih
  exact fun chip hpath => Nat.lt_irrefl _ (hlt chip chip hpath)

end Breadboard
