import Breadboard.Proofs.Shape
import Mathlib.Data.Finset.Card
import Mathlib.Data.List.MinMax
import Mathlib.Logic.Relation
import Mathlib.Order.Nat
import Mathlib.Order.WellFounded

/-!
# Levels

Within a scope the `j`-th instance **feeds** the `k`-th if some wire leads from it to the `k`-th and
its outputs are computed by a pass, that is if it is no switch and no flip-flop. A scope is
**acyclic** if no instance feeds itself along any path.

The level at which an instance is finished counts the passes that it takes until its bits are final:
its own depth, after the levels of all that feed it. The depth of a composite is the last level
inside it, and 1 for every other chip.

* `acyclic_iff_wellFounded`: no instance feeds itself iff feeding is well-founded;
* `acyclicInside_of_listedForward`: a circuit whose wires all lead forward has no cycle;
* `Scope.Acyclic.finish_eq`: the equation of `Scope.finish`, which is computed with a bound on the
  length of paths, for acyclic scopes;
* `Scope.AcyclicInside.of_blankAll`, `depth_of_blank`, `latest_of_blankAll`: cycles, depths and
  levels are a matter of the shape.
-/

namespace Breadboard

/-! ## Ranks of finite acyclic relations -/

section Rank

variable {r : Nat → Nat → Prop} {n : Nat}

open Classical in
/-- The number of places below `n` that lead to `k` along `r`. -/
noncomputable def ancestors (r : Nat → Nat → Prop) (n k : Nat) : Nat :=
  ((Finset.range n).filter fun j => Relation.TransGen r j k).card

/-- **One step forward has more ancestors**, where nothing leads to itself. -/
theorem ancestors_lt (hacyclic : ∀ k, ¬Relation.TransGen r k k) (hn : ∀ j k, r j k → j < n)
    {j k : Nat} (h : r j k) : ancestors r n j < ancestors r n k := by
  classical
  refine Finset.card_lt_card (Finset.ssubset_iff_of_subset ?_ |>.2 ⟨j, ?_, ?_⟩)
  · intro i hi
    rw [Finset.mem_filter] at hi ⊢
    exact ⟨hi.1, hi.2.tail h⟩
  · rw [Finset.mem_filter, Finset.mem_range]
    exact ⟨hn j k h, .single h⟩
  · rw [Finset.mem_filter]
    exact fun hj => hacyclic j hj.2

/-- There are fewer ancestors than places. -/
theorem ancestors_lt_of_lt (hacyclic : ∀ k, ¬Relation.TransGen r k k) {k : Nat} (hk : k < n) :
    ancestors r n k < n := by
  classical
  have hlt : ancestors r n k < (Finset.range n).card := by
    refine Finset.card_lt_card (Finset.ssubset_iff_of_subset (Finset.filter_subset _ _) |>.2
      ⟨k, Finset.mem_range.2 hk, ?_⟩)
    rw [Finset.mem_filter]
    exact fun h => hacyclic k h.2
  rwa [Finset.card_range] at hlt

/-- A relation on finitely many places is well-founded iff nothing leads to itself. -/
theorem wellFounded_iff_of_lt (hn : ∀ j k, r j k → j < n) :
    WellFounded r ↔ ∀ k, ¬Relation.TransGen r k k := by
  constructor
  · intro h k
    exact h.transGen.irrefl.irrefl k
  · intro hacyclic
    exact Subrelation.wf (fun h => ancestors_lt hacyclic hn h)
      (InvImage.wf (ancestors r n) wellFounded_lt)

end Rank

/-! ## Feeding -/

/-- A wire leads from the `j`-th instance, which is no switch and no flip-flop, to the `k`-th. -/
def Scope.Feeds (s : Scope) (j k : Nat) : Prop :=
  ∃ source target wire, s.instances[j]? = some source ∧ s.instances[k]? = some target ∧
    wire ∈ s.wires ∧ seat? s.instances wire.source = some j ∧ wire.target = target.id ∧
    source.isStored = false

/-- No instance feeds itself, along any path. -/
def Scope.Acyclic (s : Scope) : Prop := ∀ k, ¬Relation.TransGen s.Feeds k k

/-- No instance feeds itself in the scope or in any scope inside it. -/
def Scope.AcyclicInside (s : Scope) : Prop := ∀ t, s.Holds t → t.Acyclic

theorem Scope.Feeds.lt {s : Scope} {j k : Nat} (h : s.Feeds j k) :
    j < s.instances.length ∧ k < s.instances.length := by
  obtain ⟨source, target, wire, hj, hk, -⟩ := h
  exact ⟨(List.getElem?_eq_some_iff.1 hj).1, (List.getElem?_eq_some_iff.1 hk).1⟩

/-- **Feeding is well-founded iff it has no cycle.** -/
theorem acyclic_iff_wellFounded {s : Scope} : s.Acyclic ↔ WellFounded s.Feeds :=
  (wellFounded_iff_of_lt fun _ _ h => h.lt.1).symm

theorem Scope.AcyclicInside.inside {s : Scope} (h : s.AcyclicInside) {part : Part}
    {expanded : Bool} {signals : Signals} {parts : List Instance} {inner : List Wire}
    (hi : ⟨part, expanded, signals, .composite parts inner⟩ ∈ s.instances) :
    Scope.AcyclicInside ⟨parts, inner, signals.inputs⟩ :=
  fun t ht => h t (.inside hi ht)

/-- The instances that feed the `k`-th, as often as wires lead from them to it. -/
def drivers (scope : List Instance) (wires : List Wire) (k : Nat) : List Nat :=
  match scope[k]? with
  | none => []
  | some target =>
    (wires.filter fun wire => wire.target == target.id).filterMap fun wire =>
      (seat? scope wire.source).filter fun j => (scope[j]?).any fun source => !source.isStored

theorem mem_drivers {s : Scope} {j k : Nat} :
    j ∈ drivers s.instances s.wires k ↔ s.Feeds j k := by
  unfold drivers Scope.Feeds
  cases hk : s.instances[k]? with
  | none => simp
  | some target =>
    simp only [List.mem_filterMap, List.mem_filter, beq_iff_eq, Option.filter_eq_some_iff,
      Option.any_eq_true, Bool.not_eq_true', Option.some.injEq]
    constructor
    · rintro ⟨wire, ⟨hwire, htarget⟩, hseat, source, hsource, hstored⟩
      exact ⟨source, target, wire, hsource, rfl, hwire, hseat, htarget, hstored⟩
    · rintro ⟨source, _, wire, hsource, rfl, hwire, hseat, htarget, hstored⟩
      exact ⟨wire, ⟨hwire, htarget⟩, hseat, source, hsource, hstored⟩

/-! ## Circuits listed forward -/

/-- Does every wire lead from a switch, from a flip-flop or to a later instance? -/
def leadsForward (scope : List Instance) (wires : List Wire) : Bool :=
  (List.range scope.length).all fun k => (drivers scope wires k).all fun j => j < k

mutual

/-- Do all wires inside the instance lead forward, at every depth? -/
def Instance.listedForward : Instance → Bool
  | ⟨_, _, _, body⟩ =>
    match body with
    | .composite parts wires => leadsForward parts wires && allListedForward parts
    | _ => true

/-- `Instance.listedForward` of all instances of a scope. -/
def allListedForward : List Instance → Bool
  | [] => true
  | i :: rest => i.listedForward && allListedForward rest

end

/-- Do all wires lead forward, at every depth? -/
def Scope.listedForward (s : Scope) : Bool :=
  leadsForward s.instances s.wires && allListedForward s.instances

theorem Scope.Feeds.lt_of_leadsForward {s : Scope} (h : leadsForward s.instances s.wires = true)
    {j k : Nat} (hfeeds : s.Feeds j k) : j < k := by
  unfold leadsForward at h
  rw [List.all_eq_true] at h
  have hk := h k (List.mem_range.2 hfeeds.lt.2)
  rw [List.all_eq_true] at hk
  simpa using hk j (mem_drivers.2 hfeeds)

theorem acyclic_of_leadsForward {s : Scope} (h : leadsForward s.instances s.wires = true) :
    s.Acyclic := by
  have hlt : ∀ j k, Relation.TransGen s.Feeds j k → j < k := by
    intro j k hpath
    induction hpath with
    | single hfeeds => exact hfeeds.lt_of_leadsForward h
    | tail _ hfeeds ih => exact Nat.lt_trans ih (hfeeds.lt_of_leadsForward h)
  exact fun k hpath => Nat.lt_irrefl k (hlt k k hpath)

theorem allListedForward_iff {scope : List Instance} :
    allListedForward scope = true ↔ ∀ i ∈ scope, i.listedForward = true := by
  induction scope with
  | nil => simp [allListedForward]
  | cons i rest ih => simp [allListedForward, ih]

/-- **A circuit whose wires lead forward has no cycle**, at any depth. -/
theorem acyclicInside_of_listedForward {s : Scope} (h : s.listedForward = true) :
    s.AcyclicInside := by
  intro t hst
  induction hst with
  | refl s =>
    unfold Scope.listedForward at h
    rw [Bool.and_eq_true] at h
    exact acyclic_of_leadsForward h.1
  | inside hi _ ih =>
    unfold Scope.listedForward at h
    rw [Bool.and_eq_true] at h
    have hown := allListedForward_iff.1 h.2 _ hi
    rw [Instance.listedForward] at hown
    exact ih hown

/-! ## Levels -/

/-- The highest of some levels, 0 if there are none. -/
def highest (levels : List Nat) : Nat := levels.foldr max 0

theorem le_highest {levels : List Nat} {level : Nat} (h : level ∈ levels) :
    level ≤ highest levels :=
  List.le_max_of_le' 0 h (Nat.le_refl level)

/-- The level of `k` along paths of less than `bound` steps: its own depth, after the highest level
of those in `before k`. -/
def levelWithin (depth : Nat → Nat) (before : Nat → List Nat) : Nat → Nat → Nat
  | 0, _ => 0
  | bound + 1, k => depth k + highest ((before k).map (levelWithin depth before bound))

/-- The level of the `k`-th instance of a scope whose instances have the given depths. A path
through the scope has less steps than the scope has instances. -/
def levelIn (scope : List Instance) (wires : List Wire) (depths : List Nat) (k : Nat) : Nat :=
  levelWithin (fun j => (depths[j]?).getD 0) (drivers scope wires) scope.length k

/-- The last level of a scope whose instances have the given depths. -/
def lastLevel (scope : List Instance) (wires : List Wire) (depths : List Nat) : Nat :=
  highest ((List.range scope.length).map (levelIn scope wires depths))

mutual

/-- The number of passes that an instance needs under inputs that do not change. -/
def Instance.depth : Instance → Nat
  | ⟨_, _, _, body⟩ =>
    match body with
    | .composite parts wires => max 1 (lastLevel parts wires (depths parts))
    | _ => 1

/-- The depths of the instances of a scope. -/
def depths : List Instance → List Nat
  | [] => []
  | i :: rest => i.depth :: depths rest

end

/-- The level at which the `k`-th instance of a scope is finished. -/
def Scope.finish (s : Scope) (k : Nat) : Nat := levelIn s.instances s.wires (depths s.instances) k

/-- The level at which the last instance of a scope is finished, 0 if the scope is empty. -/
def Scope.latest (s : Scope) : Nat := lastLevel s.instances s.wires (depths s.instances)

theorem depths_eq_map (scope : List Instance) : depths scope = scope.map Instance.depth := by
  induction scope with
  | nil => rw [depths]; rfl
  | cons i rest ih => rw [depths, ih]; rfl

/-- The depth of a chip without parts is 1. -/
theorem depth_leaf {i : Instance} (h : i.isComposite = false) : i.depth = 1 := by
  obtain ⟨part, expanded, s, body⟩ := i
  cases body with
  | composite parts wires => exact absurd h (by simp [Instance.isComposite])
  | unknown | primitive => simp [Instance.depth]

/-- The depth of a composite is the last level inside it, and at least 1. -/
theorem depth_composite (part : Part) (expanded : Bool) (s : Signals) (parts : List Instance)
    (wires : List Wire) :
    Instance.depth ⟨part, expanded, s, .composite parts wires⟩ =
      max 1 (Scope.latest ⟨parts, wires, s.inputs⟩) := by
  rw [Instance.depth]
  rfl

theorem Scope.finish_le_latest {s : Scope} {k : Nat} (hk : k < s.instances.length) :
    s.finish k ≤ s.latest :=
  le_highest (List.mem_map.2 ⟨k, List.mem_range.2 hk, rfl⟩)

/-- A bound that exceeds the number of ancestors leaves no path out. -/
theorem levelWithin_eq {s : Scope} (h : s.Acyclic) (depth : Nat → Nat) (bound : Nat) :
    ∀ (bound' k : Nat), ancestors s.Feeds s.instances.length k < bound →
      ancestors s.Feeds s.instances.length k < bound' →
        levelWithin depth (drivers s.instances s.wires) bound k =
          levelWithin depth (drivers s.instances s.wires) bound' k := by
  induction bound with
  | zero => exact fun _ _ hk _ => absurd hk (Nat.not_lt_zero _)
  | succ bound ih =>
    intro bound' k hk hk'
    cases bound' with
    | zero => exact absurd hk' (Nat.not_lt_zero _)
    | succ bound' =>
      rw [levelWithin, levelWithin]
      refine congrArg (fun l => depth k + highest l) (List.map_congr_left fun j hj => ?_)
      have hlt := ancestors_lt h (fun _ _ hfeeds => hfeeds.lt.1) (mem_drivers.1 hj)
      exact ih bound' j (by omega) (by omega)

/-- **The equation of levels**: an instance of an acyclic scope is finished its own depth after the
last of those that feed it. -/
theorem Scope.Acyclic.finish_eq {s : Scope} (h : s.Acyclic) {k : Nat} {i : Instance}
    (hk : s.instances[k]? = some i) :
    s.finish k = i.depth + highest ((drivers s.instances s.wires k).map s.finish) := by
  have hlt : k < s.instances.length := (List.getElem?_eq_some_iff.1 hk).1
  have hfew := ancestors_lt_of_lt h hlt
  have hdepth : ((depths s.instances)[k]?).getD 0 = i.depth := by
    rw [depths_eq_map, List.getElem?_map, hk]
    rfl
  have hmore : s.finish k = levelWithin (fun j => ((depths s.instances)[j]?).getD 0)
      (drivers s.instances s.wires) (s.instances.length + 1) k :=
    levelWithin_eq h _ _ _ k hfew (by omega)
  rw [hmore, levelWithin, hdepth]
  rfl

/-- All that feed an instance are finished before it is. -/
theorem Scope.Acyclic.finish_add_depth_le {s : Scope} (h : s.Acyclic) {j k : Nat} {i : Instance}
    (hk : s.instances[k]? = some i) (hfeeds : s.Feeds j k) :
    s.finish j + i.depth ≤ s.finish k := by
  have hle := le_highest (List.mem_map.2 ⟨j, mem_drivers.2 hfeeds, rfl⟩ :
    s.finish j ∈ (drivers s.instances s.wires k).map s.finish)
  rw [h.finish_eq hk]
  omega

/-! ## Levels are a matter of the shape -/

/-- Who feeds whom is a matter of the shape. -/
theorem Scope.Feeds.of_blankAll {s t : Scope}
    (hblank : blankAll s.instances = blankAll t.instances) (hwires : s.wires = t.wires) {j k : Nat}
    (h : s.Feeds j k) : t.Feeds j k := by
  obtain ⟨source, target, wire, hj, hk, hwire, hseat, htarget, hstored⟩ := h
  obtain ⟨source', hj', hsource⟩ := getElem?_of_blankAll hblank hj
  obtain ⟨target', hk', htarget'⟩ := getElem?_of_blankAll hblank hk
  refine ⟨source', target', wire, hj', hk', hwires ▸ hwire, ?_, ?_, ?_⟩
  · rw [← seat?_congr (map_id_of_blankAll hblank)]
    exact hseat
  · rw [htarget, id_of_blank htarget']
  · rw [isStored_of_blank hsource]
    exact hstored

theorem feeds_of_blankAll {s t : Scope} (hblank : blankAll s.instances = blankAll t.instances)
    (hwires : s.wires = t.wires) : s.Feeds = t.Feeds := by
  funext j k
  exact propext
    ⟨fun h => h.of_blankAll hblank hwires, fun h => h.of_blankAll hblank.symm hwires.symm⟩

/-- **Cycles are a matter of the shape**, at every depth. -/
theorem Scope.AcyclicInside.of_blankAll {s t : Scope} (h : s.AcyclicInside)
    (hblank : blankAll s.instances = blankAll t.instances) (hwires : s.wires = t.wires) :
    t.AcyclicInside := by
  intro u hu
  obtain ⟨u', hu', hblank', hwires'⟩ := hu.of_blank hblank hwires
  have hacyclic := h u' hu'
  unfold Scope.Acyclic at hacyclic ⊢
  rw [← feeds_of_blankAll hblank' hwires']
  exact hacyclic

/-- No instance feeds itself inside the instance, at any depth. -/
def Instance.AcyclicInside (i : Instance) : Prop :=
  ∀ parts wires, i.body = .composite parts wires → Scope.AcyclicInside ⟨parts, wires, ∅⟩

theorem Scope.AcyclicInside.instance {s : Scope} (h : s.AcyclicInside) {i : Instance}
    (hi : i ∈ s.instances) : i.AcyclicInside := by
  obtain ⟨part, expanded, signals, body⟩ := i
  rintro parts wires rfl
  exact (h.inside hi).of_blankAll rfl rfl

/-- Who drives whom is a matter of the shape. -/
theorem drivers_of_blankAll {scope scope' : List Instance} (h : blankAll scope = blankAll scope')
    (wires : List Wire) : drivers scope wires = drivers scope' wires := by
  have hget : ∀ k : Nat, (scope[k]?).map Instance.blank = (scope'[k]?).map Instance.blank := by
    intro k
    rw [← List.getElem?_map, ← List.getElem?_map, ← blankAll_eq_map, ← blankAll_eq_map, h]
  have hstored : ∀ j : Nat, ((scope[j]?).any fun source => !source.isStored) =
      (scope'[j]?).any fun source => !source.isStored := by
    intro j
    cases hj : scope[j]? with
    | none =>
      have hj' := hget j
      rw [hj] at hj'
      rw [Option.map_eq_none_iff.1 hj'.symm]
    | some source =>
      obtain ⟨source', hj', hblank⟩ := getElem?_of_blankAll h hj
      rw [hj', Option.any_some, Option.any_some, isStored_of_blank hblank]
  funext k
  unfold drivers
  cases hk : scope[k]? with
  | none =>
    have hk' := hget k
    rw [hk] at hk'
    rw [Option.map_eq_none_iff.1 hk'.symm]
  | some target =>
    obtain ⟨target', hk', hblank⟩ := getElem?_of_blankAll h hk
    simp only [hk', id_of_blank hblank, seat?_congr (map_id_of_blankAll h), hstored]

/-- Levels are a matter of the shape and of the depths. -/
theorem latest_of_blankAll_of {s t : Scope} (hblank : blankAll s.instances = blankAll t.instances)
    (hwires : s.wires = t.wires)
    (hdepth : ∀ i ∈ s.instances, ∀ j : Instance, i.blank = j.blank → i.depth = j.depth) :
    s.latest = t.latest := by
  have hlength := length_of_blankAll hblank
  have hdepths : depths s.instances = depths t.instances := by
    rw [depths_eq_map, depths_eq_map]
    refine map_eq_map_of_getElem? hlength fun k i j hi hj => ?_
    exact hdepth i (List.mem_of_getElem? hi) j (blank_of_blankAll hblank hi hj)
  unfold Scope.latest lastLevel
  rw [hlength, hdepths, hwires]
  congr 2
  funext k
  unfold levelIn
  rw [drivers_of_blankAll hblank, hlength]

/-- **The depth of an instance is a matter of its shape.** -/
theorem depth_of_blank (i : Instance) : ∀ j : Instance, i.blank = j.blank → i.depth = j.depth := by
  induction i using Instance.induct with
  | leaf i hleaf =>
    intro j h
    rw [depth_leaf hleaf, depth_leaf (isComposite_of_blank h ▸ hleaf)]
  | composite part expanded s parts wires ih =>
    intro j h
    obtain ⟨expanded', s', parts', rfl, hparts⟩ := blank_eq_composite h.symm
    have hlatest : Scope.latest ⟨parts, wires, s.inputs⟩ =
        Scope.latest ⟨parts', wires, s'.inputs⟩ :=
      latest_of_blankAll_of hparts.symm rfl ih
    rw [depth_composite, depth_composite, hlatest]

/-- **The last level of a scope is a matter of the shape.** -/
theorem latest_of_blankAll {s t : Scope} (hblank : blankAll s.instances = blankAll t.instances)
    (hwires : s.wires = t.wires) : s.latest = t.latest :=
  latest_of_blankAll_of hblank hwires fun i _ => depth_of_blank i

end Breadboard
