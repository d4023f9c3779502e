import Breadboard.Chip.Standard
import Breadboard.Proofs.InputOrder
import Breadboard.Proofs.Scope

/-!
# How the switches are ordered

The switches that drive a declared pin of the anchor are pulled to the front, and the others follow
as they were. What is pulled, and in which order, is written here without the lists that the
ordering builds: each switch has a rank, its least pair of a declared pin and a wire that drives it.

* `getElem?_refill`, `map_isSwitch_refill`: which places are filled anew;
* `Fed`, `anchor?_eq_some_iff`, `anchor?_eq_none_iff`: the anchor is the first chip that is fed;
* `DrivesAt`, `DrivesBefore`: which pins a switch drives by which wires, and which of two comes
  first;
* `pairwise_feeders`: those that are pulled are asked for in that order, each once;
* `pullFront_eq`: they come first, and the others keep their order;
* `orderInputs_places`, `orderInputs_front`, `orderInputs_eq_self`: what moves, where to, and when
  nothing does;
* **`switches_follow_pins`**: all of it, and that ordering twice is ordering once.
-/

namespace Breadboard

variable {scope : List Instance} {wires : List Wire}

/-! ## Places -/

/-- **A chip that is no switch keeps its place.** -/
theorem getElem?_refill {i : Instance} (hi : i.isSwitch = false) : ∀ {scope : List Instance}
    (filling : List Instance) {k : Nat}, scope[k]? = some i → (refill filling scope)[k]? = some i
  | [], _, _, hk => absurd hk (by simp)
  | j :: rest, filling, k, hk => by
    by_cases hj : j.isSwitch = true
    · cases filling with
      | nil => rwa [refill_nil]
      | cons s filling =>
        rw [refill, if_pos hj]
        cases k with
        | zero =>
          cases hk
          exact absurd (hi.symm.trans hj) Bool.false_ne_true
        | succ k => exact getElem?_refill hi filling hk
    · rw [refill_cons_of_not_switch hj]
      cases k with
      | zero => exact hk
      | succ k => exact getElem?_refill hi filling hk

/-- **The places of the switches stay theirs.** -/
theorem map_isSwitch_refill (scope : List Instance) : ∀ filling : List Instance,
    (∀ s ∈ filling, s.isSwitch = true) →
      (refill filling scope).map Instance.isSwitch = scope.map Instance.isSwitch := by
  induction scope with
  | nil =>
    intro filling _
    cases filling <;> rw [refill]
  | cons i rest ih =>
    intro filling hswitches
    by_cases hi : i.isSwitch = true
    · cases filling with
      | nil => rw [refill_nil]
      | cons s filling =>
        have hrest := ih filling fun t ht => hswitches t (List.mem_cons_of_mem s ht)
        rw [refill, if_pos hi, List.map_cons, List.map_cons, hrest, hi,
          hswitches s List.mem_cons_self]
    · rw [refill_cons_of_not_switch hi, List.map_cons, List.map_cons, ih filling hswitches]

/-! ## The anchor -/

/-- It is no switch, and some wire leads to it from a switch. -/
def Fed (wires : List Wire) (scope : List Instance) (i : Instance) : Prop :=
  i.isSwitch = false ∧ ∃ wire ∈ wires, wire.target = i.id ∧
    ∃ s ∈ scope, s.isSwitch = true ∧ s.id = wire.source

instance (wires : List Wire) (scope : List Instance) (i : Instance) :
    Decidable (Fed wires scope i) :=
  inferInstanceAs (Decidable (_ ∧ _))

theorem fed_iff {i : Instance} : Fed wires scope i ↔ (!i.isSwitch && wires.any fun wire =>
    wire.target == i.id &&
      (findInstance? (scope.filter Instance.isSwitch) wire.source).isSome) = true := by
  simp only [Fed, findInstance?, Bool.and_eq_true, Bool.not_eq_true', List.any_eq_true, beq_iff_eq,
    List.find?_isSome, List.mem_filter, and_assoc]

/-- **The anchor is the first chip that is fed.** -/
theorem anchor?_eq_some_iff {anchor : Instance} : anchor? scope wires = some anchor ↔
    Fed wires scope anchor ∧ ∃ before after, scope = before ++ anchor :: after ∧
      ∀ i ∈ before, ¬Fed wires scope i := by
  unfold anchor?
  simp only [List.find?_eq_some_iff_append, fed_iff, Bool.not_eq_true, Bool.not_eq_true']

theorem anchor?_eq_none_iff : anchor? scope wires = none ↔ ∀ i ∈ scope, ¬Fed wires scope i := by
  unfold anchor?
  simp only [List.find?_eq_none, fed_iff]

/-! ## Ranks -/

/-- Of the wires that are given pins, the `n`-th one comes from `id`, and it drives the `k`-th
declared pin. -/
def DrivesAt (declared : List String) (assigned : List (Wire × String)) (id : String) (k n : Nat) :
    Prop :=
  ∃ wire pin, assigned[n]? = some (wire, pin) ∧ wire.source = id ∧ declared[k]? = some pin

/-- The first declared pin that `a` drives comes before any that `b` drives; or `b` drives it too,
but only by later wires. -/
def DrivesBefore (declared : List String) (assigned : List (Wire × String)) (a b : String) : Prop :=
  ∃ k n, DrivesAt declared assigned a k n ∧
    ∀ k' n', DrivesAt declared assigned b k' n' → k < k' ∨ k = k' ∧ n < n'

/-- Does it drive a declared pin? -/
def Instance.drivesDeclared (declared : List String) (assigned : List (Wire × String))
    (i : Instance) : Bool :=
  assigned.any fun e => e.1.source == i.id && declared.contains e.2

/-- The sources of the wires that drive declared pins, each with the places of the pin and the
wire. -/
def rankedFeeders (declared : List String) (assigned : List (Wire × String)) :
    List (String × Nat × Nat) :=
  declared.zipIdx.flatMap fun (pin, k) =>
    (assigned.zipIdx.filter fun (e, _) => e.2 == pin).map fun (e, n) => (e.1.source, k, n)

section Ranks

variable {declared : List String} {assigned : List (Wire × String)}

theorem mem_rankedFeeders {id : String} {k n : Nat} :
    (id, k, n) ∈ rankedFeeders declared assigned ↔ DrivesAt declared assigned id k n := by
  unfold rankedFeeders DrivesAt
  simp only [List.mem_flatMap, List.mem_map, List.mem_filter, Prod.exists,
    List.mem_zipIdx_iff_getElem?, beq_iff_eq, Prod.mk.injEq]
  constructor
  · rintro ⟨pin, k', hpin, wire, pin', n', ⟨hwire, rfl⟩, hid, rfl, rfl⟩
    exact ⟨wire, pin', hwire, hid, hpin⟩
  · rintro ⟨wire, pin, hwire, hid, hpin⟩
    exact ⟨pin, k, hpin, wire, pin, n, ⟨hwire, rfl⟩, hid, rfl, rfl⟩

theorem pairwise_zipIdx {α : Type} (l : List α) : l.zipIdx.Pairwise fun a b => a.2 < b.2 := by
  have h : (l.zipIdx.map Prod.snd).Pairwise (· < ·) := by
    rw [List.zipIdx_map_snd]
    exact List.pairwise_lt_range' 1
  exact List.pairwise_map.1 h

/-- They are listed by pins, and then by wires. -/
theorem pairwise_rankedFeeders : (rankedFeeders declared assigned).Pairwise fun a b =>
    a.2.1 < b.2.1 ∨ a.2.1 = b.2.1 ∧ a.2.2 < b.2.2 := by
  refine List.pairwise_flatMap.2 ⟨fun p _ => ?_, (pairwise_zipIdx declared).imp ?_⟩
  · refine List.pairwise_map.2 (((pairwise_zipIdx assigned).filter _).imp fun h => ?_)
    exact Or.inr ⟨rfl, h⟩
  · intro p q hpq x hx y hy
    obtain ⟨_, -, rfl⟩ := List.mem_map.1 hx
    obtain ⟨_, -, rfl⟩ := List.mem_map.1 hy
    exact Or.inl hpq

/-- **What is first in a list**: the entries that are listed in the order of their ranks keep that
order when each is listed once, by its least rank. -/
theorem pairwise_eraseDups {α β : Type} [BEq α] [LawfulBEq α] {r : β → β → Prop} :
    ∀ l : List (α × β), (l.Pairwise fun x y => r x.2 y.2) →
      (l.map Prod.fst).eraseDups.Pairwise fun a b =>
        a ≠ b ∧ ∃ x, (a, x) ∈ l ∧ ∀ y, (b, y) ∈ l → r x y
  | [], _ => List.Pairwise.nil
  | (a, x) :: rest, h => by
    obtain ⟨hfirst, hrest⟩ := List.pairwise_cons.1 h
    have hothers : (rest.map Prod.fst).filter (fun b => !b == a) =
        (rest.filter fun e => !e.1 == a).map Prod.fst := by rw [List.filter_map]; rfl
    rw [List.map_cons, List.eraseDups_cons, hothers]
    have hleft : ∀ {b y}, b ≠ a → (b, y) ∈ (a, x) :: rest → (b, y) ∈ rest := fun hb hy =>
      (List.mem_cons.1 hy).resolve_left fun heq => hb (Prod.mk.inj heq).1
    have hdiffer : ∀ {b},
        b ∈ ((rest.filter fun e => !e.1 == a).map Prod.fst).eraseDups → b ≠ a := by
      intro b hb
      obtain ⟨e, he, rfl⟩ := List.mem_map.1 (List.mem_eraseDups.1 hb)
      simpa using (List.mem_filter.1 he).2
    refine List.pairwise_cons.2 ⟨fun b hb => ?_, ?_⟩
    · exact ⟨(hdiffer hb).symm, x, List.mem_cons_self, fun y hy =>
        hfirst (b, y) (hleft (hdiffer hb) hy)⟩
    · refine (pairwise_eraseDups (rest.filter fun e => !e.1 == a) (hrest.filter _)).imp_of_mem ?_
      rintro b c hb hc ⟨hne, y, hy, hleast⟩
      refine ⟨hne, y, List.mem_cons_of_mem _ (List.mem_filter.1 hy).1, fun z hz => ?_⟩
      exact hleast z (List.mem_filter.2 ⟨hleft (hdiffer hc) hz, by simpa using hdiffer hc⟩)
termination_by l => l.length
decreasing_by exact Nat.lt_succ_of_le (List.length_filter_le _ _)

theorem feeders_eq (declared : List String) (wires : List Wire) (target : String) :
    feeders declared wires target =
      ((rankedFeeders declared (assignPins declared wires target)).map Prod.fst).eraseDups := by
  unfold feeders rankedFeeders
  generalize assignPins declared wires target = assigned
  refine congrArg List.eraseDups ?_
  have hwires : ∀ pin : String, (assigned.filter fun e => e.2 == pin).map (fun e => e.1.source) =
      (assigned.zipIdx.filter fun e => e.1.2 == pin).map fun e => e.1.1.source := by
    intro pin
    conv_lhs => rw [← List.zipIdx_map_fst 0 assigned]
    rw [List.filter_map, List.map_map]
    rfl
  rw [List.map_flatMap]
  conv_lhs => rw [← List.zipIdx_map_fst 0 declared]
  rw [List.flatMap_map]
  refine List.flatMap_congr fun p _ => ?_
  rw [hwires, List.map_map]
  rfl

/-- **Those that are pulled to the front are asked for in the order of their pins and wires**, each
once. -/
theorem pairwise_feeders (declared : List String) (wires : List Wire) (target : String) :
    (feeders declared wires target).Pairwise fun a b =>
      a ≠ b ∧ DrivesBefore declared (assignPins declared wires target) a b := by
  rw [feeders_eq]
  refine (pairwise_eraseDups (r := fun a b : Nat × Nat => a.1 < b.1 ∨ a.1 = b.1 ∧ a.2 < b.2) _
    pairwise_rankedFeeders).imp ?_
  rintro a b ⟨hne, ⟨k, n⟩, hdrives, hleast⟩
  exact ⟨hne, k, n, mem_rankedFeeders.1 hdrives, fun k' n' h =>
    hleast (k', n') (mem_rankedFeeders.2 h)⟩

/-- **They are those that drive a declared pin.** -/
theorem contains_feeders (declared : List String) (wires : List Wire) (target : String)
    (i : Instance) : (feeders declared wires target).contains i.id =
      i.drivesDeclared declared (assignPins declared wires target) := by
  unfold feeders Instance.drivesDeclared
  rw [Bool.eq_iff_iff]
  simp only [List.contains_iff_mem, List.mem_eraseDups, List.mem_flatMap, List.mem_map,
    List.mem_filter, List.any_eq_true, Bool.and_eq_true, beq_iff_eq]
  constructor
  · rintro ⟨pin, hpin, e, ⟨he, rfl⟩, hid⟩
    exact ⟨e, he, hid, hpin⟩
  · rintro ⟨e, he, hid, hpin⟩
    exact ⟨e.2, hpin, e, ⟨he, rfl⟩, hid⟩

end Ranks

/-! ## Pulling to the front -/

theorem eraseP_eq_filter {id : String} (hids : (scope.map Instance.id).Nodup) :
    (scope.eraseP fun j => j.id == id) = scope.filter fun j => !j.id == id := by
  induction scope with
  | nil => rfl
  | cons i rest ih =>
    obtain ⟨hnot, hrest⟩ := List.nodup_cons.1 hids
    by_cases hi : i.id = id
    · subst hi
      rw [List.eraseP_cons_of_pos (by simp), List.filter_cons_of_neg (by simp)]
      refine (List.filter_eq_self.2 fun j hj => ?_).symm
      have hne : j.id ≠ i.id := fun heq => hnot (heq ▸ List.mem_map_of_mem hj)
      simpa using hne
    · rw [List.eraseP_cons_of_neg (by simpa using hi), List.filter_cons_of_pos (by simpa using hi),
        ih hrest]

/-- **The given ones come first, in the order that they are given in, and then the others as they
were**, if no id is shared and none is given twice. -/
theorem pullFront_eq (ids : List String) : ∀ {scope : List Instance},
    (scope.map Instance.id).Nodup → ids.Nodup → pullFront scope ids =
      ids.filterMap (findInstance? scope) ++ scope.filter fun i => !ids.contains i.id := by
  induction ids with
  | nil => simp [pullFront]
  | cons id ids ih =>
    intro scope hscope hids
    obtain ⟨hnot, hids'⟩ := List.nodup_cons.1 hids
    have hcontains : ∀ i : Instance,
        (!(id :: ids).contains i.id) = (!ids.contains i.id && !i.id == id) := by
      intro i
      rw [List.contains_cons, Bool.not_or, Bool.and_comm]
    rw [pullFront]
    cases hfind : findInstance? scope id with
    | none =>
      rw [List.filterMap_cons_none hfind, ih hscope hids']
      refine congrArg _ (List.filter_congr fun i hi => ?_)
      have hne : (i.id == id) = false := by simpa using List.find?_eq_none.1 hfind i hi
      rw [hcontains, hne, Bool.not_false, Bool.and_true]
    | some i =>
      have hfilter : ((scope.filter fun j => !j.id == id).map Instance.id).Nodup :=
        hscope.sublist (List.filter_sublist.map _)
      have hothers : ids.filterMap (findInstance? (scope.filter fun j => !j.id == id)) =
          ids.filterMap (findInstance? scope) := by
        refine List.filterMap_congr fun other hother => findInstance?_filter fun j _ hj => ?_
        have hne : j.id ≠ id := fun heq => hnot (heq ▸ hj ▸ hother)
        simpa using hne
      rw [List.filterMap_cons_some hfind, List.cons_append]
      simp only [eraseP_eq_filter hscope, ih hfilter hids', hothers, List.filter_filter, hcontains]

/-! ## The order -/

/-- The wires that are given pins come in the order of the wires. -/
theorem assignPins_sublist (declared : List String) (wires : List Wire) (target : String) :
    ((assignPins declared wires target).map Prod.fst).Sublist wires :=
  (assignFrom_sublist declared [] _).trans List.filter_sublist

/-- **Only switches move, and only to places of switches.** -/
theorem orderInputs_places (catalog : Catalog) (wires : List Wire) (scope : List Instance) :
    let ordered := orderInputs catalog wires scope
    (∀ (k : Nat) (i : Instance), scope[k]? = some i → i.isSwitch = false → ordered[k]? = some i) ∧
      ordered.map Instance.isSwitch = scope.map Instance.isSwitch ∧
      (ordered.filter Instance.isSwitch).Perm (scope.filter Instance.isSwitch) := by
  intro ordered
  obtain ⟨ids, hordered⟩ := orderInputs_eq_refill catalog wires scope
  have hperm := pullFront_perm ids (scope.filter Instance.isSwitch)
  refine ⟨fun k i hk hi => ?_, ?_, ?_⟩
  · exact (congrArg (·[k]?) hordered).trans (getElem?_refill hi _ hk)
  · refine (congrArg _ hordered).trans (map_isSwitch_refill scope _ fun s hs => ?_)
    exact (List.mem_filter.1 (hperm.mem_iff.1 hs)).2
  · exact (congrArg _ hordered).trans (filter_refill_pullFront scope ids).1 ▸ hperm

/-- **The switches that drive a declared pin of the anchor come first**, by their ranks, and the
others follow as they were. -/
theorem orderInputs_front {catalog : Catalog} (hids : (scope.map Instance.id).Nodup)
    (hmany : ¬(scope.filter Instance.isSwitch).length < 2) {anchor : Instance}
    (hanchor : anchor? scope wires = some anchor) :
    let switches := scope.filter Instance.isSwitch
    let declared := catalog.inputsOf anchor.chip
    let assigned := assignPins declared wires anchor.id
    ∃ front, front.Perm (switches.filter (Instance.drivesDeclared declared assigned)) ∧
      (front.Pairwise fun i j => DrivesBefore declared assigned i.id j.id) ∧
      (orderInputs catalog wires scope).filter Instance.isSwitch =
        front ++ switches.filter fun i => !i.drivesDeclared declared assigned := by
  intro switches declared assigned
  have hswitches : (switches.map Instance.id).Nodup := hids.sublist (List.filter_sublist.map _)
  have hfeeders := pairwise_feeders declared wires anchor.id
  have hpulled := pullFront_eq _ hswitches (hfeeders.imp And.left)
  simp only [contains_feeders] at hpulled
  refine ⟨(feeders declared wires anchor.id).filterMap (findInstance? switches), ?_, ?_, ?_⟩
  · -- what is pulled is what is not left
    have hperm := hpulled ▸ pullFront_perm (feeders declared wires anchor.id) switches
    have hsplit := List.filter_append_perm (Instance.drivesDeclared declared assigned) switches
    exact (List.perm_append_right_iff _).1 (hperm.trans hsplit.symm)
  · refine List.Pairwise.filterMap _ ?_ hfeeders
    rintro a b ⟨-, hab⟩ i hi j hj
    have hia : i.id = a := by simpa using List.find?_some hi
    have hjb : j.id = b := by simpa using List.find?_some hj
    exact hia ▸ hjb ▸ hab
  · rw [orderInputs_of_anchor hmany hanchor, (filter_refill_pullFront scope _).1]
    exact hpulled

/-- **Nothing moves** if there are fewer than two switches, or no chip that they feed. -/
theorem orderInputs_eq_self {catalog : Catalog}
    (h : (scope.filter Instance.isSwitch).length < 2 ∨ ∀ i ∈ scope, ¬Fed wires scope i) :
    orderInputs catalog wires scope = scope := by
  rcases h with hfew | hnone
  · exact if_pos hfew
  · simp only [orderInputs, anchor?_eq_none_iff.2 hnone]
    split <;> rfl

/-- **The switches follow the pins that they drive.** In a scope with distinct ids, ordering the
switches leaves every other chip in its place, and puts the switches into their own places anew,
each once. If there are two or more, and some other chip is fed by one, then the first such chip is
the anchor: those that drive a declared pin of it come first, by the first pin that they drive and
then by the first wire on it, and the others follow as they were. Otherwise nothing moves. Ordering
twice is ordering once. -/
theorem switches_follow_pins (catalog : Catalog) (wires : List Wire) (scope : List Instance)
    (hids : (scope.map Instance.id).Nodup) :
    let ordered := orderInputs catalog wires scope
    let switches := scope.filter Instance.isSwitch
    ((∀ (k : Nat) (i : Instance), scope[k]? = some i → i.isSwitch = false → ordered[k]? = some i) ∧
      ordered.map Instance.isSwitch = scope.map Instance.isSwitch ∧
      (ordered.filter Instance.isSwitch).Perm switches) ∧
    (∀ before anchor after, scope = before ++ anchor :: after → (∀ i ∈ before, ¬Fed wires scope i) →
      Fed wires scope anchor → 2 ≤ switches.length →
        let declared := catalog.inputsOf anchor.chip
        let assigned := assignPins declared wires anchor.id
        (assigned.map Prod.fst).Sublist wires ∧
        ∃ front, front.Perm (switches.filter (Instance.drivesDeclared declared assigned)) ∧
          (front.Pairwise fun i j => DrivesBefore declared assigned i.id j.id) ∧
          ordered.filter Instance.isSwitch =
            front ++ switches.filter fun i => !i.drivesDeclared declared assigned) ∧
    ((switches.length < 2 ∨ ∀ i ∈ scope, ¬Fed wires scope i) → ordered = scope) ∧
    orderInputs catalog wires ordered = ordered := by
  intro ordered switches
  refine ⟨orderInputs_places catalog wires scope, ?_, orderInputs_eq_self,
    orderInputs_orderInputs catalog wires scope⟩
  intro before anchor after hscope hbefore hfed hmany declared assigned
  have hanchor : anchor? scope wires = some anchor :=
    anchor?_eq_some_iff.2 ⟨hfed, before, after, hscope, hbefore⟩
  exact ⟨assignPins_sublist declared wires anchor.id,
    orderInputs_front hids (Nat.not_lt.2 hmany) hanchor⟩

/-- Switches around a selector. Two of them drive one pin of it, one drives two, one a pin that it
does not declare, and one drives nothing of it. -/
def selectorScope : List Instance :=
  [⟨"x", "INPUT", none⟩, ⟨"n", "NOT", none⟩, ⟨"sel", "INPUT", none⟩, ⟨"m", "MUX", none⟩,
    ⟨"c", "INPUT", none⟩, ⟨"y", "INPUT", none⟩, ⟨"b", "INPUT", none⟩,
    ⟨"a", "INPUT", none⟩].map (Instance.fresh Standard.catalog)

def selectorWires : List Wire :=
  [{ source := "m", target := "n" }, { source := "a", target := "m", targetPin := some "Sel" },
    { source := "sel", target := "m", targetPin := some "Sel" },
    { source := "b", target := "m", targetPin := some "B" },
    { source := "c", target := "m", targetPin := some "B" }, { source := "a", target := "m" },
    { source := "y", target := "m", targetPin := some "Q" }]

/-- The four that drive its declared pins come first, by pins and wires, and the other two
follow. -/
theorem switches_follow_pins_selector :
    let ordered := orderInputs Standard.catalog selectorWires selectorScope
    let declared := Standard.catalog.inputsOf "MUX"
    let assigned := assignPins declared selectorWires "m"
    ordered.map Instance.id = ["a", "n", "b", "m", "c", "sel", "x", "y"] ∧
      (∃ front, front.length = 4 ∧
        (front.Pairwise fun i j => DrivesBefore declared assigned i.id j.id) ∧
        ordered.filter Instance.isSwitch = front ++ (selectorScope.filter Instance.isSwitch).filter
          fun i => !i.drivesDeclared declared assigned) ∧
      orderInputs Standard.catalog selectorWires ordered = ordered := by
  intro ordered declared assigned
  obtain ⟨-, hfront, -, htwice⟩ :=
    switches_follow_pins Standard.catalog selectorWires selectorScope (by decide +kernel)
  obtain ⟨-, front, hperm, hsorted, happend⟩ := hfront (selectorScope.take 3)
    (Instance.fresh Standard.catalog ⟨"m", "MUX", none⟩) (selectorScope.drop 4) rfl
    (by decide +kernel) (by decide +kernel) (by decide +kernel)
  refine ⟨by decide +kernel, ⟨front, ?_, hsorted, happend⟩, htwice⟩
  rw [hperm.length_eq]
  decide +kernel

end Breadboard
