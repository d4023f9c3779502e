import Breadboard.Chip.Standard
import Breadboard.Circuit.PinAssignment
import Mathlib.Data.List.Induction
import Mathlib.Data.List.Nodup
import Mathlib.Data.List.Perm.Subperm

/-!
# Drivers and pins

The wires into a chip are its drivers. `assignPins` goes through them once, in order, and does not
look ahead: a driver that leaves its pin open takes the first pin that is free by then.

* `pinFor_of_assignFrom`: every driver has the pin that the pins of the earlier ones leave to it;
* `map_fst_assignFrom`: as long as there are as many pins as drivers, each of them has a pin;
* `Wire.countsBefore`: an open driver counts like one that names an early pin, so it is enough to
  count the drivers before one that names its pin to see whether it still finds that pin free
  (`lt_countP_of_taken`, `countP_le_of_free`);
* **`no_driver_is_lost`**: if the drivers fit a chip, each has a pin, and two of them share one
  exactly where a driver comes too late for the pin that it names.
-/

namespace Breadboard

variable {declared taken : List String} {wires : List Wire} {wire : Wire} {pin : String}

/-- The wires into `target`, in order. -/
def wiresInto (wires : List Wire) (target : String) : List Wire :=
  wires.filter fun wire => wire.target == target

/-- The wires `drivers` fit the pins `declared`. -/
structure Fits (declared : List String) (drivers : List Wire) : Prop where
  /-- There is a pin for each. -/
  room : drivers.length ≤ declared.length
  /-- No pin is named twice. -/
  distinct : (drivers.filterMap Wire.targetPin).Nodup

/-! ## The pin of one driver -/

theorem pinFor_named (h : wire.targetPin = some pin) : pinFor declared taken wire = some pin := by
  rw [pinFor, h]

/-- An open driver takes a free pin, and the pins declared before it are all taken. -/
theorem pinFor_open (hopen : wire.targetPin = none) (h : pinFor declared taken wire = some pin) :
    pin ∈ declared ∧ pin ∉ taken ∧
      ∀ p, declared.idxOf p < declared.idxOf pin → p ∈ taken := by
  rw [pinFor, hopen] at h
  obtain ⟨hfree, before, after, rfl, hbefore⟩ := List.find?_eq_some_iff_append.1 h
  have hnew : pin ∉ taken := by simpa using hfree
  have hall : ∀ p ∈ before, p ∈ taken := by simpa using hbefore
  refine ⟨by simp, hnew, fun p hp => ?_⟩
  rw [List.idxOf_append_of_notMem fun hmem => hnew (hall pin hmem), List.idxOf_cons_self] at hp
  by_cases hmem : p ∈ before
  · exact hall p hmem
  · rw [List.idxOf_append_of_notMem hmem] at hp
    omega

/-- As long as fewer pins are taken than there are, an open driver finds one. -/
theorem exists_pinFor (hnodup : declared.Nodup) (hroom : taken.length < declared.length)
    (wire : Wire) : ∃ pin, pinFor declared taken wire = some pin := by
  cases hpin : wire.targetPin with
  | some pin => exact ⟨pin, pinFor_named hpin⟩
  | none =>
    rw [pinFor, hpin]
    refine Option.isSome_iff_exists.1 (List.find?_isSome.2 ?_)
    by_contra hnone
    have hsub : declared ⊆ taken := by
      intro p hp
      by_contra hfree
      exact hnone ⟨p, hp, by simpa using hfree⟩
    have := (hnodup.subperm hsub).length_le
    omega

/-! ## The pins of all drivers -/

/-- **Every driver has the pin that the earlier ones leave to it.** -/
theorem pinFor_of_assignFrom : ∀ {wires : List Wire} {taken : List String}
    {before after : List (Wire × String)} {e : Wire × String},
    assignFrom declared taken wires = before ++ e :: after →
      ∃ earlier, pinFor declared earlier e.1 = some e.2 ∧
        ∀ p, p ∈ earlier ↔ p ∈ before.map Prod.snd ∨ p ∈ taken
  | [], _, before, _, _, h => by simp [assignFrom] at h
  | wire :: rest, taken, before, after, e, h => by
    rw [assignFrom] at h
    split at h
    · rename_i pin hpin
      cases before with
      | nil =>
        obtain ⟨rfl, -⟩ := List.cons.inj h
        exact ⟨taken, hpin, fun p => by simp⟩
      | cons first before =>
        obtain ⟨rfl, hrest⟩ := List.cons.inj h
        obtain ⟨earlier, he, hmem⟩ := pinFor_of_assignFrom hrest
        refine ⟨earlier, he, fun p => ?_⟩
        rw [hmem, List.mem_cons, List.map_cons, List.mem_cons]
        exact or_left_comm.trans or_assoc.symm
    · exact pinFor_of_assignFrom h

/-- With as many pins as drivers, every driver has one. -/
theorem map_fst_assignFrom (hnodup : declared.Nodup) : ∀ {wires : List Wire} {taken : List String},
    taken.length + wires.length ≤ declared.length →
      (assignFrom declared taken wires).map Prod.fst = wires
  | [], _, _ => by simp [assignFrom]
  | wire :: rest, taken, hroom => by
    rw [List.length_cons] at hroom
    obtain ⟨pin, hpin⟩ := exists_pinFor hnodup (show taken.length < declared.length by omega) wire
    rw [assignFrom, hpin, List.map_cons, map_fst_assignFrom hnodup]
    rw [List.length_cons]
    omega

section Assigned

variable {drivers : List Wire} {before rest : List (Wire × String)} {e : Wire × String}

/-- A driver that names its pin has that one. -/
theorem pin_of_named (h : assignFrom declared [] drivers = before ++ rest) (he : e ∈ before)
    (hnamed : e.1.targetPin = some pin) : e.2 = pin := by
  obtain ⟨first, last, rfl⟩ := List.append_of_mem he
  rw [List.append_assoc, List.cons_append] at h
  obtain ⟨earlier, hpin, -⟩ := pinFor_of_assignFrom h
  rw [pinFor_named hnamed] at hpin
  exact (Option.some.inj hpin).symm

/-- An open driver has a declared pin that no earlier driver has, and the pins declared before that
one are those of earlier drivers. -/
theorem pin_of_open (h : assignFrom declared [] drivers = before ++ e :: rest)
    (hopen : e.1.targetPin = none) :
    e.2 ∈ declared ∧ e.2 ∉ before.map Prod.snd ∧
      ∀ p, declared.idxOf p < declared.idxOf e.2 → p ∈ before.map Prod.snd := by
  obtain ⟨earlier, hpin, hmem⟩ := pinFor_of_assignFrom h
  obtain ⟨hdeclared, hfree, hall⟩ := pinFor_open hopen hpin
  simp only [hmem, List.not_mem_nil, or_false] at hfree hall
  exact ⟨hdeclared, hfree, hall⟩

/-! ## Counting the earlier drivers -/

/-- Does the wire leave its pin open, or name one that is declared before `pin`? -/
def Wire.countsBefore (declared : List String) (pin : String) (wire : Wire) : Bool :=
  wire.targetPin.all fun p => declared.idxOf p < declared.idxOf pin

/-- When an open driver takes a pin, more drivers count than pins are declared before it: one for
each of those pins, and the driver itself. -/
theorem lt_countP_of_taken (hnodup : declared.Nodup)
    (h : assignFrom declared [] drivers = before ++ e :: rest) (hopen : e.1.targetPin = none) :
    declared.idxOf e.2 <
      ((before ++ [e]).map Prod.fst).countP (Wire.countsBefore declared e.2) := by
  obtain ⟨hdeclared, -, hall⟩ := pin_of_open h hopen
  have hown : Wire.countsBefore declared e.2 e.1 = true := by simp [Wire.countsBefore, hopen]
  have hpins : declared.idxOf e.2 ≤
      (before.map Prod.snd).countP fun p => declared.idxOf p < declared.idxOf e.2 := by
    have hsub : declared.take (declared.idxOf e.2) ⊆
        (before.map Prod.snd).filter fun p => declared.idxOf p < declared.idxOf e.2 := by
      intro p hp
      have hlt := (List.mem_take_iff_idxOf_lt (List.mem_of_mem_take hp)).1 hp
      exact List.mem_filter.2 ⟨hall p hlt, by simpa using hlt⟩
    have hle := ((hnodup.sublist (List.take_sublist _ _)).subperm hsub).length_le
    have hidx := List.idxOf_lt_length_of_mem hdeclared
    rw [List.length_take, ← List.countP_eq_length_filter] at hle
    omega
  have hcount : (before.countP fun x => declared.idxOf x.2 < declared.idxOf e.2) ≤
      before.countP fun x => Wire.countsBefore declared e.2 x.1 := by
    refine List.countP_mono_left fun x hx hlt => ?_
    cases hpin : x.1.targetPin with
    | none => simp [Wire.countsBefore, hpin]
    | some pin =>
      rw [pin_of_named h hx hpin] at hlt
      simpa [Wire.countsBefore, hpin] using hlt
  rw [List.countP_map] at hpins
  rw [List.map_append, List.countP_append, List.countP_map, List.map_singleton,
    List.countP_singleton, if_pos hown]
  exact Nat.lt_succ_of_le (Nat.le_trans hpins hcount)

/-- While a pin is free, no more drivers count than pins are declared before it: each has one of
those pins. -/
theorem countP_le_of_free (h : assignFrom declared [] drivers = before ++ rest)
    (hnodup : (before.map Prod.snd).Nodup) (hfree : pin ∉ before.map Prod.snd) :
    (before.map Prod.fst).countP (Wire.countsBefore declared pin) ≤ declared.idxOf pin := by
  have hpins : ∀ x ∈ before, Wire.countsBefore declared pin x.1 = true →
      declared.idxOf x.2 < declared.idxOf pin := by
    intro x hx hcounts
    cases hpin : x.1.targetPin with
    | some p =>
      rw [pin_of_named h hx hpin]
      simpa [Wire.countsBefore, hpin] using hcounts
    | none =>
      obtain ⟨first, last, rfl⟩ := List.append_of_mem hx
      rw [List.append_assoc, List.cons_append] at h
      obtain ⟨hdeclared, -, hall⟩ := pin_of_open h hpin
      by_contra hge
      rcases Nat.lt_or_eq_of_le (Nat.le_of_not_lt hge) with hlt | heq
      · -- the open driver would have taken `pin`, had that been free
        exact hfree (by rw [List.map_append]; exact List.mem_append_left _ (hall pin hlt))
      · exact hfree ((List.idxOf_inj hdeclared).1 heq.symm ▸ List.mem_map_of_mem hx)
  have hcount : (before.countP fun x => Wire.countsBefore declared pin x.1) ≤
      before.countP fun x => declared.idxOf x.2 < declared.idxOf pin :=
    List.countP_mono_left fun x hx hcounts => by simpa using hpins x hx hcounts
  have hsub : ((before.map Prod.snd).filter fun p => declared.idxOf p < declared.idxOf pin) ⊆
      declared.take (declared.idxOf pin) := by
    intro p hp
    have hlt : declared.idxOf p < declared.idxOf pin := by simpa using (List.mem_filter.1 hp).2
    have hmem := List.idxOf_lt_length_iff.1 (Nat.lt_of_lt_of_le hlt List.idxOf_le_length)
    exact (List.mem_take_iff_idxOf_lt hmem).2 hlt
  have hle := ((hnodup.sublist List.filter_sublist).subperm hsub).length_le
  rw [← List.countP_eq_length_filter, List.countP_map, List.length_take] at hle
  rw [List.countP_map]
  exact Nat.le_trans hcount (Nat.le_trans hle (Nat.min_le_left _ _))

/-! ## Shared pins -/

/-- Of two drivers with one pin, the earlier one left its pin open and the later one names it. -/
theorem named_of_shared (hdistinct : (drivers.filterMap Wire.targetPin).Nodup)
    (hwires : (assignFrom declared [] drivers).map Prod.fst = drivers)
    {between after : List (Wire × String)} {e' : Wire × String}
    (h : assignFrom declared [] drivers = before ++ e :: (between ++ e' :: after))
    (heq : e.2 = e'.2) : e.1.targetPin = none ∧ e'.1.targetPin = some e.2 := by
  have hsplit : assignFrom declared [] drivers = (before ++ e :: between) ++ e' :: after := by
    rw [h, List.append_assoc, List.cons_append]
  have hlater : e'.1.targetPin = some e.2 := by
    cases hpin : e'.1.targetPin with
    | none => exact absurd (by simp [heq]) (pin_of_open hsplit hpin).2.1
    | some pin => rw [heq, pin_of_named (List.append_nil _).symm (by rw [h]; simp) hpin]
  refine ⟨?_, hlater⟩
  cases hpin : e.1.targetPin with
  | none => rfl
  | some pin =>
    -- then both would name it
    obtain rfl : e.2 = pin := pin_of_named hsplit (by simp) hpin
    rw [← hwires, h] at hdistinct
    simp [List.filterMap_append, List.nodup_append, hpin, hlater] at hdistinct

theorem nodup_map_of_new {α β : Type} {f : α → β} {l : List α}
    (h : ∀ before e after, l = before ++ e :: after → f e ∉ before.map f) : (l.map f).Nodup := by
  induction l using List.reverseRecOn with
  | nil => exact List.nodup_nil
  | append_singleton l e ih =>
    have hl : (l.map f).Nodup := ih fun before x after hl =>
      h before x (after ++ [e]) (by rw [hl]; simp)
    rw [List.map_append, List.nodup_append]
    refine ⟨hl, List.nodup_singleton _, fun a ha b hb hab => h l e [] rfl ?_⟩
    rw [List.mem_singleton.1 hb] at hab
    exact hab ▸ ha

/-- **Each driver has a pin of its own exactly if no driver comes too late for the pin that it
names.** -/
theorem nodup_pins_iff (hnodup : declared.Nodup)
    (hdistinct : (drivers.filterMap Wire.targetPin).Nodup)
    (hwires : (assignFrom declared [] drivers).map Prod.fst = drivers) :
    ((assignFrom declared [] drivers).map Prod.snd).Nodup ↔ ∀ earlier wire later pin,
      drivers = earlier ++ wire :: later → wire.targetPin = some pin →
        earlier.countP (Wire.countsBefore declared pin) ≤ declared.idxOf pin := by
  constructor
  · intro hpins earlier wire later pin hsplit hnamed
    rw [← hwires] at hsplit
    obtain ⟨before, tail, h, rfl, htail⟩ := List.map_eq_append_iff.1 hsplit
    obtain ⟨e, after, rfl, rfl, -⟩ := List.map_eq_cons_iff.1 htail
    have hpin : e.2 = pin := pin_of_named (List.append_nil _).symm (by rw [h]; simp) hnamed
    rw [h, List.map_append, List.map_cons, List.nodup_append] at hpins
    refine countP_le_of_free h hpins.1 fun hmem => ?_
    exact hpins.2.2 pin hmem e.2 List.mem_cons_self hpin.symm
  · intro htime
    refine nodup_map_of_new fun before e after h hmem => ?_
    obtain ⟨e', he', heq⟩ := List.mem_map.1 hmem
    obtain ⟨first, between, rfl⟩ := List.append_of_mem he'
    rw [List.append_assoc, List.cons_append] at h
    obtain ⟨hopen, hnamed⟩ := named_of_shared hdistinct hwires h heq
    have hsplit : drivers =
        ((first ++ [e']).map Prod.fst ++ between.map Prod.fst) ++ e.1 :: after.map Prod.fst := by
      rw [← hwires, h]
      simp
    have hlt := lt_countP_of_taken hnodup h hopen
    have hle := htime _ _ _ _ hsplit hnamed
    rw [List.countP_append] at hle
    omega

end Assigned

/-! ## No driver is lost -/

/-- **No driver is lost.** If the wires into a chip fit its pins, which are distinct, each of them
has a pin, whatever their order. One that leaves its pin open has a pin that no earlier one has. So
two of them have the same pin only if the earlier one left its pin open and the later one names it.
That does not happen exactly if each that names a pin comes in time: of the wires before it, no more
leave their pin open or name one declared before that pin than there are pins declared before it. -/
theorem no_driver_is_lost (catalog : Catalog) (chip target : String) (wires : List Wire)
    (hnodup : (catalog.inputsOf chip).Nodup)
    (hfits : Fits (catalog.inputsOf chip) (wiresInto wires target)) :
    let declared := catalog.inputsOf chip
    let assigned := assignPins declared wires target
    assigned.map Prod.fst = wiresInto wires target ∧
    (∀ before e after, assigned = before ++ e :: after → e.1.targetPin = none →
      e.2 ∈ declared ∧ e.2 ∉ before.map Prod.snd) ∧
    (∀ before e between e' after, assigned = before ++ e :: (between ++ e' :: after) →
      e.2 = e'.2 → e.1.targetPin = none ∧ e'.1.targetPin = some e.2) ∧
    ((assigned.map Prod.snd).Nodup ↔ ∀ earlier wire later pin,
      wiresInto wires target = earlier ++ wire :: later → wire.targetPin = some pin →
        earlier.countP (Wire.countsBefore declared pin) ≤ declared.idxOf pin) := by
  intro declared assigned
  have hwires : assigned.map Prod.fst = wiresInto wires target := by
    refine map_fst_assignFrom hnodup ?_
    rw [List.length_nil, Nat.zero_add]
    exact hfits.room
  refine ⟨hwires, fun before e after h hopen => ?_, fun before e between e' after h heq => ?_,
    nodup_pins_iff hnodup hfits.distinct hwires⟩
  · obtain ⟨hdeclared, hnew, -⟩ := pin_of_open h hopen
    exact ⟨hdeclared, hnew⟩
  · exact named_of_shared hfits.distinct hwires h heq

/-- Drivers of a multiplexer, one of which names its pin. -/
def selectedDrivers : List Wire :=
  [{ source := "a", target := "m" }, { source := "s", target := "m", targetPin := some "Sel" },
    { source := "b", target := "m" }]

/-- The driver of `Sel` comes in time, with one open driver before it, so all three have a pin of
their own. -/
theorem no_driver_is_lost_multiplexer :
    (Standard.catalog.inputsOf "MUX").Nodup ∧
      Fits (Standard.catalog.inputsOf "MUX") (wiresInto selectedDrivers "m") ∧
      let assigned := assignPins (Standard.catalog.inputsOf "MUX") selectedDrivers "m"
      assigned.map Prod.fst = selectedDrivers ∧ (assigned.map Prod.snd).Nodup := by
  have hinputs : Standard.catalog.inputsOf "MUX" = ["A", "B", "Sel"] := by decide +kernel
  have hinto : wiresInto selectedDrivers "m" = selectedDrivers := by decide
  have hnodup : (Standard.catalog.inputsOf "MUX").Nodup := by rw [hinputs]; decide
  have hfits : Fits (Standard.catalog.inputsOf "MUX") (wiresInto selectedDrivers "m") := by
    rw [hinputs, hinto]
    exact ⟨by decide, by decide⟩
  obtain ⟨hwires, -, -, hiff⟩ :=
    no_driver_is_lost Standard.catalog "MUX" "m" selectedDrivers hnodup hfits
  refine ⟨hnodup, hfits, hwires.trans hinto, hiff.2 fun earlier wire later pin hsplit hnamed => ?_⟩
  rw [hinto] at hsplit
  rw [hinputs]
  -- only the second of the three names a pin
  match earlier, hsplit with
  | [], hsplit =>
    obtain ⟨rfl, -⟩ := List.cons.inj hsplit
    exact absurd hnamed (by simp)
  | [first], hsplit =>
    obtain ⟨rfl, hrest⟩ := List.cons.inj hsplit
    obtain ⟨rfl, -⟩ := List.cons.inj hrest
    obtain rfl : "Sel" = pin := Option.some.inj hnamed
    decide
  | first :: second :: earlier, hsplit =>
    obtain ⟨-, hrest⟩ := List.cons.inj (List.cons.inj hsplit).2
    cases earlier with
    | nil =>
      obtain ⟨rfl, -⟩ := List.cons.inj hrest
      exact absurd hnamed (by simp)
    | cons => exact absurd (congrArg List.length hrest) (by simp)

/-- A driver that leaves its pin open, and then one that names the first pin. -/
def lateDrivers : List Wire :=
  [{ source := "a", target := "g" }, { source := "b", target := "g", targetPin := some "A" }]

/-- Two drivers fit a conjunction, the named pin is declared, and yet both drive `A`. -/
theorem late_name_shares_pin :
    (Standard.catalog.inputsOf "AND").Nodup ∧
      Fits (Standard.catalog.inputsOf "AND") (wiresInto lateDrivers "g") ∧
      (∀ pin ∈ (wiresInto lateDrivers "g").filterMap Wire.targetPin,
        pin ∈ Standard.catalog.inputsOf "AND") ∧
      (assignPins (Standard.catalog.inputsOf "AND") lateDrivers "g").map Prod.snd = ["A", "A"] ∧
      ¬((assignPins (Standard.catalog.inputsOf "AND") lateDrivers "g").map Prod.snd).Nodup := by
  have hinputs : Standard.catalog.inputsOf "AND" = ["A", "B"] := by decide +kernel
  rw [hinputs]
  exact ⟨by decide, ⟨by decide, by decide⟩, by decide, by decide, by decide⟩

end Breadboard
