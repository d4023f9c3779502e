import Breadboard.Proofs.Drivers

/-!
# Pins are taken greedily

Which pin a wire drives is a matter of the wires before it alone: one that names its pin has that
one, and any other has the first declared pin that is free by then, or none if all are taken. Names
that are not declared, names that come more than once and more wires than pins change nothing of
that.

* `FirstFree`: the first declared pin that is not taken; `pinFor_eq_some_iff`, `pinFor_eq_none_iff`:
  it is what a wire that leaves its pin open gets;
* `assignFrom_append`: wires are given pins as if those before them were all there are, and then
  the rest;
* `nodup_open_pins`: wires that leave their pin open have pins of their own;
* **`pins_are_taken_greedily`**: all of it, for all wires into a chip.
-/

namespace Breadboard

variable {declared taken : List String} {wires : List Wire} {wire : Wire} {pin : String}

/-! ## One wire -/

/-- The first declared pin that is not taken. -/
def FirstFree (declared taken : List String) (pin : String) : Prop :=
  ∃ before after, declared = before ++ pin :: after ∧ (∀ p ∈ before, p ∈ taken) ∧ pin ∉ taken

/-- Pins that are taken alike leave the same pin free. -/
theorem FirstFree.congr {taken' : List String} (h : FirstFree declared taken pin)
    (hmem : ∀ p, p ∈ taken' ↔ p ∈ taken) : FirstFree declared taken' pin := by
  obtain ⟨before, after, hsplit, hbefore, hfree⟩ := h
  exact ⟨before, after, hsplit, fun p hp => (hmem p).2 (hbefore p hp),
    fun hp => hfree ((hmem pin).1 hp)⟩

/-- **A wire that leaves its pin open gets the first free one.** -/
theorem pinFor_eq_some_iff (hopen : wire.targetPin = none) :
    pinFor declared taken wire = some pin ↔ FirstFree declared taken pin := by
  rw [pinFor, hopen]
  simp only [List.find?_eq_some_iff_append, Bool.not_eq_true', List.contains_eq_mem,
    decide_eq_false_iff_not, Bool.not_eq_false', decide_eq_true_eq]
  constructor
  · rintro ⟨hfree, before, after, hsplit, hbefore⟩
    exact ⟨before, after, hsplit, hbefore, hfree⟩
  · rintro ⟨before, after, hsplit, hbefore, hfree⟩
    exact ⟨hfree, before, after, hsplit, hbefore⟩

/-- It gets none iff all declared pins are taken. -/
theorem pinFor_eq_none_iff (hopen : wire.targetPin = none) :
    pinFor declared taken wire = none ↔ ∀ p ∈ declared, p ∈ taken := by
  rw [pinFor, hopen]
  simp

/-- It gets one iff some declared pin is free. -/
theorem isSome_pinFor_iff (hopen : wire.targetPin = none) :
    (pinFor declared taken wire).isSome = true ↔ ∃ p ∈ declared, p ∉ taken := by
  rw [← not_iff_not, Option.not_isSome_iff_eq_none, pinFor_eq_none_iff hopen]
  simp only [not_exists, not_and, not_not]

/-! ## All wires -/

/-- The first wire comes first, with its pin if it is given one. -/
theorem assignFrom_cons (declared taken : List String) (wire : Wire) (rest : List Wire) :
    ∃ after, assignFrom declared taken (wire :: rest) =
        ((pinFor declared taken wire).map fun pin => (wire, pin)).toList ++ after ∧
      (after.map Prod.fst).Sublist rest := by
  rw [assignFrom]
  cases pinFor declared taken wire with
  | none => exact ⟨_, rfl, assignFrom_sublist declared taken rest⟩
  | some pin => exact ⟨_, rfl, assignFrom_sublist declared (pin :: taken) rest⟩

/-- **The wires in front are given pins as if there were no others**, and the rest as if the pins of
those in front were taken from the beginning. -/
theorem assignFrom_append (declared : List String) (earlier later : List Wire) :
    ∀ taken : List String, assignFrom declared taken (earlier ++ later) =
      assignFrom declared taken earlier ++ assignFrom declared
        (((assignFrom declared taken earlier).map Prod.snd).reverse ++ taken) later := by
  induction earlier with
  | nil => exact fun _ => rfl
  | cons wire rest ih =>
    intro taken
    rw [List.cons_append, assignFrom, assignFrom]
    cases pinFor declared taken wire with
    | none => exact ih taken
    | some pin =>
      simp only [ih (pin :: taken), List.cons_append, List.map_cons, List.reverse_cons,
        List.append_assoc, List.nil_append]

theorem wiresInto_append (earlier later : List Wire) (target : String) :
    wiresInto (earlier ++ later) target = wiresInto earlier target ++ wiresInto later target :=
  List.filter_append earlier later

/-- What wires at the end are given leaves the pins of those before them alone. -/
theorem assignPins_append (declared : List String) (wires more : List Wire) (target : String) :
    assignPins declared (wires ++ more) target = assignPins declared wires target ++
      assignFrom declared ((assignPins declared wires target).map Prod.snd).reverse
        (wiresInto more target) := by
  have happend := assignFrom_append declared (wiresInto wires target) (wiresInto more target) []
  rw [← wiresInto_append, List.append_nil] at happend
  exact happend

/-- The pins of wires that leave them open are all different. -/
theorem nodup_open_pins (declared : List String) (drivers : List Wire) :
    (((assignFrom declared [] drivers).filter
      fun e => e.1.targetPin.isNone).map Prod.snd).Nodup := by
  refine nodup_map_of_new fun before e after hsplit hmem => ?_
  obtain ⟨front, rest, hall, hfront, hrest⟩ := List.filter_eq_append_iff.1 hsplit
  obtain ⟨between, tail, rfl, -, hopen, -⟩ := List.filter_eq_cons_iff.1 hrest
  rw [← List.append_assoc] at hall
  obtain ⟨-, hnew, -⟩ := pin_of_open hall (Option.isNone_iff_eq_none.1 hopen)
  obtain ⟨e', he', hpin⟩ := List.mem_map.1 hmem
  rw [← hfront] at he'
  refine hnew (List.mem_map.2 ⟨e', ?_, hpin⟩)
  exact List.mem_append_left _ (List.mem_filter.1 he').1

/-! ## All of it -/

/-- **Pins are taken greedily.** Those of the wires into a chip that are given pins come in the
order of the wires. Whichever wire into the chip is looked at, what the wires before it are given
does not depend on it or on later ones, and then it comes itself, if it is given a pin: the one that
it names; or, if it leaves its pin open, the first declared pin that no earlier wire has, and none
exactly if there is no such pin. So the wires that leave their pins open have declared pins, all
different, that no earlier wire has; and wires at the end of the list change nothing for those
before them. -/
theorem pins_are_taken_greedily (declared : List String) (wires : List Wire) (target : String) :
    let assigned := assignPins declared wires target
    (assigned.map Prod.fst).Sublist (wiresInto wires target) ∧
    (∀ earlier wire later, wires = earlier ++ wire :: later → wire.target = target →
      let before := assignPins declared earlier target
      ∃ (own : Option String) (after : List (Wire × String)),
        assigned = before ++ (own.map fun pin => (wire, pin)).toList ++ after ∧
        (after.map Prod.fst).Sublist (wiresInto later target) ∧
        (∀ pin, wire.targetPin = some pin → own = some pin) ∧
        (wire.targetPin = none →
          (own.isSome = true ↔ ∃ p ∈ declared, p ∉ before.map Prod.snd) ∧
          ∀ pin, own = some pin → FirstFree declared (before.map Prod.snd) pin)) ∧
    (∀ before e after, assigned = before ++ e :: after → e.1.targetPin = none →
      e.2 ∈ declared ∧ e.2 ∉ before.map Prod.snd) ∧
    ((assigned.filter fun e => e.1.targetPin.isNone).map Prod.snd).Nodup ∧
    ∀ more, ∃ rest, assignPins declared (wires ++ more) target = assigned ++ rest ∧
      (rest.map Prod.fst).Sublist (wiresInto more target) := by
  intro assigned
  refine ⟨assignFrom_sublist declared [] _, fun earlier wire later hsplit htarget => ?_,
    fun before e after hsplit hopen => ?_, nodup_open_pins declared _, fun more => ?_⟩
  · intro before
    have hinto : wiresInto (wire :: later) target = wire :: wiresInto later target :=
      List.filter_cons_of_pos (by simpa using htarget)
    have hassigned : assigned = before ++ assignFrom declared (before.map Prod.snd).reverse
        (wire :: wiresInto later target) := by
      rw [← hinto, ← assignPins_append, ← hsplit]
    have htaken : ∀ p, p ∈ (before.map Prod.snd).reverse ↔ p ∈ before.map Prod.snd :=
      fun p => List.mem_reverse
    obtain ⟨after, hcons, hafter⟩ := assignFrom_cons declared (before.map Prod.snd).reverse wire
      (wiresInto later target)
    refine ⟨pinFor declared (before.map Prod.snd).reverse wire, after, ?_, hafter,
      fun pin => pinFor_named, fun hopen => ⟨?_, fun pin hpin => ?_⟩⟩
    · rw [hassigned, hcons, List.append_assoc]
    · rw [isSome_pinFor_iff hopen]
      simp only [htaken]
    · exact ((pinFor_eq_some_iff hopen).1 hpin).congr fun p => (htaken p).symm
  · obtain ⟨hdeclared, hnew, -⟩ := pin_of_open hsplit hopen
    exact ⟨hdeclared, hnew⟩
  · exact ⟨_, assignPins_append declared wires more target, assignFrom_sublist declared _ _⟩

/-- More wires than pins into `m`: one names a pin that is not declared, and one a pin that is taken
already. -/
def crowdedWires : List Wire :=
  [{ source := "a", target := "m" }, { source := "b", target := "m", targetPin := some "Z" },
    { source := "x", target := "n" }, { source := "c", target := "m" },
    { source := "d", target := "m", targetPin := some "A" }, { source := "e", target := "m" }]

/-- Where `A` is declared twice, the two open wires in front have `A` and `B`, and the last one
finds no pin free, so that those before it have what they would have without it. -/
theorem pins_are_taken_greedily_crowdedWires :
    let declared := ["A", "B", "A"]
    let before := assignPins declared (crowdedWires.take 5) "m"
    before.map (fun e => (e.1.source, e.2)) = [("a", "A"), ("b", "Z"), ("c", "B"), ("d", "A")] ∧
      assignPins declared crowdedWires "m" = before ∧
      ∃ rest, assignPins declared (crowdedWires ++ crowdedWires) "m" = before ++ rest := by
  intro declared before
  obtain ⟨-, hsplit, -, -, hmore⟩ := pins_are_taken_greedily declared crowdedWires "m"
  obtain ⟨own, after, hassigned, hafter, -, hopen⟩ :=
    hsplit (crowdedWires.take 5) { source := "e", target := "m" } [] rfl rfl
  have hown : own = none := by
    rw [← Option.not_isSome_iff_eq_none, (hopen rfl).1]
    decide
  have hnone : after = [] := List.map_eq_nil_iff.1 (List.sublist_nil.1 hafter)
  have hall : assignPins declared crowdedWires "m" = before := by
    rw [hassigned, hown, hnone]
    simp [before]
  obtain ⟨rest, hrest, -⟩ := hmore crowdedWires
  exact ⟨by decide, hall, rest, by rw [hrest, hall]⟩

end Breadboard
