import Breadboard.Proofs.OutputPins
import Breadboard.Proofs.Resettle

/-!
# What a tap reads

An output of a composite is tapped from a part, and a wire inside the composite may read the same
part on the same pin. If the part drives that pin, both have its bit. If it does not, the wire is
low, but the tap falls back to the main output of the part.

* `fallback_eq`, `output_tapped`: what is tapped from a pin that is driven, and from others;
* **`tap_reads_wire_iff`**: a tap reads what a wire reads, except on a pin that a high part does not
  drive;
* `undriven_pin_taps_main`: such a pin;
* **`standard_tap_reads_wire`**: the standard catalog taps no such pin.
-/

namespace Breadboard

variable {catalog : Catalog}

/-! ## Taps and wires -/

/-- **What a tap makes of a pin** at rest: its bit if it is driven, and else the main output. -/
theorem fallback_eq {i : Instance} {inputs : Pins} (hrest : i.AtRest catalog inputs)
    (hplain : i.Plain catalog) (pin : String) :
    (i.signals.outputs.get? pin).getD i.value =
      if i.drives catalog pin then i.output pin else i.value := by
  have htapped := read_tapped hrest hplain (some pin)
  rw [Option.bind_some, Option.filter_some] at htapped
  rw [htapped, Instance.drives]
  cases hkind : i.isComposite with
  | true =>
    simp only [Bool.true_and, if_true]
    split <;> rfl
  | false =>
    rw [hplain.output hkind]
    by_cases hout : pin = outPin <;> simp [hout, Instance.read]

/-- **What a tapped output reads** at rest: the pin of the part, or what the tap makes of it. -/
theorem output_tapped {s : Scope} (hrest : s.AtRest catalog)
    (hplain : Throughout (Instance.Plain catalog) s.instances) {i : Instance}
    (hi : i ∈ s.instances) {parts : List Instance} {inner : List Wire}
    (hbody : i.body = .composite parts inner) {pin source sourcePin : String}
    (htap : (catalog.pinMapOf i.chip).outputs.get? pin = some ⟨source, some sourcePin⟩)
    {k : Instance} (hk : findInstance? parts source = some k) :
    k.Plain catalog ∧
      i.output pin = if k.drives catalog sourcePin then k.output sourcePin else k.value := by
  have hinside := Scope.holds_of_body hi hbody
  have hkmem : k ∈ parts := List.mem_of_find?_eq_some hk
  have hkplain : k.Plain catalog := (throughout_iff.1 (hplain.holds hinside) k hkmem).1
  have hpin := ((hrest.solved hplain).composite i hi parts inner hbody).1 pin
  rw [htap] at hpin
  refine ⟨hkplain, ?_⟩
  rw [Instance.output, Signals.output, hpin,
    ← fallback_eq (Scope.atRest_iff.1 (hrest.holds hinside) k hkmem) hkplain]
  simp [Tap.read, hk]

/-- **A tap reads what a wire reads, except on a pin that a high part does not drive.** After any
run without a restore that ends settled, at every depth: an output that a composite taps from the
pin of a part has the bit of that pin if the part drives it, and else the main output of the part,
while every wire inside the composite that reads that part on that pin has the bit of the pin, which
is low if the part does not drive it. So the two are the same exactly if the part drives the pin or
is low. -/
theorem tap_reads_wire_iff (catalog : Catalog) (options : SimOptions) (commands : List Command)
    (hcommands : ∀ c ∈ commands, c.restores = false) (report : SettleReport)
    (hreport : ((Simulator.new catalog options).run commands).lastReport = some report)
    (hconverged : report.converged = true) {s : Scope}
    (hs : ((Simulator.new catalog options).run commands).top.Holds s) {i : Instance}
    (hi : i ∈ s.instances) {parts : List Instance} {inner : List Wire}
    (hbody : i.body = .composite parts inner) {pin source sourcePin : String}
    (htap : (catalog.pinMapOf i.chip).outputs.get? pin = some ⟨source, some sourcePin⟩)
    {k : Instance} (hk : findInstance? parts source = some k) :
    i.output pin = (if k.drives catalog sourcePin then k.output sourcePin else k.value) ∧
    (k.drives catalog sourcePin = false → k.output sourcePin = false) ∧
    (i.output pin = k.output sourcePin ↔ k.drives catalog sourcePin = true ∨ k.value = false) ∧
    ∀ (wire : Wire) (inherited : Pins), wire.source = source → wire.sourcePin = some sourcePin →
      wire.read parts inherited = k.output sourcePin := by
  have hrest := (atRest_of_not_restored catalog options commands hcommands report hreport
    hconverged).holds hs
  have hplain : Throughout (Instance.Plain catalog) s.instances :=
    ((lasting_plain catalog).run hcommands throughout_nil).holds hs
  obtain ⟨hkplain, hread⟩ := output_tapped hrest hplain hi hbody htap hk
  refine ⟨hread, output_of_not_drives hkplain, ?_, fun wire inherited hsource hpin => ?_⟩
  · rw [hread]
    cases hdrives : k.drives catalog sourcePin with
    | true => simp
    | false => simp [output_of_not_drives hkplain hdrives]
  · simp only [Wire.read, hsource, hk, hpin, Instance.read]

/-- A chip that taps two pins of a negation, `OUT`, which it drives, and `Q`, which it does not,
next to a second negation that reads `Q`. -/
def tappedAside : Composite where
  inputs := ["A"]
  outputs := ["X", "Y"]
  parts := [⟨"n", "NOT", none⟩, ⟨"m", "NOT", none⟩]
  wires := [Standard.into "A" "n" "In", Standard.link "n" "Q" "m" "In"]
  pinMap := { outputs := .ofList (Standard.pinTaps [("X", "n", outPin), ("Y", "n", "Q")]) }

/-- The standard catalog with that chip. -/
def tappedCatalog : Catalog := Standard.catalog.insert "T" (.composite tappedAside)

/-- The chip by itself. -/
def tappedChip : Simulator := (Simulator.new tappedCatalog {}).run [.assemble "T t\n"]

/-- The pin that is driven is tapped as it is. -/
theorem tap_reads_wire_driven :
    ∃ t n, tappedChip.instance? "t" = some t ∧ findInstance? t.parts "n" = some n ∧
      n.output outPin = true ∧ t.output "X" = n.output outPin := by
  have hreport : tappedChip.lastReport = some ⟨2, true⟩ := by decide +kernel
  have hbits : (tappedChip.instance? "t").map (fun t =>
      (t.chip, t.isComposite, (findInstance? t.parts "n").map fun n =>
        (n.drives tappedCatalog outPin, n.output outPin))) =
      some ("T", true, some (true, true)) := by decide +kernel
  have htap : (tappedCatalog.pinMapOf "T").outputs.get? "X" = some ⟨"n", some outPin⟩ := by
    decide +kernel
  obtain ⟨t, ht, hpair⟩ := Option.map_eq_some_iff.1 hbits
  simp only [Prod.mk.injEq, Option.map_eq_some_iff] at hpair
  obtain ⟨hchip, hcomposite, n, hn, hdrives, hhigh⟩ := hpair
  have hmem := mem_top_of_instance? ht
  refine ⟨t, n, ht, hn, hhigh, ?_⟩
  obtain ⟨part, expanded, signals, body⟩ := t
  cases body with
  | unknown | primitive => exact absurd hcomposite (by simp [Instance.isComposite])
  | composite parts inner =>
    rw [← hchip] at htap
    exact (tap_reads_wire_iff tappedCatalog {} [.assemble "T t\n"] (by decide) _ hreport rfl
      (.refl _) hmem rfl htap hn).2.2.1.2 (Or.inl hdrives)

/-- **The tap reads high and the wire low**, on one pin of one part. -/
theorem undriven_pin_taps_main :
    tappedChip.lastReport = some ⟨2, true⟩ ∧ tappedChip.output? "t" "Y" = some true ∧
      (Instance.atPath? tappedChip.instances ["t", "n"]).map (fun n => n.output "Q") = some false ∧
      (Instance.atPath? tappedChip.instances ["t", "m"]).map (fun m => m.signals.inputs.get? "In") =
        some (some false) := by
  decide +kernel

/-! ## The standard catalog -/

/-- A part of a standard composite that is tapped on a pin drives the pin. -/
theorem standard_taps_drive {chip pin source sourcePin : String} {d : Composite}
    (hget : Standard.catalog.get? chip = some (.composite d))
    (htap : d.pinMap.outputs.get? pin = some ⟨source, some sourcePin⟩) {part : Part}
    (hpart : part ∈ d.parts) (hid : part.id = source) :
    ∃ t, Standard.catalog.get? part.chip = some t ∧ t.leavesOut sourcePin = false := by
  have hall : ∀ e ∈ Standard.catalog.chips.entries, ∀ d ∈ e.2.composite?,
      ∀ tap ∈ d.pinMap.outputs.entries, ∀ p ∈ tap.2.pin, ∀ part ∈ d.parts, part.id = tap.2.id →
        ∃ t ∈ Standard.catalog.get? part.chip, t.leavesOut p = false := by
    decide +kernel
  exact hall _ (NameMap.get?_eq_some_iff.1 hget) d rfl _ (NameMap.get?_eq_some_iff.1 htap) _ rfl
    part hpart hid

/-- **On the standard catalog a tap reads what a wire reads**, in every chip at every depth, after
any run without a restore that ends settled. -/
theorem standard_tap_reads_wire (options : SimOptions) (commands : List Command)
    (hcommands : ∀ c ∈ commands, c.restores = false) (report : SettleReport)
    (hreport : ((Simulator.new Standard.catalog options).run commands).lastReport = some report)
    (hconverged : report.converged = true) {s : Scope}
    (hs : ((Simulator.new Standard.catalog options).run commands).top.Holds s) {i : Instance}
    (hi : i ∈ s.instances) {parts : List Instance} {inner : List Wire}
    (hbody : i.body = .composite parts inner) {pin source sourcePin : String}
    (htap : (Standard.catalog.pinMapOf i.chip).outputs.get? pin = some ⟨source, some sourcePin⟩)
    {k : Instance} (hk : findInstance? parts source = some k) :
    i.output pin = k.output sourcePin := by
  have hrest := (atRest_of_not_restored Standard.catalog options commands hcommands report hreport
    hconverged).holds hs
  have hplain : Throughout (Instance.Plain Standard.catalog) s.instances :=
    ((lasting_plain Standard.catalog).run hcommands throughout_nil).holds hs
  have hbuilt : Built Standard.catalog
      ((Simulator.new Standard.catalog options).run commands).instances :=
    built_run commands fun _ h => absurd h List.not_mem_nil
  obtain ⟨d, hget, -, hparts⟩ := hbuilt.blueprint hs hi hbody
  obtain ⟨hkmem, hid⟩ := mem_of_findInstance? hk
  rw [pinMapOf_composite hget] at htap
  obtain ⟨t, ht, hdriven⟩ := standard_taps_drive hget htap
    (hparts ▸ List.mem_map_of_mem hkmem) hid
  have hkind := isComposite_of_standard
    ((hbuilt.holds standard_noCycle hs).holds standard_noCycle
      (Scope.holds_of_body hi hbody)) hkmem ht
  rw [← pinMapOf_composite hget] at htap
  rw [(output_tapped hrest hplain hi hbody htap hk).2, drives_eq ht hkind, hdriven]
  rfl

end Breadboard
