import Breadboard.Proofs.StandardChips
import Breadboard.Proofs.Tick

/-!
# Registers load and hold

A `BIT` holds its value in a flip-flop that is fed by a multiplexer, which gives back the bit of the
flip-flop unless `Load` is high. So a clock edge brings `In` if `Load` was high before it, and
nothing else changes the bit, in whatever circuit the register stands, also if what it shows leads
back to its inputs. A `REGISTER_4_BIT` is four of them.

* `Instance.Is.within_rel`: the parts of a chip have places of their own;
* `exec_clocked`: what one operation does to the flip-flop on a place;
* `Instance.Is.bit_next`: what the flip-flop of a bit has taken down;
* `bit_step`, `register4_step`: one operation;
* **`registers_load_and_hold`**: every operation of every run;
* **`bit_over_run`**: a whole run.
-/

namespace Breadboard

open Standard (bits)

/-! ## Places of parts -/

/-- What stands at a place of a scope that works is a chip that works. -/
theorem Scope.Works.instance_of_instanceAt? {s : Scope} (h : s.Works Standard.catalog)
    {path : List Nat} {k : Nat} {i : Instance} (hi : s.instanceAt? path k = some i) {chip : String}
    (hchip : i.chip = chip) (hne : chip ≠ inputType) : i.Is chip := by
  obtain ⟨t, ht, hseat⟩ := Option.bind_eq_some_iff.1 hi
  exact is_of_works (h.holds (Scope.holds_of_at? path ht)) (List.mem_of_getElem? hseat) hchip hne

/-- Standard chips of one type have parts of the same ids. -/
theorem Instance.Is.map_id_parts {i j : Instance} {chip : String}
    (hi : i.Is chip) (hj : j.Is chip) :
    i.parts.map Instance.id = j.parts.map Instance.id := by
  cases hget : Standard.listed.composite? chip with
  | none => rw [hi.parts_of_not_composite hget, hj.parts_of_not_composite hget]
  | some d =>
    have hparts := (hi.assembled hget).parts.trans (hj.assembled hget).parts.symm
    have hids := congrArg (List.map Part.id) hparts
    rwa [List.map_map, List.map_map] at hids

/-- **What relates two circuits place by place** relates the parts of two chips on one place. -/
theorem Instance.Is.within_rel {R : Instance → Instance → Prop} {s t : Scope}
    (hR : ∀ path k, Option.Rel R (s.instanceAt? path k) (t.instanceAt? path k)) {i j : Instance}
    {chip id inner : String} (hi : i.Is chip) (hj : j.Is chip) {path : List Nat} {k : Nat}
    (hati : s.instanceAt? path k = some i) (hatj : t.instanceAt? path k = some j)
    (hpart : (Standard.listed.part? chip id).map Part.chip = some inner) :
    ∃ m, s.instanceAt? (path ++ [k]) m = some (i.within id) ∧
      t.instanceAt? (path ++ [k]) m = some (j.within id) ∧ R (i.within id) (j.within id) := by
  obtain ⟨part, hfound, -⟩ := Option.map_eq_some_iff.1 hpart
  obtain ⟨-, a, -, ha, -, hwithin⟩ := hi.exists_of_part? hfound
  obtain ⟨-, b, -, hb, -, hwithin'⟩ := hj.exists_of_part? hfound
  rw [findInstance?_eq_seat] at ha hb
  rw [← seat?_congr (hi.map_id_parts hj)] at hb
  obtain ⟨m, hm, ham⟩ := Option.bind_eq_some_iff.1 ha
  rw [hm, Option.bind_some] at hb
  have hs : s.instanceAt? (path ++ [k]) m = some (i.within id) := by
    rw [Scope.instanceAt?_concat, hati, Option.bind_some, ham, hwithin]
  have ht : t.instanceAt? (path ++ [k]) m = some (j.within id) := by
    rw [Scope.instanceAt?_concat, hatj, Option.bind_some, hb, hwithin']
  exact ⟨m, hs, ht, rel_some (hR (path ++ [k]) m) hs ht⟩

/-! ## Flip-flops -/

/-- Is the operation a clock edge? -/
def Command.clocks : Command → Bool
  | .tick => true
  | _ => false

/-- What became of a flip-flop in one operation: it took its next value if the clock ticked. -/
structure Instance.ClockedBy (c : Command) (before after : Instance) : Prop where
  part : after.part = before.part
  flipFlop : before.isFlipFlop = true →
    after.value = if c.clocks then before.next else before.value

/-- **One operation at every place.** -/
theorem exec_clocked (sim : Simulator) {c : Command} (hc : c.rebuilds = false) (path : List Nat)
    (k : Nat) :
    Option.Rel (Instance.ClockedBy c) (sim.top.instanceAt? path k)
      ((c.exec sim).top.instanceAt? path k) := by
  cases c with
  | assemble | assembleProgram | restore => exact absurd hc (by simp [Command.rebuilds])
  | tick =>
    have hcommitted := commitAll_sameButCommitted sim.wires sim.instances path k
    have hsettled := settle_sameButSettled sim.catalog sim.wires sim.options.maxPasses.toNat
      (commitAll sim.instances).1 path k
    refine rel_trans (fun i j l hij hjl => ⟨hjl.part.trans hij.part, fun hflip => ?_⟩)
      hcommitted hsettled
    have hsignals := hij.signals
    rw [if_pos hflip] at hsignals
    rw [(hjl.flipFlop ((isFlipFlop_of_hollow hij.body).trans hflip)).1]
    exact congrArg Signals.value hsignals
  | toggle | settle | expand =>
    refine rel_imp (fun i j hij => ⟨hij.part, fun hflip => ?_⟩)
      (exec_sameUnlessStimulated sim hc path k)
    exact hij.flipFlop hflip (by simp)

/-! ## Registers -/

namespace Instance.Is

variable {i : Instance} {n : String}

theorem isFlipFlop (h : i.Is "DFF") : i.isFlipFlop = true := by
  have hbody := h.body_primitive (d := ⟨.dff, ["In"], [outPin]⟩) (by decide)
  unfold Instance.isFlipFlop
  rw [hbody]

theorem dff_next (h : i.Is "DFF") : i.next = i.input "In" :=
  h.next_flipFlop (d := ⟨.dff, ["In"], [outPin]⟩) (by decide) rfl

/-- A bit shows what its flip-flop holds, as a whole and on its output pin. -/
theorem bit_value (h : i.Is "BIT") :
    i.value = (i.within "dff").value ∧ i.output "Out" = (i.within "dff").value :=
  ⟨h.main "dff" rfl, h.shows "Out" "dff" rfl⟩

/-- **What the flip-flop of a bit has taken down**: the input, or what it holds already. -/
theorem bit_next (h : i.Is "BIT") :
    (i.within "dff").next = if i.input "Load" then i.input "In" else i.value := by
  have hdff := (h.part "dff" "DFF" rfl).dff_next
  have hmux := (h.part "mux" "MUX" rfl).mux
  have hwired := h.wired [("mux", "A", .output "dff" none), ("mux", "B", .input "In"),
    ("mux", "Sel", .input "Load"), ("dff", "In", .output "mux" none)] (by decide)
  simp only [List.forall_mem_cons, sees_input, sees_main] at hwired
  obtain ⟨hheld, hin, hload, hfed, -⟩ := hwired
  rw [hdff, hfed, hmux, hheld, hin, hload, h.bit_value.1]

/-- A register shows its bits, and hands its inputs to them. -/
theorem register4_bit (h : i.Is "REGISTER_4_BIT") (hn : n ∈ bits) :
    i.output ("Out" ++ n) = (i.within ("bit" ++ n)).value ∧
      (i.within ("bit" ++ n)).input "In" = i.input ("In" ++ n) ∧
      (i.within ("bit" ++ n)).input "Load" = i.input "Load" := by
  have htap : ∀ n ∈ bits, (Standard.listed.pinMapOf "REGISTER_4_BIT").outputs.get? ("Out" ++ n) =
      some { id := "bit" ++ n } := by decide
  have hsource : ∀ n ∈ bits,
      Standard.listed.source? "REGISTER_4_BIT" ("bit" ++ n) "In" = some (.input ("In" ++ n)) ∧
      Standard.listed.source? "REGISTER_4_BIT" ("bit" ++ n) "Load" = some (.input "Load") := by
    decide
  obtain ⟨hin, hload⟩ := hsource n hn
  exact ⟨h.shows _ _ (htap n hn), h.fed _ _ _ hin, h.fed _ _ _ hload⟩

end Instance.Is

/-- What a bit that holds `old` holds after an operation. -/
def Command.nextBit (c : Command) (load input old : Bool) : Bool :=
  if c.clocks && load then input else old

/-- From one circuit to the other an operation has come to every place. -/
structure Command.Led (c : Command) (before after : Scope) : Prop where
  works : before.Works Standard.catalog
  works' : after.Works Standard.catalog
  clocked : ∀ path k,
    Option.Rel (Instance.ClockedBy c) (before.instanceAt? path k) (after.instanceAt? path k)

section Step

variable {c : Command} {s t : Scope} {path : List Nat} {k : Nat} {i j : Instance}

theorem Command.Led.part_eq (h : c.Led s t) (hi : s.instanceAt? path k = some i)
    (hj : t.instanceAt? path k = some j) : j.part = i.part :=
  (rel_some (h.clocked path k) hi hj).part

/-- **A bit loads or holds.** -/
theorem bit_step (h : c.Led s t) (hi : s.instanceAt? path k = some i)
    (hj : t.instanceAt? path k = some j) (hchip : i.chip = "BIT") :
    j.value = c.nextBit (i.input "Load") (i.input "In") i.value := by
  have hchip' : j.chip = "BIT" := (congrArg Part.chip (h.part_eq hi hj)).trans hchip
  have hbit := h.works.instance_of_instanceAt? hi hchip (by decide)
  have hbit' := h.works'.instance_of_instanceAt? hj hchip' (by decide)
  have hpart : (Standard.listed.part? "BIT" "dff").map Part.chip = some "DFF" := by decide
  obtain ⟨-, -, -, hclocked⟩ := hbit.within_rel h.clocked hbit' hi hj hpart
  rw [hbit'.bit_value.1, hclocked.flipFlop (hbit.part _ _ hpart).isFlipFlop,
    hbit.bit_next, ← hbit.bit_value.1, Command.nextBit]
  cases c.clocks <;> rfl

/-- **A register loads or holds**, bit by bit. -/
theorem register4_step (h : c.Led s t) (hi : s.instanceAt? path k = some i)
    (hj : t.instanceAt? path k = some j) (hchip : i.chip = "REGISTER_4_BIT") {n : String}
    (hn : n ∈ bits) : j.output ("Out" ++ n) =
      c.nextBit (i.input "Load") (i.input ("In" ++ n)) (i.output ("Out" ++ n)) := by
  have hchip' : j.chip = "REGISTER_4_BIT" := (congrArg Part.chip (h.part_eq hi hj)).trans hchip
  have hreg := h.works.instance_of_instanceAt? hi hchip (by decide)
  have hreg' := h.works'.instance_of_instanceAt? hj hchip' (by decide)
  have hpart : ∀ n ∈ bits, (Standard.listed.part? "REGISTER_4_BIT" ("bit" ++ n)).map Part.chip =
      some "BIT" := by decide
  obtain ⟨m, hbit, hbit', -⟩ := hreg.within_rel h.clocked hreg' hi hj (hpart n hn)
  obtain ⟨hout, hin, hload⟩ := hreg.register4_bit hn
  have hstep := bit_step h hbit hbit' (hreg.part _ _ (hpart n hn)).chip_eq
  rw [(hreg'.register4_bit hn).1, hstep, hout, hin, hload]

end Step

/-! ## Runs -/

/-- **One operation** between two settled states. -/
theorem led_exec {sim : Simulator} (h : sim.Unrestored Standard.catalog)
    (hlast : sim.convergedLast = true) {c : Command} (hc : c.rebuilds = false)
    (hnext : (c.exec sim).convergedLast = true) : c.Led sim.top (c.exec sim).top :=
  ⟨h.works standard_noCycle hlast, (h.exec (restores_of_rebuilds hc)).works standard_noCycle hnext,
    exec_clocked sim hc⟩

/-- What stands at a place still stands there after the operation. -/
theorem Command.Led.exists_instanceAt? {c : Command} {s t : Scope} (h : c.Led s t)
    {path : List Nat} {k : Nat} {i : Instance} (hi : s.instanceAt? path k = some i) :
    ∃ j, t.instanceAt? path k = some j := by
  have hrel := h.clocked path k
  rw [hi] at hrel
  cases hj : t.instanceAt? path k with
  | none =>
    rw [hj] at hrel
    nomatch hrel
  | some j => exact ⟨j, rfl⟩

/-- What a bit that holds `old` holds after a run, read off its pins before each operation. -/
def Simulator.loaded (path : List Nat) (k : Nat) (sim : Simulator) (old : Bool) :
    List Command → Bool
  | [] => old
  | c :: rest =>
    let held := match sim.top.instanceAt? path k with
      | some i => c.nextBit (i.input "Load") (i.input "In") old
      | none => old
    (c.exec sim).loaded path k held rest

/-- **A bit over a whole run** holds what was loaded last. -/
theorem bit_over_run (commands : List Command) : ∀ {sim : Simulator},
    sim.Unrestored Standard.catalog → sim.convergedLast = true →
      (∀ c ∈ commands, c.rebuilds = false) → sim.converges commands = true →
      ∀ {path : List Nat} {k : Nat} {i : Instance}, sim.top.instanceAt? path k = some i →
        i.chip = "BIT" → ∃ j, (sim.run commands).top.instanceAt? path k = some j ∧
          j.part = i.part ∧ j.value = sim.loaded path k i.value commands := by
  induction commands with
  | nil => exact fun _ _ _ _ _ _ i hi _ => ⟨i, hi, rfl, rfl⟩
  | cons c rest ih =>
    intro sim h hlast hbuilds hconverges path k i hi hchip
    rw [List.forall_mem_cons] at hbuilds
    rw [Simulator.converges, Bool.and_eq_true] at hconverges
    have hled := led_exec h hlast hbuilds.1 hconverges.1
    obtain ⟨j, hj⟩ := hled.exists_instanceAt? hi
    have hpart := hled.part_eq hi hj
    obtain ⟨l, hl, hlpart, hvalue⟩ := ih (h.exec (restores_of_rebuilds hbuilds.1)) hconverges.1
      hbuilds.2 hconverges.2 hj ((congrArg Part.chip hpart).trans hchip)
    refine ⟨l, hl, hlpart.trans hpart, ?_⟩
    rw [hvalue, bit_step hled hi hj hchip, Simulator.loaded, hi]

theorem convergedLast_of_converges (commands : List Command) : ∀ {sim : Simulator},
    sim.convergedLast = true → sim.converges commands = true →
      (sim.run commands).convergedLast = true := by
  induction commands with
  | nil => exact fun h _ => h
  | cons c rest ih =>
    intro sim _ h
    rw [Simulator.converges, Bool.and_eq_true] at h
    exact ih h.1 h.2

/-- **Registers load and hold.** Let all settlings of a run on the standard catalog converge, and
nothing be restored in it. After any number of its operations, every bit at every depth shows its
value on its output pin. After one operation more that builds no circuit, the same bit stands on its
place, and its value is what was on its input if that was a clock edge and `Load` was high before
it, and else what it was. So it is with each pin of a register. -/
theorem registers_load_and_hold (options : SimOptions) (commands : List Command)
    (hcommands : ∀ c ∈ commands, c.restores = false)
    (hconverges : (Simulator.new Standard.catalog options).converges commands = true) (n : Nat)
    {path : List Nat} {k : Nat} {i : Instance}
    (hi : ((Simulator.new Standard.catalog options).run (commands.take n)).top.instanceAt? path k =
      some i) :
    (i.chip = "BIT" → i.output "Out" = i.value) ∧
      ∀ c, commands[n]? = some c → c.rebuilds = false → ∃ j,
        ((Simulator.new Standard.catalog options).run
          (commands.take (n + 1))).top.instanceAt? path k = some j ∧ j.part = i.part ∧
        (i.chip = "BIT" → j.value = c.nextBit (i.input "Load") (i.input "In") i.value) ∧
        (i.chip = "REGISTER_4_BIT" → ∀ m ∈ bits, j.output ("Out" ++ m) =
          c.nextBit (i.input "Load") (i.input ("In" ++ m)) (i.output ("Out" ++ m))) := by
  have hlast : ∀ m, ((Simulator.new Standard.catalog options).run
      (commands.take m)).convergedLast = true := fun m =>
    convergedLast_of_converges (commands.take m) rfl (converges_take commands m hconverges)
  have hrun : ((Simulator.new Standard.catalog options).run (commands.take n)).Unrestored
      Standard.catalog :=
    (Simulator.Unrestored.new _ options).run fun c hc => hcommands c (List.mem_of_mem_take hc)
  refine ⟨fun hchip => ?_, fun c hc hbuilds => ?_⟩
  · have hworks := hrun.works standard_noCycle (hlast n)
    have hbit := (hworks.instance_of_instanceAt? hi hchip (by decide)).bit_value
    exact hbit.2.trans hbit.1.symm
  · have hnext : (Simulator.new Standard.catalog options).run (commands.take (n + 1)) =
        c.exec ((Simulator.new Standard.catalog options).run (commands.take n)) := by
      rw [List.take_add_one, hc, Option.toList_some, run_concat]
    have hled := led_exec hrun (hlast n) hbuilds (hnext ▸ hlast (n + 1))
    obtain ⟨j, hj⟩ := hled.exists_instanceAt? hi
    rw [hnext]
    exact ⟨j, hj, hled.part_eq hi hj, bit_step hled hi hj,
      fun hchip m hm => register4_step hled hi hj hchip hm⟩

/-- The register of the latch loads on the clock edge. -/
theorem registers_load_and_hold_latch :
    let commands := [Command.assembleProgram latch, .toggle "in", .toggle "load", .tick]
    (Simulator.new Standard.catalog {}).converges commands = true ∧ ∃ i j,
      ((Simulator.new Standard.catalog {}).run (commands.take 3)).top.instanceAt? [] 2 = some i ∧
      ((Simulator.new Standard.catalog {}).run (commands.take 4)).top.instanceAt? [] 2 = some j ∧
      i.chip = "BIT" ∧ i.value = false ∧ j.value = true := by
  intro commands
  have hconverges : (Simulator.new Standard.catalog {}).converges commands = true := by
    decide +kernel
  have hbit : (((Simulator.new Standard.catalog {}).run (commands.take 3)).top.instanceAt? [] 2).map
      (fun i => (i.chip, i.input "Load", i.input "In", i.value)) =
        some ("BIT", true, true, false) := by decide +kernel
  obtain ⟨i, hi, hpins⟩ := Option.map_eq_some_iff.1 hbit
  simp only [Prod.mk.injEq] at hpins
  obtain ⟨hchip, hload, hin, hvalue⟩ := hpins
  obtain ⟨-, hstep⟩ := registers_load_and_hold {} commands (by decide) hconverges 3 hi
  obtain ⟨j, hj, -, hloads, -⟩ := hstep .tick rfl rfl
  refine ⟨hconverges, i, j, hi, hj, hchip, hvalue, ?_⟩
  rw [hloads hchip, hload, hin]
  rfl

end Breadboard
