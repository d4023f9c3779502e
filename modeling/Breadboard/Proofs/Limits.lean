import Breadboard.Proofs.Bookkeeping
import Breadboard.Proofs.Convergence
import Breadboard.Proofs.Order

/-!
# The limit on passes

Settling repeats one and the same pass. When it stops is decided by the passes alone: after the
first one that changes nothing, or else when as many are made as the limit allows. So a limit never
decides what a circuit settles to, only when to give up, and to settle under one limit and then
under another is to settle under their sum.

* `Scope.Settles`: what settling does, told by the passes that follow each other;
* `settles_settle`, `Scope.Settles.unique`: settling does that, and nothing else does;
* `Scope.Settles.raise`, `Scope.Settles.append`: other limits, and one settling after another;
* `run_withLimit`: a whole run under a higher limit;
* **`limits_compose`**: all of it.
-/

namespace Breadboard

variable {catalog : Catalog} {wires : List Wire}

/-! ## Passes that follow each other -/

/-- Does the pass after the `n`-th change anything? -/
def Scope.stirs (catalog : Catalog) (s : Scope) (n : Nat) : Bool :=
  (passAll catalog s.wires s.inherited (s.after catalog n)).2

/-- The passes after the `m`-th. -/
theorem after_add (s : Scope) (m n : Nat) :
    Scope.after catalog ⟨s.after catalog m, s.wires, s.inherited⟩ n = s.after catalog (m + n) := by
  induction n with
  | zero => rfl
  | succ n ih =>
    rw [Scope.after, ih]
    rfl

theorem stirs_add (s : Scope) (m n : Nat) :
    Scope.stirs catalog ⟨s.after catalog m, s.wires, s.inherited⟩ n = s.stirs catalog (m + n) := by
  unfold Scope.stirs
  rw [after_add]

/-! ## What settling does -/

/-- What settling under a limit makes of a scope: at least one pass is made, each but the last
changes something, and the last one is the last that the limit allows unless it changes nothing. -/
structure Scope.Settles (catalog : Catalog) (s : Scope) (limit : Nat)
    (result : List Instance × SettleReport) : Prop where
  passes_pos : 1 ≤ result.2.passes
  passes_le : result.2.passes ≤ max 1 limit
  passes_eq : result.2.converged = false → result.2.passes = max 1 limit
  earlier : ∀ n, n + 1 < result.2.passes → s.stirs catalog n = true
  last : s.stirs catalog (result.2.passes - 1) = !result.2.converged
  state : result.1 = s.after catalog result.2.passes

namespace Scope.Settles

variable {s : Scope} {limit : Nat} {r r' : List Instance × SettleReport}

theorem converged_eq (h : s.Settles catalog limit r) :
    r.2.converged = !s.stirs catalog (r.2.passes - 1) := by
  rw [h.last, Bool.not_not]

/-- No settling goes on after another one has stopped. -/
theorem passes_le_of (h : s.Settles catalog limit r) (h' : s.Settles catalog limit r') :
    r'.2.passes ≤ r.2.passes := by
  by_contra hlt
  -- the other one made a further pass, so here the limit was reached
  have hpos := h.passes_pos
  have hstirs := h'.earlier (r.2.passes - 1) (by omega)
  have hgave : r.2.converged = false := by rw [h.converged_eq, hstirs, Bool.not_true]
  have heq := h.passes_eq hgave
  have hle := h'.passes_le
  omega

/-- **Settling is determined by the passes.** -/
theorem unique (h : s.Settles catalog limit r) (h' : s.Settles catalog limit r') : r = r' := by
  have hpasses : r.2.passes = r'.2.passes :=
    Nat.le_antisymm (h'.passes_le_of h) (h.passes_le_of h')
  have hconverged : r.2.converged = r'.2.converged := by
    rw [h.converged_eq, h'.converged_eq, hpasses]
  have hreport : r.2 = r'.2 := by
    cases hr : r.2
    cases hr' : r'.2
    simp_all
  refine Prod.ext ?_ hreport
  rw [h.state, h'.state, hpasses]

/-- What has settled under a limit has settled under every higher one. -/
theorem raise (h : s.Settles catalog limit r) (hconverged : r.2.converged = true) {limit' : Nat}
    (hle : limit ≤ limit') : s.Settles catalog limit' r where
  passes_pos := h.passes_pos
  passes_le := by
    have hpasses := h.passes_le
    omega
  passes_eq hgave := absurd (hconverged.symm.trans hgave) (by simp)
  earlier := h.earlier
  last := h.last
  state := h.state

/-- **To give up and settle again is to go on.** -/
theorem append {k : Nat} (hlimit : 1 ≤ limit) (hk : 1 ≤ k) (h : s.Settles catalog limit r)
    (hgave : r.2.converged = false)
    (h' : Scope.Settles catalog ⟨r.1, s.wires, s.inherited⟩ k r') :
    s.Settles catalog (limit + k) (r'.1, ⟨limit + r'.2.passes, r'.2.converged⟩) := by
  have hpasses : r.2.passes = limit := by
    rw [h.passes_eq hgave]
    omega
  have hstart : r.1 = s.after catalog limit := by rw [h.state, hpasses]
  rw [hstart] at h'
  have hpos := h'.passes_pos
  have hle := h'.passes_le
  constructor
  · simp only
    omega
  · simp only
    omega
  · intro hgave'
    have heq := h'.passes_eq hgave'
    simp only
    omega
  · intro n hn
    simp only at hn
    by_cases hfirst : n + 1 < limit
    · exact h.earlier n (hpasses.symm ▸ hfirst)
    · by_cases hlast : n + 1 = limit
      · have hstirs := h.last
        rw [hpasses, hgave] at hstirs
        rwa [← hlast] at hstirs
      · have hstirs := h'.earlier (n - limit) (by omega)
        rw [stirs_add] at hstirs
        rwa [Nat.add_sub_cancel' (by omega)] at hstirs
  · have hstirs := h'.last
    rw [stirs_add] at hstirs
    simp only
    rwa [Nat.add_sub_assoc hpos]
  · simp only
    rw [h'.state, after_add]

end Scope.Settles

/-! ## Settling, pass by pass -/

/-- Passes made before are only counted. -/
theorem settleFrom_eq_add (n : Nat) : ∀ (done : Nat) (scope : List Instance),
    settleFrom catalog wires done n scope =
      ((settleFrom catalog wires 0 n scope).1,
        ⟨done + (settleFrom catalog wires 0 n scope).2.passes,
          (settleFrom catalog wires 0 n scope).2.converged⟩) := by
  induction n with
  | zero => exact fun done scope => rfl
  | succ n ih =>
    intro done scope
    cases hq : (passAll catalog wires ∅ scope).2 with
    | false => rw [settleFrom_of_quiet done _ hq, settleFrom_of_quiet 0 _ hq]
    | true =>
      rw [settleFrom_of_busy done n hq, settleFrom_of_busy 0 n hq, ih (done + 1), ih (0 + 1)]
      simp only [Prod.mk.injEq, SettleReport.mk.injEq, and_true, true_and]
      omega

/-- **Settling is what it should be**, from the first pass on. -/
theorem settles_settleFrom (n : Nat) : ∀ scope : List Instance,
    Scope.Settles catalog ⟨scope, wires, ∅⟩ (n + 1) (settleFrom catalog wires 0 n scope) := by
  induction n with
  | zero =>
    intro scope
    exact ⟨Nat.le_refl _, Nat.le_refl _, fun _ => rfl, fun n hn => absurd hn (by simp [settleFrom]),
      by simp [settleFrom, Scope.stirs, Scope.after], rfl⟩
  | succ n ih =>
    intro scope
    cases hq : (passAll catalog wires ∅ scope).2 with
    | false =>
      rw [settleFrom_of_quiet 0 _ hq]
      exact ⟨Nat.le_refl _, by simp, fun h => absurd h (by simp), fun n hn => absurd hn (by simp),
        hq, rfl⟩
    | true =>
      -- one pass that gives up under the limit 1, and then the rest
      have hone : Scope.Settles catalog ⟨scope, wires, ∅⟩ 1
          ((passAll catalog wires ∅ scope).1, ⟨1, false⟩) :=
        ⟨Nat.le_refl _, Nat.le_refl _, fun _ => rfl, fun n hn => absurd hn (by simp), hq, rfl⟩
      rw [settleFrom_of_busy 0 n hq, settleFrom_eq_add, Nat.add_comm (n + 1) 1]
      exact hone.append (Nat.le_refl 1) (Nat.le_add_left 1 n) rfl (ih _)

/-- **Settling is what it should be.** -/
theorem settles_settle (catalog : Catalog) (wires : List Wire) (limit : Nat)
    (scope : List Instance) :
    Scope.Settles catalog ⟨scope, wires, ∅⟩ limit (settle catalog wires limit scope) := by
  have h : Scope.Settles catalog ⟨scope, wires, ∅⟩ (limit - 1 + 1)
      (settle catalog wires limit scope) := settles_settleFrom (limit - 1) scope
  have hlimit : max 1 (limit - 1 + 1) = max 1 limit := by omega
  exact ⟨h.passes_pos, hlimit ▸ h.passes_le, hlimit ▸ h.passes_eq, h.earlier, h.last, h.state⟩

/-- **A higher limit changes nothing** where a circuit settles. -/
theorem settle_of_le {scope : List Instance} {limit limit' : Nat} (hle : limit ≤ limit')
    (hconverged : (settle catalog wires limit scope).2.converged = true) :
    settle catalog wires limit' scope = settle catalog wires limit scope :=
  (settles_settle catalog wires limit' scope).unique
    ((settles_settle catalog wires limit scope).raise hconverged hle)

/-! ## Simulators -/

/-- The simulator under another limit. -/
def Simulator.withLimit (sim : Simulator) (limit : UInt64) : Simulator :=
  { sim with options := { sim.options with maxPasses := limit } }

theorem netlist?_withLimit (sim : Simulator) (limit : UInt64) (c : Command) :
    c.netlist? (sim.withLimit limit) = c.netlist? sim := by
  cases c <;> rfl

/-- A settling that converges reports nothing. -/
theorem runSettle_of_converged {sim : Simulator}
    (h : (sim.settled sim.netlist).2.converged = true) :
    sim.runSettle.1 = { sim with
      netlist := ⟨(sim.settled sim.netlist).1, sim.wires⟩
      lastReport := some (sim.settled sim.netlist).2 } := by
  have hissues : sim.runSettle.1.issues = if (sim.settled sim.netlist).2.converged then sim.issues
      else sim.issues.add (.didNotConverge (sim.settled sim.netlist).2.passes) := rfl
  rw [if_pos h] at hissues
  rw [← hissues]
  rfl

/-- One settling of a simulator under a higher limit. -/
theorem runSettle_withLimit (sim : Simulator) {limit : UInt64} (hle : sim.options.maxPasses ≤ limit)
    (hconverged : (sim.settled sim.netlist).2.converged = true) :
    (sim.withLimit limit).runSettle.1 = sim.runSettle.1.withLimit limit := by
  have hsettled : (sim.withLimit limit).settled (sim.withLimit limit).netlist =
      sim.settled sim.netlist := settle_of_le (UInt64.le_iff_toNat_le.1 hle) hconverged
  rw [runSettle_of_converged hconverged, runSettle_of_converged (hsettled ▸ hconverged), hsettled]
  rfl

/-- **One operation under a higher limit** does the same, if it settles at all. -/
theorem exec_withLimit {sim : Simulator} {limit : UInt64} (hle : sim.options.maxPasses ≤ limit)
    {c : Command} (hconverged : (c.exec sim).convergedLast = true) :
    c.exec (sim.withLimit limit) = (c.exec sim).withLimit limit := by
  cases hlaid : c.netlist? sim with
  | some netlist =>
    obtain ⟨hexec, hreport⟩ := exec_eq_runSettle hlaid
    have hlaid' := (netlist?_withLimit sim limit c).trans hlaid
    have hsettled : (sim.begun c netlist).runSettle.2.converged = true := by
      rw [hexec] at hconverged
      exact hconverged
    rw [(exec_eq_runSettle hlaid').1, hexec]
    exact runSettle_withLimit (sim.begun c netlist) hle hsettled
  | none =>
    cases c with
    | expand id expanded => rfl
    | toggle id =>
      have hi : (sim.instance? id).filter Instance.isInput = none := Option.map_eq_none_iff.1 hlaid
      rw [exec_toggle_of_none hi, @exec_toggle_of_none (sim.withLimit limit) id hi]
      rfl
    | assemble | assembleProgram | tick | settle | restore =>
      exact absurd hlaid (by simp [Command.netlist?])

/-- **A run under a higher limit** is the same run, if every settling of it converges. -/
theorem run_withLimit {limit : UInt64} (commands : List Command) : ∀ sim : Simulator,
    sim.options.maxPasses ≤ limit → sim.converges commands = true →
      (sim.withLimit limit).run commands = (sim.run commands).withLimit limit := by
  induction commands with
  | nil => exact fun _ _ _ => rfl
  | cons c rest ih =>
    intro sim hle hconverges
    rw [Simulator.converges, Bool.and_eq_true] at hconverges
    rw [run_cons, run_cons, exec_withLimit hle hconverges.1]
    exact ih (c.exec sim) ((exec_catalog sim c).2.symm ▸ hle) hconverges.2

/-! ## All of it -/

/-- **Limits on passes compose.** Settling is one pass, made again and again until it changes
nothing or the limit is reached, whatever the state of the circuit. If it converges under a limit,
it does the same under every higher one. If it does not, then settling what it left under a further
limit leads where the sum of the limits leads at once, and reports the passes of both. So a run of a
simulator whose every settling converges is the same run under any higher limit. -/
theorem limits_compose (catalog : Catalog) (wires : List Wire) (scope : List Instance) {m k : Nat}
    (hm : 1 ≤ m) (hk : 1 ≤ k) :
    let first := settle catalog wires m scope
    let second := settle catalog wires k first.1
    let whole := settle catalog wires (m + k) scope
    (first.2.converged = true → whole = first) ∧
    (first.2.converged = false →
      whole = (second.1, ⟨m + second.2.passes, second.2.converged⟩)) ∧
    Scope.Settles catalog ⟨scope, wires, ∅⟩ (m + k) whole ∧
    ∀ (sim : Simulator) (commands : List Command) (limit : UInt64),
      sim.options.maxPasses ≤ limit → sim.converges commands = true →
        (sim.withLimit limit).run commands = (sim.run commands).withLimit limit := by
  intro first second whole
  have hfirst : Scope.Settles catalog ⟨scope, wires, ∅⟩ m first := settles_settle ..
  have hsecond : Scope.Settles catalog ⟨first.1, wires, ∅⟩ k second := settles_settle ..
  have hwhole : Scope.Settles catalog ⟨scope, wires, ∅⟩ (m + k) whole := settles_settle ..
  refine ⟨fun hconverged => ?_, fun hgave => ?_, hwhole, fun sim commands limit => ?_⟩
  · exact settle_of_le (Nat.le_add_right m k) hconverged
  · exact hwhole.unique (hfirst.append hm hk hgave hsecond)
  · exact run_withLimit commands sim

/-- Two inverters behind a switch, listed against the flow: the first pass is not enough. -/
def backwardChain : Program :=
  ⟨[.part ⟨"n", "NOT", none⟩, .part ⟨"m", "NOT", none⟩, .part ⟨"a", "INPUT", none⟩,
    .wire ⟨"a", "m", .implicit⟩, .wire ⟨"m", "n", .implicit⟩]⟩

/-- Under a limit of one pass the inverters do not settle, two passes more finish the work, and four
at once come to the same. -/
theorem limits_compose_backwardChain :
    let netlist := Netlist.ofProgram Standard.catalog backwardChain
    let first := settle Standard.catalog netlist.wires 1 netlist.instances
    let second := settle Standard.catalog netlist.wires 3 first.1
    first.2 = ⟨1, false⟩ ∧ second.2 = ⟨2, true⟩ ∧
      settle Standard.catalog netlist.wires (1 + 3) netlist.instances =
        (second.1, ⟨1 + 2, true⟩) := by
  intro netlist first second
  have hfirst : first.2 = ⟨1, false⟩ := by decide +kernel
  -- not by the name of `second`, so that it is rewritten where the theorem has it
  have hsecond : (settle Standard.catalog netlist.wires 3
      (settle Standard.catalog netlist.wires 1 netlist.instances).1).2 = ⟨2, true⟩ := by
    decide +kernel
  have hwhole := (limits_compose Standard.catalog netlist.wires netlist.instances
    (Nat.le_refl 1) (show 1 ≤ 3 by decide)).2.1 (congrArg SettleReport.converged hfirst)
  simp only [hsecond] at hwhole
  exact ⟨hfirst, hsecond, hwhole⟩

end Breadboard
