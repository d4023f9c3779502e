import Breadboard.Chip.Standard
import Breadboard.Proofs.Command
import Breadboard.Proofs.Level

/-!
# How fast an acyclic circuit settles

A pass visits every instance once, in whatever order they are listed, and makes one pass inside a
composite. So after as many passes as its level says, an instance is final: it changes no more,
because all that feed it are final and its inputs no longer change.

* `Scope.FinalFrom`: from a given pass on, passes leave an instance alone;
* `finalFrom_finish`: every instance of an acyclic scope is final from its level on;
* `restsAfter_depth`: an instance is at rest after as many passes as its depth;
* **`converges_within_levels`**: after every run without a restore, an acyclic circuit settles in at
  most one pass more than its last level.
-/

namespace Breadboard

variable {catalog : Catalog} {wires : List Wire} {inputs : Pins}

/-! ## Several passes -/

/-- The instances of a scope after `n` passes. -/
def Scope.after (catalog : Catalog) (s : Scope) : Nat → List Instance
  | 0 => s.instances
  | n + 1 => (passAll catalog s.wires s.inherited (s.after catalog n)).1

/-- What the `k`-th instance sees in the pass after the `n`-th. -/
def Scope.seen (catalog : Catalog) (s : Scope) (n k : Nat) : List Instance :=
  midway (s.after catalog n) (s.after catalog (n + 1)) k

/-- An instance after `n` passes under the same inputs. -/
def Instance.after (catalog : Catalog) (inputs : Pins) (i : Instance) : Nat → Instance
  | 0 => i
  | n + 1 => ((i.after catalog inputs n).pass catalog inputs).1

/-- Any plain instance that keeps what `target` keeps is at rest after `n` passes. -/
def Instance.RestsAfter (catalog : Catalog) (target : Instance) (n : Nat) : Prop :=
  ∀ i : Instance, i.kept = target.kept → i.Throughout (Instance.Plain catalog) →
    ∀ inputs, (i.after catalog inputs n).AtRest catalog inputs

section Several

variable {s : Scope}

/-- The passes after the first one. -/
theorem after_passAll (s : Scope) (n : Nat) :
    Scope.after catalog
        ⟨(passAll catalog s.wires s.inherited s.instances).1, s.wires, s.inherited⟩ n =
      s.after catalog (n + 1) := by
  induction n with
  | zero => rfl
  | succ n ih =>
    rw [Scope.after, ih]
    rfl

theorem keptAll_after (s : Scope) (n : Nat) :
    keptAll (s.after catalog n) = keptAll s.instances := by
  induction n with
  | zero => rfl
  | succ n ih => rw [Scope.after, keptAll_passAll, ih]

theorem length_after (s : Scope) (n : Nat) :
    (s.after catalog n).length = s.instances.length :=
  length_of_blankAll (blankAll_of_keptAll (keptAll_after s n))

theorem map_id_seen (s : Scope) (n k : Nat) :
    (s.seen catalog n k).map Instance.id = s.instances.map Instance.id :=
  (map_midway (map_id_passAll (s.after catalog n)) k).trans (map_id_of_keptAll (keptAll_after s n))

/-- An instance before the `k`-th is seen as this pass left it, any other as the last one did. -/
theorem getElem?_seen {k : Nat} (hk : k ≤ s.instances.length) (n j : Nat) :
    (s.seen catalog n k)[j]? =
      if j < k then (s.after catalog (n + 1))[j]? else (s.after catalog n)[j]? :=
  getElem?_midway (by rw [length_after]; exact hk) j

theorem throughout_plain_after (h : Throughout (Instance.Plain catalog) s.instances) (n : Nat) :
    Throughout (Instance.Plain catalog) (s.after catalog n) := by
  induction n with
  | zero => exact h
  | succ n ih => exact throughout_plain_passAll ih

theorem part_after (i : Instance) (n : Nat) : (i.after catalog inputs n).part = i.part := by
  induction n with
  | zero => rfl
  | succ n ih => rw [Instance.after, pass_part, ih]

/-- Once at rest, always at rest. -/
theorem Instance.AtRest.after_add {i : Instance} {m : Nat}
    (h : (i.after catalog inputs m).AtRest catalog inputs) (n : Nat) :
    i.after catalog inputs (m + n) = i.after catalog inputs m := by
  induction n with
  | zero => rfl
  | succ n ih =>
    rw [← Nat.add_assoc, Instance.after, ih]
    exact congrArg Prod.fst h

theorem Instance.AtRest.after_of_le {i : Instance} {m n : Nat}
    (h : (i.after catalog inputs m).AtRest catalog inputs) (hmn : m ≤ n) :
    (i.after catalog inputs n).AtRest catalog inputs := by
  obtain ⟨d, rfl⟩ := Nat.exists_eq_add_of_le hmn
  rw [h.after_add d]
  exact h

end Several

/-! ## Instances that are final -/

/-- From the pass after the `t`-th on, passes over the scope leave its `k`-th instance alone and do
not tell that it changed. -/
def Scope.FinalFrom (catalog : Catalog) (s : Scope) (t k : Nat) : Prop :=
  ∀ n, t ≤ n → ∀ i, (s.after catalog n)[k]? = some i →
    i.passIn catalog s.wires s.inherited (s.seen catalog n k) = (i, false)

section Final

variable {s : Scope}

/-- A final instance stays as it is. -/
theorem Scope.FinalFrom.getElem?_eq {t k : Nat} (h : s.FinalFrom catalog t k) {n : Nat}
    (hn : t ≤ n) : (s.after catalog n)[k]? = (s.after catalog t)[k]? := by
  obtain ⟨d, rfl⟩ := Nat.exists_eq_add_of_le hn
  clear hn
  induction d with
  | zero => rfl
  | succ d ih =>
    rw [← ih, ← Nat.add_assoc, Scope.after]
    cases hk : (s.after catalog (t + d))[k]? with
    | none =>
      rw [List.getElem?_eq_none_iff] at hk ⊢
      rw [length_passAll]
      exact hk
    | some i =>
      have hpass := h (t + d) (Nat.le_add_right t d) i hk
      rw [passAll_spec hk]
      exact congrArg (fun r => some r.1) hpass

/-- A scope is at rest as soon as all its instances are final. -/
theorem atRest_of_finalFrom {n : Nat} (h : ∀ k < s.instances.length, s.FinalFrom catalog n k) :
    Scope.AtRest catalog ⟨s.after catalog n, s.wires, s.inherited⟩ := by
  refine Prod.ext ?_ (quiet_iff.2 fun k i hk => ?_)
  · refine List.ext_getElem? fun k => ?_
    change (s.after catalog (n + 1))[k]? = (s.after catalog n)[k]?
    by_cases hk : k < s.instances.length
    · exact (h k hk).getElem?_eq (Nat.le_succ n)
    · rw [List.getElem?_eq_none, List.getElem?_eq_none] <;> rw [length_after] <;> omega
  · have hlt := (List.getElem?_eq_some_iff.1 hk).1
    rw [length_after] at hlt
    exact congrArg Prod.snd (h k hlt n (Nat.le_refl n) i hk)

/-! ## Instances are final from their level on -/

/-- What an instance sees keeps what the scope keeps, and is plain. -/
theorem kept_seen {n k : Nat} (hk : k ≤ s.instances.length)
    (hplain : Throughout (Instance.Plain catalog) s.instances) {j : Nat} {source i : Instance}
    (hsource : s.instances[j]? = some source) (hi : (s.seen catalog n k)[j]? = some i) :
    i.kept = source.kept ∧ i.Plain catalog := by
  have hboth : ∀ m, (s.after catalog m)[j]? = some i →
      i.kept = source.kept ∧ i.Plain catalog := by
    intro m hm
    have hthrough := throughout_iff.1 (throughout_plain_after hplain m) i (List.mem_of_getElem? hm)
    exact ⟨kept_of_keptAll (keptAll_after s m) hm hsource, hthrough.1⟩
  rw [getElem?_seen hk] at hi
  split at hi
  · exact hboth (n + 1) hi
  · exact hboth n hi

/-- **The inputs of an instance no longer change** once all that feed it are final. -/
theorem resolveInputs_of_final {t k : Nat} {target : Instance}
    (hplain : Throughout (Instance.Plain catalog) s.instances)
    (hk : s.instances[k]? = some target)
    (hfinal : ∀ j, s.Feeds j k → s.FinalFrom catalog t j) {n : Nat} (hn : t ≤ n) :
    resolveInputs catalog (s.seen catalog n k) s.wires s.inherited target.part =
      resolveInputs catalog (s.seen catalog t k) s.wires s.inherited target.part := by
  have hle : k ≤ s.instances.length := Nat.le_of_lt (List.getElem?_eq_some_iff.1 hk).1
  refine resolveInputs_congr rfl fun wire hwire htarget => ?_
  refine Wire.read_congr ((map_id_seen s n k).trans (map_id_seen s t k).symm) (fun _ => rfl)
    fun j a b hj ha hb => ?_
  rw [seat?_congr (map_id_seen s n k)] at hj
  obtain ⟨source, hsource, -⟩ := seat?_spec hj
  obtain ⟨hkept, hplaina⟩ := kept_seen hle hplain hsource ha
  obtain ⟨hkept', hplainb⟩ := kept_seen hle hplain hsource hb
  by_cases hstored : source.isStored = true
  · -- a switch or a flip-flop: no pass changes its outputs
    rw [← isStored_of_blank (blank_of_kept hkept)] at hstored
    exact hplaina.read_congr hplainb hstored (hkept.trans hkept'.symm) wire.sourcePin
  · -- all others are final
    rw [Bool.not_eq_true] at hstored
    have hj' := hfinal j ⟨source, target, wire, hsource, hk, hwire, hj, htarget, hstored⟩
    have hsame : ∀ m, t ≤ m → (s.seen catalog m k)[j]? = (s.after catalog t)[j]? := by
      intro m hm
      rw [getElem?_seen hle]
      split
      · exact hj'.getElem?_eq (Nat.le_succ_of_le hm)
      · exact hj'.getElem?_eq hm
    rw [hsame n hn] at ha
    rw [hsame t (Nat.le_refl t), ha] at hb
    cases hb
    rfl

/-- **One instance more is final**: its depth after the last of those that feed it. -/
theorem finalFrom_of_feeds {t k depth : Nat} {target : Instance}
    (hplain : Throughout (Instance.Plain catalog) s.instances)
    (hk : s.instances[k]? = some target)
    (hfinal : ∀ j, s.Feeds j k → s.FinalFrom catalog t j)
    (hrest : target.RestsAfter catalog depth) :
    s.FinalFrom catalog (t + depth) k := by
  have hkeptAll : keptAll (s.after catalog t) = keptAll s.instances := keptAll_after s t
  obtain ⟨start, hstart, hkept⟩ := getElem?_of_keptAll hkeptAll.symm hk
  have hstartplain := throughout_iff.1 (throughout_plain_after hplain t) start
    (List.mem_of_getElem? hstart)
  generalize hr : resolveInputs catalog (s.seen catalog t k) s.wires s.inherited target.part = r
  have hinputs : ∀ n, t ≤ n → ∀ i : Instance, i.part = target.part →
      i.passIn catalog s.wires s.inherited (s.seen catalog n k) = i.pass catalog r := by
    intro n hn i hpart
    unfold Instance.passIn
    rw [hpart, resolveInputs_of_final hplain hk hfinal hn, hr]
  have hpart : ∀ m, (start.after catalog r m).part = target.part := by
    intro m
    rw [part_after, ← kept_part start, hkept, kept_part]
  -- from the pass `t` on, the instance makes its passes under the inputs `r`
  have hpasses : ∀ m, (s.after catalog (t + m))[k]? = some (start.after catalog r m) := by
    intro m
    induction m with
    | zero => exact hstart
    | succ m ih =>
      have hpass := hinputs (t + m) (Nat.le_add_right t m) _ (hpart m)
      unfold Scope.seen at hpass
      rw [Scope.after] at hpass
      rw [← Nat.add_assoc, Scope.after, passAll_spec ih, hpass]
      rfl
  intro n hn i hi
  obtain ⟨m, rfl⟩ := Nat.exists_eq_add_of_le (Nat.le_trans (Nat.le_add_right t depth) hn)
  rw [hpasses m] at hi
  cases hi
  rw [hinputs (t + m) (Nat.le_add_right t m) _ (hpart m)]
  exact (hrest start hkept hstartplain r).after_of_le (by omega)

/-- **Every instance of an acyclic scope is final from its level on.** -/
theorem finalFrom_finish (hacyclic : s.Acyclic)
    (hplain : Throughout (Instance.Plain catalog) s.instances)
    (hrest : ∀ target ∈ s.instances, target.RestsAfter catalog target.depth) (k : Nat) :
    k < s.instances.length → s.FinalFrom catalog (s.finish k) k := by
  induction k using (acyclic_iff_wellFounded.1 hacyclic).induction with
  | h k ih =>
    intro hlt
    have hk : s.instances[k]? = some s.instances[k] := List.getElem?_eq_getElem hlt
    have hstart : ∀ j, s.Feeds j k → s.FinalFrom catalog
        (highest ((drivers s.instances s.wires k).map s.finish)) j := by
      intro j hj n hn
      refine ih j hj hj.lt.1 n (Nat.le_trans (le_highest ?_) hn)
      exact List.mem_map.2 ⟨j, mem_drivers.2 hj, rfl⟩
    rw [hacyclic.finish_eq hk, Nat.add_comm]
    exact finalFrom_of_feeds hplain hk hstart (hrest _ (List.getElem_mem hlt))

/-- An acyclic scope is at rest after as many passes as its last level. -/
theorem atRest_of_latest_le (hacyclic : s.Acyclic)
    (hplain : Throughout (Instance.Plain catalog) s.instances)
    (hrest : ∀ target ∈ s.instances, target.RestsAfter catalog target.depth) {n : Nat}
    (hn : s.latest ≤ n) :
    Scope.AtRest catalog ⟨s.after catalog n, s.wires, s.inherited⟩ := by
  refine atRest_of_finalFrom fun k hk m hm => ?_
  have hlevel := Nat.le_trans (Scope.finish_le_latest hk) hn
  exact finalFrom_finish hacyclic hplain hrest k hk m (Nat.le_trans hlevel hm)

end Final

/-! ## Instances are at rest after their depth -/

/-- What was published is there. -/
theorem published_publish (pinMap : PinMap) (parts : List Instance) (s : Signals) :
    (∀ e ∈ pinMap.outputs.entries,
      (s.publish pinMap parts).outputs.get? e.1 = some (e.2.read parts)) ∧
      ∀ id, pinMap.main = some id → (s.publish pinMap parts).value = mainOutput parts id := by
  constructor
  · rintro ⟨pin, tap⟩ he
    rw [Signals.get?_publish, NameMap.get?_eq_some_iff.2 he]
    rfl
  · intro id hmain
    simp [Signals.publish, hmain]

/-- **A composite under the same inputs** makes one pass inside for each of its own: its parts see
inputs that do not change from the first pass on. -/
theorem after_composite (part : Part) (expanded : Bool) {s : Signals} {inside : Scope}
    (h : (s.receive inputs).inputs = inside.inherited) (n : Nat) :
    ∃ s' : Signals, Instance.after catalog inputs
        ⟨part, expanded, s, .composite inside.instances inside.wires⟩ (n + 1) =
      ⟨part, expanded,
        s'.publish (catalog.pinMapOf part.chip) (inside.after catalog (n + 1)),
        .composite (inside.after catalog (n + 1)) inside.wires⟩ ∧
      s'.inputs = inside.inherited := by
  induction n with
  | zero =>
    refine ⟨s.receive inputs, ?_, h⟩
    change (Instance.pass catalog inputs
      ⟨part, expanded, s, .composite inside.instances inside.wires⟩).1 = _
    rw [pass_composite, h]
    rfl
  | succ n ih =>
    obtain ⟨s', hs', hinputs⟩ := ih
    let shown := s'.publish (catalog.pinMapOf part.chip) (inside.after catalog (n + 1))
    -- the inputs are there already, so nothing new is received
    have hshown : shown.inputs = inside.inherited := hinputs
    have hag : shown.inputs.agree inputs = true := by
      rw [hshown, ← h]
      exact s.agree_receive inputs
    refine ⟨shown, ?_, hshown⟩
    rw [Instance.after, hs', pass_composite, Signals.receive_of_agree hag, hshown]
    rfl

/-- A composite is at rest as soon as its parts are, under the inputs it has received. -/
theorem atRest_after_composite (part : Part) (expanded : Bool) {s : Signals} {inside : Scope}
    (h : (s.receive inputs).inputs = inside.inherited) {n : Nat}
    (hscope : Scope.AtRest catalog
      ⟨inside.after catalog (n + 1), inside.wires, inside.inherited⟩) :
    (Instance.after catalog inputs
      ⟨part, expanded, s, .composite inside.instances inside.wires⟩ (n + 1)).AtRest
        catalog inputs := by
  obtain ⟨s', hs', hinputs⟩ := after_composite part expanded h n
  obtain ⟨hpublished, hmain⟩ := published_publish (catalog.pinMapOf part.chip)
    (inside.after catalog (n + 1)) s'
  rw [hs']
  refine atRest_composite.2 ⟨?_, ?_, hpublished, hmain⟩
  · change s'.inputs.agree inputs = true
    rw [hinputs, ← h]
    exact s.agree_receive inputs
  · change Scope.AtRest catalog ⟨inside.after catalog (n + 1), inside.wires, s'.inputs⟩
    rw [hinputs]
    exact hscope

/-- **An instance is at rest after as many passes as its depth**, whatever its state was before. -/
theorem restsAfter_depth (target : Instance) : target.AcyclicInside →
    target.RestsAfter catalog target.depth := by
  induction target using Instance.induct with
  | leaf target hleaf =>
    intro _ i hkept _ inputs
    rw [depth_leaf hleaf]
    exact atRest_pass_leaf (isComposite_of_blank (blank_of_kept hkept) ▸ hleaf) inputs
  | composite part expanded s₀ parts₀ inner ih =>
    intro hacyclic i hkept hplain inputs
    obtain ⟨s, parts, rfl, hparts⟩ := kept_eq_composite hkept
    rw [Instance.throughout_composite] at hplain
    have hinside := hacyclic parts₀ inner rfl
    have hblank := blankAll_of_keptAll hparts
    let inside : Scope := ⟨parts, inner, (s.receive inputs).inputs⟩
    have hinside' : inside.AcyclicInside := hinside.of_blankAll hblank.symm rfl
    have hlatest : inside.latest = Scope.latest ⟨parts₀, inner, s₀.inputs⟩ :=
      latest_of_blankAll hblank rfl
    have hrest : ∀ p ∈ inside.instances, p.RestsAfter catalog p.depth := by
      intro p hp i hi
      obtain ⟨k, hk⟩ := List.mem_iff_getElem?.1 hp
      obtain ⟨p₀, hk₀, hp₀⟩ := getElem?_of_keptAll hparts hk
      rw [← depth_of_blank p₀ p (blank_of_kept hp₀)]
      have hmem := List.mem_of_getElem? hk₀
      exact ih p₀ hmem (hinside.instance hmem) i (hi.trans hp₀.symm)
    obtain ⟨n, hn⟩ : ∃ n, max 1 inside.latest = n + 1 :=
      Nat.exists_eq_succ_of_ne_zero (by omega)
    rw [depth_composite, ← hlatest, hn]
    have hscope := atRest_of_latest_le (hinside' inside (.refl inside)) hplain.2 hrest
      (n := n + 1) (by omega)
    have hreceived : (s.receive inputs).inputs = inside.inherited := rfl
    exact atRest_after_composite part expanded hreceived hscope

/-- **An acyclic scope is at rest after as many passes as its last level.** -/
theorem Scope.AcyclicInside.atRest_after {s : Scope} (h : s.AcyclicInside)
    (hplain : Throughout (Instance.Plain catalog) s.instances) {n : Nat} (hn : s.latest ≤ n) :
    Scope.AtRest catalog ⟨s.after catalog n, s.wires, s.inherited⟩ :=
  atRest_of_latest_le (h s (.refl s)) hplain
    (fun target ht => restsAfter_depth target (h.instance ht)) hn

/-! ## Settling -/

/-- A settling ends with the first pass that changes nothing. -/
theorem settleFrom_of_after (d : Nat) : ∀ (done n : Nat) (scope : List Instance), d ≤ n →
    (passAll catalog wires ∅ (Scope.after catalog ⟨scope, wires, ∅⟩ d)).2 = false →
      (settleFrom catalog wires done n scope).2.converged = true ∧
        (settleFrom catalog wires done n scope).2.passes ≤ done + d + 1 := by
  induction d with
  | zero =>
    intro done n scope _ h
    have hquiet : (passAll catalog wires ∅ scope).2 = false := h
    rw [settleFrom_of_quiet done n hquiet]
    exact ⟨rfl, Nat.le_refl _⟩
  | succ d ih =>
    intro done n scope hdn h
    obtain ⟨n, rfl⟩ : ∃ m, n = m + 1 := Nat.exists_eq_succ_of_ne_zero (by omega)
    cases hq : (passAll catalog wires ∅ scope).2 with
    | false =>
      rw [settleFrom_of_quiet done _ hq]
      exact ⟨rfl, Nat.add_le_add_right (Nat.le_add_right done (d + 1)) 1⟩
    | true =>
      rw [settleFrom_of_busy done n hq]
      rw [← after_passAll] at h
      obtain ⟨hconverged, hpasses⟩ := ih (done + 1) n _ (by omega) h
      exact ⟨hconverged, Nat.le_trans hpasses (by omega)⟩

/-- **An acyclic circuit settles in at most one pass more than its last level.** -/
theorem settle_of_acyclic {scope : List Instance} {limit : Nat}
    (h : Scope.AcyclicInside ⟨scope, wires, ∅⟩)
    (hplain : Throughout (Instance.Plain catalog) scope)
    (hlimit : Scope.latest ⟨scope, wires, ∅⟩ + 1 ≤ limit) :
    (settle catalog wires limit scope).2.converged = true ∧
      (settle catalog wires limit scope).2.passes ≤ Scope.latest ⟨scope, wires, ∅⟩ + 1 := by
  have hrest := h.atRest_after hplain (Nat.le_refl _)
  have hsettle := settleFrom_of_after (Scope.latest ⟨scope, wires, ∅⟩) 0 (limit - 1) scope
    (by omega) (congrArg Prod.snd hrest)
  rwa [Nat.zero_add] at hsettle

/-- **After every run without a restore** an acyclic circuit settles within its levels. -/
theorem converges_within_levels (catalog : Catalog) (options : SimOptions)
    (commands : List Command) (limit : Nat)
    (hc : ∀ c ∈ commands, c.restores = false)
    (hwf : ∀ s, ((Simulator.new catalog options).run commands).top.Holds s → WellFounded s.Feeds)
    (hlimit : ((Simulator.new catalog options).run commands).top.latest + 1 ≤ limit) :
    (settle catalog ((Simulator.new catalog options).run commands).wires limit
      ((Simulator.new catalog options).run commands).instances).2.converged = true ∧
    (settle catalog ((Simulator.new catalog options).run commands).wires limit
      ((Simulator.new catalog options).run commands).instances).2.passes ≤
        ((Simulator.new catalog options).run commands).top.latest + 1 := by
  have hnew : Throughout (Instance.Plain catalog) (Simulator.new catalog options).instances :=
    throughout_nil
  have hplain := (lasting_plain catalog).run hc hnew
  exact settle_of_acyclic (fun s hs => acyclic_iff_wellFounded.2 (hwf s hs)) hplain hlimit

/-- An exclusive or made of gates has two levels, so three passes are enough. -/
theorem converges_within_three_passes :
    ((Simulator.new Standard.catalog {}).run
      [.assembleProgram switchedXor, .toggle "a"]).top.latest = 2 ∧
    (settle Standard.catalog ((Simulator.new Standard.catalog {}).run
        [.assembleProgram switchedXor, .toggle "a"]).wires 3
      ((Simulator.new Standard.catalog {}).run
        [.assembleProgram switchedXor, .toggle "a"]).instances).2.converged = true := by
  have hlatest : ((Simulator.new Standard.catalog {}).run
      [.assembleProgram switchedXor, .toggle "a"]).top.latest = 2 := by decide +kernel
  have hforward : ((Simulator.new Standard.catalog {}).run
      [.assembleProgram switchedXor, .toggle "a"]).top.listedForward = true := by decide +kernel
  refine ⟨hlatest, (converges_within_levels _ _ _ 3 ?_ ?_ ?_).1⟩
  · decide
  · exact fun s hs => acyclic_iff_wellFounded.1 (acyclicInside_of_listedForward hforward s hs)
  · rw [hlatest]

end Breadboard
