import Breadboard.Proofs.Stored

/-!
# What a restore recomputes

Two snapshots of one outline differ in bits, inputs and outputs only. If their records have the same
bits wherever they are laid over a switch or a flip-flop, then a restore should compute all the rest
anew and end in the same circuit. It does, but for the residue of composites: outputs that the pin
map does not name, and the main output if the pin map names no main part, stay as they were saved.

* `InstanceSnapshot.outline`: a record without its bits;
* `sameMeeting_of_outline`: records of one outline are laid over instances of one shape;
* `corresponds_overlay`, `corresponds_restored`: what these meetings decide of both circuits;
* `sameSource_overlay`, `sameResidue_overlay`: sources and residue, record by record;
* **`restore_recomputes_iff`**: two clean restores end in the same state iff what is laid out has
  the same residue;
* `composites_survive`: saved bits of composites that survive a restore.
-/

namespace Breadboard

variable {catalog : Catalog}

/-! ## Records of one outline -/

mutual

/-- The record without its bits, but for the next value. -/
def InstanceSnapshot.outline : InstanceSnapshot → InstanceSnapshot
  | ⟨part, expanded, signals, parts⟩ =>
    ⟨part, expanded, { next := signals.next }, outlineAll parts⟩

/-- The records without their bits, but for the next values. -/
def outlineAll : List InstanceSnapshot → List InstanceSnapshot
  | [] => []
  | r :: rest => r.outline :: outlineAll rest

end

/-- What records of one outline have in common. -/
theorem outline_eq {r r' : InstanceSnapshot} (h : r.outline = r'.outline) :
    r.part = r'.part ∧ r.expanded = r'.expanded ∧ r.signals.next = r'.signals.next ∧
      outlineAll r.parts = outlineAll r'.parts := by
  obtain ⟨part, expanded, s, parts⟩ := r
  obtain ⟨part', expanded', s', parts'⟩ := r'
  rw [InstanceSnapshot.outline, InstanceSnapshot.outline] at h
  simp only [InstanceSnapshot.mk.injEq, Signals.mk.injEq] at h
  exact ⟨h.1, h.2.1, h.2.2.1.2.1, h.2.2.2⟩

theorem outlineAll_eq_nil {saved : List InstanceSnapshot} (h : outlineAll [] = outlineAll saved) :
    saved = [] := by
  cases saved with
  | nil => rfl
  | cons r rest => simp [outlineAll] at h

theorem outlineAll_eq_cons {r : InstanceSnapshot} {rest saved : List InstanceSnapshot}
    (h : outlineAll (r :: rest) = outlineAll saved) :
    ∃ r' rest', saved = r' :: rest' ∧ r.outline = r'.outline ∧
      outlineAll rest = outlineAll rest' := by
  cases saved with
  | nil => simp [outlineAll] at h
  | cons r' rest' =>
    rw [outlineAll, outlineAll, List.cons.injEq] at h
    exact ⟨r', rest', rfl, h.1, h.2⟩

/-! ## Meetings of records of one outline -/

/-- Records of one outline are laid over instances of one shape. -/
def SameMeeting (m m' : InstanceSnapshot × Instance) : Prop :=
  m.1.outline = m'.1.outline ∧ m.2.blank = m'.2.blank

/-- What records meet at the first parts of an id. -/
theorem forall₂_found {r r' : InstanceSnapshot} {parts parts' : List Instance}
    (h : ∀ i j : Instance, i.blank = j.blank →
      List.Forall₂ SameMeeting (r.meetings i) (r'.meetings j))
    (hblank : blankAll parts = blankAll parts') (id : String) :
    List.Forall₂ SameMeeting ((findInstance? parts id).elim [] fun i => r.meetings i)
      ((findInstance? parts' id).elim [] fun j => r'.meetings j) := by
  have hfind := findInstance?_rel (map_id_of_blankAll hblank) (getElem?_rel_of_blankAll hblank) id
  generalize findInstance? parts id = found, findInstance? parts' id = found' at hfind
  cases hfind with
  | none => exact .nil
  | some hij => exact h _ _ hij

theorem forall₂_meetingsAll_of {saved : List InstanceSnapshot}
    (h : ∀ r ∈ saved, ∀ (r' : InstanceSnapshot) (i j : Instance), r.outline = r'.outline →
      i.blank = j.blank → List.Forall₂ SameMeeting (r.meetings i) (r'.meetings j)) :
    ∀ (saved' : List InstanceSnapshot) (parts parts' : List Instance),
      outlineAll saved = outlineAll saved' → blankAll parts = blankAll parts' →
        List.Forall₂ SameMeeting (meetingsAll saved parts) (meetingsAll saved' parts') := by
  induction saved with
  | nil =>
    intro saved' parts parts' houtline _
    obtain rfl := outlineAll_eq_nil houtline
    rw [meetingsAll, meetingsAll]
    exact .nil
  | cons r rest ih =>
    intro saved' parts parts' houtline hblank
    obtain ⟨r', rest', rfl, hr, hrest⟩ := outlineAll_eq_cons houtline
    have hid : r.part.id = r'.part.id := congrArg Part.id (outline_eq hr).1
    rw [meetingsAll, meetingsAll, ← hid]
    -- what the first record meets, and then the others, over parts that have kept their shapes
    refine List.rel_append ?_ ?_
    · exact forall₂_found (fun i j hij => h r List.mem_cons_self r' i j hr hij) hblank r.part.id
    · refine ih (fun q hq => h q (List.mem_cons_of_mem r hq)) rest' _ _ hrest ?_
      rw [blankAll_updateInstance (blank_overlay r), blankAll_updateInstance (blank_overlay r'),
        hblank]

/-- **Records of one outline meet the same**, one by one. -/
theorem forall₂_meetings (r : InstanceSnapshot) : ∀ (r' : InstanceSnapshot) (i j : Instance),
    r.outline = r'.outline → i.blank = j.blank →
      List.Forall₂ SameMeeting (r.meetings i) (r'.meetings j) := by
  induction r using InstanceSnapshot.induct with
  | record part expanded s saved ih =>
    intro r' i j hr hblank
    by_cases hleaf : i.isComposite = false
    · rw [meetings_leaf hleaf, meetings_leaf (isComposite_of_blank hblank ▸ hleaf)]
      exact .cons ⟨hr, hblank⟩ .nil
    · obtain ⟨part', expanded', s', body⟩ := i
      cases body with
      | unknown | primitive => exact absurd rfl hleaf
      | composite parts inner =>
        obtain ⟨expanded'', s'', parts', rfl, hparts⟩ := blank_eq_composite hblank.symm
        rw [meetings_composite, meetings_composite]
        refine .cons ⟨hr, hblank⟩ ?_
        exact forall₂_meetingsAll_of ih r'.parts parts parts' (outline_eq hr).2.2.2 hparts.symm

/-- **Snapshots of one outline meet the same**, one by one. -/
theorem sameMeeting_of_outline {saved saved' : Snapshot}
    (h : outlineAll saved.instances = outlineAll saved'.instances) :
    ∀ m ∈ (saved.meetings catalog).zip (saved'.meetings catalog), SameMeeting m.1 m.2 := by
  have hrecords : ∀ l l' : List InstanceSnapshot, outlineAll l = outlineAll l' →
      List.Forall₂ (fun r r' => r.outline = r'.outline) l l' := by
    intro l
    induction l with
    | nil =>
      intro l' hl
      obtain rfl := outlineAll_eq_nil hl
      exact .nil
    | cons r rest ih =>
      intro l' hl
      obtain ⟨r', rest', rfl, hr, hrest⟩ := outlineAll_eq_cons hl
      exact .cons hr (ih rest' hrest)
  have hall : List.Forall₂ SameMeeting (saved.meetings catalog) (saved'.meetings catalog) := by
    refine List.rel_flatMap (hrecords _ _ h) fun r r' hr => ?_
    refine forall₂_meetings r r' _ _ hr ?_
    rw [(outline_eq hr).1]
  exact fun m hm => (List.forall₂_iff_zip.1 hall).2 hm

/-! ## Two records laid over two instances -/

section Corresponds

variable {R : Instance → Instance → Prop}

/-- `R` holds, pair by pair, of what the records in two lists of meetings make of the instances. -/
def Yield (R : Instance → Instance → Prop) (l l' : List (InstanceSnapshot × Instance)) : Prop :=
  ∀ p ∈ l.zip l', R (p.1.1.overlay p.1.2) (p.2.1.overlay p.2.2)

theorem yield_append {l l' rest rest' : List (InstanceSnapshot × Instance)}
    (hlength : l.length = l'.length) (h : Yield R (l ++ rest) (l' ++ rest')) :
    Yield R l l' ∧ Yield R rest rest' := by
  unfold Yield at h
  rw [List.zip_append hlength] at h
  exact ⟨fun p hp => h p (List.mem_append_left _ hp), fun p hp => h p (List.mem_append_right _ hp)⟩

theorem corresponds_overlayAll_of {saved : List InstanceSnapshot}
    (h : ∀ r ∈ saved, ∀ (r' : InstanceSnapshot) (i j : Instance), r.outline = r'.outline →
      i.blank = j.blank → i.Corresponds R j → Yield R (r.meetings i) (r'.meetings j) →
        (r.overlay i).Corresponds R (r'.overlay j)) :
    ∀ (saved' : List InstanceSnapshot) (parts parts' : List Instance),
      outlineAll saved = outlineAll saved' → blankAll parts = blankAll parts' →
        (∀ k : Nat, Option.Rel (Instance.Corresponds R) (parts[k]?) (parts'[k]?)) →
          Yield R (meetingsAll saved parts) (meetingsAll saved' parts') →
            ∀ k : Nat, Option.Rel (Instance.Corresponds R)
              ((overlayAll saved parts)[k]?) ((overlayAll saved' parts')[k]?) := by
  induction saved with
  | nil =>
    intro saved' parts parts' houtline _ hparts _
    obtain rfl := outlineAll_eq_nil houtline
    rw [overlayAll, overlayAll]
    exact hparts
  | cons r rest ih =>
    intro saved' parts parts' houtline hblank hparts hyield
    obtain ⟨r', rest', rfl, hr, hrest⟩ := outlineAll_eq_cons houtline
    have hid : r.part.id = r'.part.id := congrArg Part.id (outline_eq hr).1
    have hids := map_id_of_blankAll hblank
    have hfound := forall₂_found (fun i j hij => forall₂_meetings r r' i j hr hij) hblank r.part.id
    rw [meetingsAll, meetingsAll, ← hid] at hyield
    obtain ⟨hown, hothers⟩ := yield_append hfound.length_eq hyield
    rw [overlayAll, overlayAll, ← hid]
    refine ih (fun q hq => h q (List.mem_cons_of_mem r hq)) rest' _ _ hrest ?_ ?_ hothers
    · rw [blankAll_updateInstance (blank_overlay r), blankAll_updateInstance (blank_overlay r'),
        hblank]
    · have hfind := findInstance?_rel hids (getElem?_rel_of_blankAll hblank) r.part.id
      refine getElem?_updateInstance_rel hids hparts fun i j hi hj hij => ?_
      rw [hi, hj] at hown
      exact h r List.mem_cons_self r' i j hr (rel_some hfind hi hj) hij hown

/-- **What corresponds in two instances**, and in whatever records of one outline make of the
instances that they are laid over, corresponds in what comes of it. -/
theorem corresponds_overlay (r : InstanceSnapshot) : ∀ (r' : InstanceSnapshot) (i j : Instance),
    r.outline = r'.outline → i.blank = j.blank → i.Corresponds R j →
      Yield R (r.meetings i) (r'.meetings j) → (r.overlay i).Corresponds R (r'.overlay j) := by
  induction r using InstanceSnapshot.induct with
  | record part expanded s saved ih =>
    intro r' i j hr hblank hij hyield
    by_cases hleaf : i.isComposite = false
    · have hleaf' : j.isComposite = false := isComposite_of_blank hblank ▸ hleaf
      rw [meetings_leaf hleaf, meetings_leaf hleaf'] at hyield
      refine ⟨hyield _ (List.mem_singleton_self _), ?_⟩
      rw [inside?_leaf ((isComposite_of_blank (blank_overlay _ i)).trans hleaf),
        inside?_leaf ((isComposite_of_blank (blank_overlay _ j)).trans hleaf')]
      exact .none
    · obtain ⟨part', expanded', s', body⟩ := i
      cases body with
      | unknown | primitive => exact absurd rfl hleaf
      | composite parts inner =>
        obtain ⟨expanded'', s'', parts', rfl, hparts⟩ := blank_eq_composite hblank.symm
        rw [meetings_composite, meetings_composite] at hyield
        have hown := hyield _ List.mem_cons_self
        have hinside :
            Scope.Corresponds R ⟨parts, inner, s'.inputs⟩ ⟨parts', inner, s''.inputs⟩ := by
          cases hij.2 with
          | some hinside => exact hinside
        have hall := corresponds_overlayAll_of ih r'.parts parts parts' (outline_eq hr).2.2.2
          hparts.symm (Scope.corresponds_iff.1 hinside)
          fun p hp => hyield p (List.mem_cons_of_mem _ hp)
        rw [overlay_composite, overlay_composite] at hown ⊢
        exact ⟨hown, .some (Scope.corresponds_iff.2 hall)⟩

/-- What corresponds in whatever the records of two snapshots make of the instances that they are
laid over, corresponds in the restored circuits. -/
theorem corresponds_restored (hR : ∀ i, R i i) {saved saved' : Snapshot}
    (houtline : outlineAll saved.instances = outlineAll saved'.instances)
    (hyield : Yield R (saved.meetings catalog) (saved'.meetings catalog)) :
    (saved.netlist catalog).top.Corresponds R (saved'.netlist catalog).top := by
  obtain ⟨clock, instances, wires⟩ := saved
  obtain ⟨clock', instances', wires'⟩ := saved'
  refine Scope.corresponds_iff.2 ?_
  unfold Snapshot.meetings at hyield
  change ∀ k : Nat, Option.Rel (Instance.Corresponds R)
    ((instances.map (InstanceSnapshot.restore catalog))[k]?)
    ((instances'.map (InstanceSnapshot.restore catalog))[k]?)
  simp only at houtline hyield
  induction instances generalizing instances' with
  | nil =>
    obtain rfl := outlineAll_eq_nil houtline
    exact fun k => .none
  | cons r rest ih =>
    obtain ⟨r', rest', rfl, hr, hrest⟩ := outlineAll_eq_cons houtline
    have hpart := (outline_eq hr).1
    have hblank :
        (Instance.fresh catalog r.part).blank = (Instance.fresh catalog r'.part).blank := by
      rw [hpart]
    have hlength := (forall₂_meetings r r' _ _ hr hblank).length_eq
    rw [List.flatMap_cons, List.flatMap_cons] at hyield
    obtain ⟨hown, hothers⟩ := yield_append hlength hyield
    intro k
    cases k with
    | zero =>
      refine .some (corresponds_overlay r r' _ _ hr hblank ?_ hown)
      rw [hpart]
      exact ⟨hR _, rel_refl (Scope.Corresponds.refl hR) _⟩
    | succ k => exact ih rest' hrest hothers k

end Corresponds

/-! ## What is held -/

/-- Priming is a matter of the bit and the outputs as functions. -/
theorem Signals.get?_primed_congr {s s' : Signals} (hvalue : s.value = s'.value)
    (houtputs : ∀ pin, s.outputs.get? pin = s'.outputs.get? pin) (pin : String) :
    s.primed.outputs.get? pin = s'.primed.outputs.get? pin := by
  have hempty : s.outputs.isEmpty = s'.outputs.isEmpty := by
    rw [Bool.eq_iff_iff, NameMap.isEmpty_iff, NameMap.isEmpty_iff]
    exact forall_congr' fun pin => by rw [houtputs]
  unfold primed
  rw [← hempty]
  split
  · rw [drive_outputs, drive_outputs, hvalue]
  · exact houtputs pin

/-- **Records of one outline lay out the same sources**, if they have the same bits wherever they
are laid over a switch or a flip-flop. -/
theorem sameSource_overlay {m m' : InstanceSnapshot × Instance} (h : SameMeeting m m')
    (hstored : m.2.isStored = true → m.1.signals.value = m'.1.signals.value ∧
      ∀ pin, m.1.signals.outputs.get? pin = m'.1.signals.outputs.get? pin) :
    (m.1.overlay m.2).SameSource (m'.1.overlay m'.2) := by
  obtain ⟨r, part, expanded, s, body⟩ := m
  obtain ⟨r', j⟩ := m'
  obtain ⟨houtline, hblank⟩ := h
  obtain ⟨-, hexpanded, hnext, -⟩ := outline_eq houtline
  simp only at hexpanded hnext hblank hstored ⊢
  cases body with
  | unknown =>
    obtain ⟨expanded', s', rfl⟩ := blank_eq_unknown hblank.symm
    rw [overlay_unknown, overlay_unknown]
    exact .of_computed rfl rfl hexpanded rfl hnext
  | composite parts inner =>
    obtain ⟨expanded', s', parts', rfl, -⟩ := blank_eq_composite hblank.symm
    rw [overlay_composite, overlay_composite]
    exact .of_computed rfl rfl hexpanded rfl hnext
  | primitive kind =>
    obtain ⟨expanded', s', rfl⟩ := blank_eq_primitive hblank.symm
    rw [overlay_primitive, overlay_primitive]
    change Instance.SameSource ⟨part, r.expanded, r.signals.primed, .primitive kind⟩
      ⟨part, r'.expanded, r'.signals.primed, .primitive kind⟩
    refine ⟨rfl, hexpanded, rfl, fun _ => ?_, fun hs => ?_, fun hf pin => ?_⟩
    · simpa [Instance.next] using hnext
    · simpa [Instance.value] using (hstored hs).1
    · obtain ⟨hvalue, houtputs⟩ := hstored (isStored_of_isFlipFlop hf)
      exact Signals.get?_primed_congr hvalue houtputs pin

/-- Records that are laid over a composite leave the same in what its pin map does not name. -/
def InstanceSnapshot.SameResidue (catalog : Catalog) (chip : String)
    (r r' : InstanceSnapshot) : Prop :=
  ((catalog.pinMapOf chip).main = none → r.signals.value = r'.signals.value) ∧
    ∀ pin, (catalog.pinMapOf chip).outputs.get? pin = none →
      r.signals.outputs.get? pin = r'.signals.outputs.get? pin

theorem sameResidue_overlay {m m' : InstanceSnapshot × Instance} (h : SameMeeting m m')
    (hresidue : m.2.isComposite = true → m.1.SameResidue catalog m.2.chip m'.1) :
    (m.1.overlay m.2).SameResidue catalog (m'.1.overlay m'.2) := by
  obtain ⟨r, part, expanded, s, body⟩ := m
  obtain ⟨r', j⟩ := m'
  obtain ⟨-, hblank⟩ := h
  simp only at hblank hresidue ⊢
  cases body with
  | unknown =>
    rw [overlay_unknown]
    exact .of_leaf rfl
  | primitive kind =>
    rw [overlay_primitive]
    exact .of_leaf rfl
  | composite parts inner =>
    obtain ⟨expanded', s', parts', rfl, -⟩ := blank_eq_composite hblank.symm
    rw [overlay_composite, overlay_composite]
    exact ⟨fun _ => (hresidue rfl).1, fun _ => (hresidue rfl).2⟩

/-- Instances that agree hold the same. -/
theorem sameHeld_of_agree {i j : Instance} (h : i.agree j = true) : i.SameHeld catalog j := by
  obtain ⟨hpart, hexpanded, hbody, hsignals⟩ := Instance.agree_spec h
  obtain ⟨hvalue, hnext, -, houtputs⟩ := Signals.agree_iff.1 hsignals
  exact ⟨⟨hpart, hexpanded, hbody, fun _ => hnext, fun _ => hvalue, fun _ => houtputs⟩,
    fun _ _ => hvalue, fun _ pin _ => houtputs pin⟩

/-! ## Restoring -/

/-- The snapshots have one clock, the same wires and the same records but for what a pass computes:
bits, inputs and outputs may differ, except for the bit and the outputs of a record that is laid
over a switch or a flip-flop. -/
structure Snapshot.SameButComputed (catalog : Catalog) (saved saved' : Snapshot) : Prop where
  clock : saved.clock = saved'.clock
  wires : saved.wires = saved'.wires
  outline : outlineAll saved.instances = outlineAll saved'.instances
  stored : ∀ m ∈ (saved.meetings catalog).zip (saved'.meetings catalog), m.1.2.isStored = true →
    m.1.1.signals.value = m.2.1.signals.value ∧
      ∀ pin, m.1.1.signals.outputs.get? pin = m.2.1.signals.outputs.get? pin

/-- Snapshots can be compared by looking at each pair of records. -/
theorem Snapshot.SameButComputed.of_check {saved saved' : Snapshot}
    (hclock : saved.clock = saved'.clock) (hwires : saved.wires = saved'.wires)
    (houtline : outlineAll saved.instances = outlineAll saved'.instances)
    (h : ((saved.meetings catalog).zip (saved'.meetings catalog)).all (fun m =>
      !m.1.2.isStored || (m.1.1.signals.value == m.2.1.signals.value &&
        m.1.1.signals.outputs.agree m.2.1.signals.outputs)) = true) :
    saved.SameButComputed catalog saved' := by
  refine ⟨hclock, hwires, houtline, fun m hm hstored => ?_⟩
  have hown := List.all_eq_true.1 h m hm
  rw [hstored, Bool.not_true, Bool.false_or, Bool.and_eq_true, beq_iff_eq,
    NameMap.agree_iff_get?] at hown
  exact hown

/-- The circuit converges when the snapshot is restored, and not in a single pass in which a stray
output of the snapshot is read. -/
structure Simulator.RestoresCleanly (sim : Simulator) (saved : Snapshot) : Prop where
  converged : (sim.restore saved).2.converged = true
  clean : ¬((sim.restore saved).2.passes = 1 ∧
    (saved.netlist sim.catalog).top.ReadsStrayInside sim.catalog)

theorem Simulator.RestoresCleanly.atRest {sim : Simulator} {saved : Snapshot}
    (h : sim.RestoresCleanly saved) : (sim.restore saved).1.top.AtRest sim.catalog :=
  (atRest_settle_iff h.converged).2 h.clean

/-- **A restored circuit holds what was laid out for it.** -/
theorem corresponds_restore (sim : Simulator) (saved : Snapshot) :
    (saved.netlist sim.catalog).top.Corresponds (Instance.SameHeld sim.catalog)
      (sim.restore saved).1.top :=
  corresponds_settle sim.options.maxPasses.toNat (saved.netlist sim.catalog).top

/-- **Two circuits with the same sources**, restored without cycles, agree iff they were laid out
with the same residue. -/
theorem agreeAll_restored_iff {a b : Simulator} {saved saved' : Snapshot}
    (hcatalog : b.catalog = a.catalog) (hwires : saved.wires = saved'.wires)
    (hsource : (saved.netlist a.catalog).top.Corresponds Instance.SameSource
      (saved'.netlist a.catalog).top)
    (hacyclic : (a.restore saved).1.top.AcyclicInside) (ha : a.RestoresCleanly saved)
    (hb : b.RestoresCleanly saved') :
    agreeAll (a.restore saved).1.instances (b.restore saved').1.instances = true ↔
      (saved.netlist a.catalog).top.Corresponds (Instance.SameResidue a.catalog)
        (saved'.netlist a.catalog).top := by
  have htrans : ∀ i j k : Instance, i.SameHeld a.catalog j → j.SameHeld a.catalog k →
      i.SameHeld a.catalog k := fun _ _ _ h h' => h.trans h'
  have hsymm : ∀ i j : Instance, i.SameHeld a.catalog j → j.SameHeld a.catalog i :=
    fun _ _ h => h.symm
  have hheld := corresponds_restore a saved
  have hheld' := corresponds_restore b saved'
  rw [hcatalog] at hheld'
  constructor
  · intro hagree
    have hsettled : (a.restore saved).1.top.Corresponds (Instance.SameHeld a.catalog)
        (b.restore saved').1.top :=
      (corresponds_of_agreeAll hagree).imp fun _ _ h => sameHeld_of_agree h
    have hlaid := (hheld.trans hsettled htrans).trans (hheld'.symm hsymm) htrans
    exact hlaid.imp fun _ _ h => h.2
  · intro hresidue
    have hlaid : (saved.netlist a.catalog).top.Corresponds (Instance.SameHeld a.catalog)
        (saved'.netlist a.catalog).top := hsource.and hresidue
    have hsettled := ((hheld.symm hsymm).trans hlaid htrans).trans hheld' htrans
    have hsamewires : (a.restore saved).1.top.wires = (b.restore saved').1.top.wires := hwires
    refine agreeAll_of_atRest_of_held hacyclic hsettled (fun _ => ?_) (fun _ => rfl) ha.atRest
      (hcatalog ▸ hb.atRest)
    rw [hsamewires]

/-- **What a restore recomputes.** Two snapshots that differ only in what a pass computes are
restored, with one catalog, to circuits without cycles. If the circuits that are laid out for them
have the same residue in their composites, then the restored circuits are in the same state at every
place. They agree in every field at every depth iff that is so, and it is so if the records that are
laid over composites leave the same residue. -/
theorem restore_recomputes_iff {a b : Simulator} {saved saved' : Snapshot}
    (hcatalog : b.catalog = a.catalog) (hsame : saved.SameButComputed a.catalog saved')
    (hacyclic : (a.restore saved).1.top.AcyclicInside) (ha : a.RestoresCleanly saved)
    (hb : b.RestoresCleanly saved') :
    let laid := (saved.netlist a.catalog).top
    let laid' := (saved'.netlist a.catalog).top
    let restored := (a.restore saved).1
    let restored' := (b.restore saved').1
    (laid.Corresponds (Instance.SameResidue a.catalog) laid' →
      restored.top.SameState restored'.top) ∧
    (agreeAll restored.instances restored'.instances = true ↔
      laid.Corresponds (Instance.SameResidue a.catalog) laid') ∧
    ((∀ m ∈ (saved.meetings a.catalog).zip (saved'.meetings a.catalog),
      m.1.2.isComposite = true → m.1.1.SameResidue a.catalog m.1.2.chip m.2.1) →
        laid.Corresponds (Instance.SameResidue a.catalog) laid') := by
  intro laid laid' restored restored'
  have hmeet : ∀ m ∈ (saved.meetings a.catalog).zip (saved'.meetings a.catalog),
      SameMeeting m.1 m.2 := sameMeeting_of_outline hsame.outline
  have hsource : laid.Corresponds Instance.SameSource laid' :=
    corresponds_restored Instance.SameSource.refl hsame.outline fun m hm =>
      sameSource_overlay (hmeet m hm) (hsame.stored m hm)
  have hiff := agreeAll_restored_iff hcatalog hsame.wires hsource hacyclic ha hb
  refine ⟨fun hresidue path k => ?_, hiff, fun hrecords => ?_⟩
  · exact rel_imp (fun _ _ h => sameState_of_agree h)
      (instanceAt?_of_agreeAll (hiff.2 hresidue) path k)
  · refine corresponds_restored (fun _ => ⟨fun _ _ => rfl, fun _ _ _ => rfl⟩) hsame.outline ?_
    exact fun m hm => sameResidue_overlay (hmeet m hm) (hrecords m hm)

/-- A switch that is high, an exclusive or that reads it and a flip-flop behind it, saved with one
bit wherever a pass computes. -/
def scratched (bit : Bool) : Snapshot where
  clock := 3
  instances := [
    { part := ⟨"a", "INPUT", none⟩, signals := { value := true } },
    { part := ⟨"x", "XOR", none⟩
      signals := { value := bit }
      parts := [
        { part := ⟨"n1", "OR", none⟩
          signals := { value := bit, outputs := .ofList [(outPin, bit)] } },
        { part := ⟨"n2", "NAND", none⟩
          signals := { value := bit, inputs := .ofList [("A", bit)] } }] },
    { part := ⟨"d", "DFF", none⟩, signals := { inputs := .ofList [("D", bit)] } }]
  wires := [Standard.feed "a" "x", Standard.feed "x" "d"]

/-- Whatever was saved in the exclusive or, the same comes back. -/
theorem restore_recomputes_scratched :
    let a := (Simulator.new Standard.catalog {}).restore (scratched true)
    let b := (Simulator.new Standard.catalog {}).restore (scratched false)
    a.2 = ⟨2, true⟩ ∧ b.2 = ⟨2, true⟩ ∧ a.1.value? "x" = some true ∧ a.1.top.SameState b.1.top := by
  intro a b
  have ha : a.2 = ⟨2, true⟩ := by decide +kernel
  have hb : b.2 = ⟨2, true⟩ := by decide +kernel
  have hsame : (scratched true).SameButComputed Standard.catalog (scratched false) :=
    .of_check rfl rfl rfl (by decide +kernel)
  have hacyclic : a.1.top.AcyclicInside := acyclicInside_of_listedForward (by decide +kernel)
  obtain ⟨hstate, -, hrecords⟩ := restore_recomputes_iff rfl hsame hacyclic
    ⟨congrArg SettleReport.converged ha, fun h => absurd (ha ▸ h.1) (by decide)⟩
    ⟨congrArg SettleReport.converged hb, fun h => absurd (hb ▸ h.1) (by decide)⟩
  refine ⟨ha, hb, by decide +kernel, hstate (hrecords fun m hm hcomposite => ?_)⟩
  -- the one record that is laid over a composite has no outputs, and the composite has a main part
  have hcheck : (((scratched true).meetings Standard.catalog).zip
      ((scratched false).meetings Standard.catalog)).all (fun m => !m.1.2.isComposite ||
        ((Standard.catalog.pinMapOf m.1.2.chip).main.isSome &&
          m.1.1.signals.outputs.agree m.2.1.signals.outputs)) = true := by decide +kernel
  have hown := List.all_eq_true.1 hcheck m hm
  rw [hcomposite, Bool.not_true, Bool.false_or, Bool.and_eq_true, NameMap.agree_iff_get?] at hown
  refine ⟨fun hnone => ?_, fun pin _ => hown.2 pin⟩
  change (Standard.catalog.pinMapOf m.1.2.chip).main = none at hnone
  rw [hnone] at hown
  exact absurd hown.1 (by decide)

/-- Two composites and a negation that reads the `OUT` of the first. In the standard catalog the pin
map of an exclusive or names no output, and that of four negations no main part. -/
def composites (outputs : Pins) (bit : Bool) : Snapshot where
  instances := [
    { part := ⟨"x", "XOR", none⟩, signals := { outputs } },
    { part := ⟨"w", "NOT_4_BIT", none⟩, signals := { value := bit } },
    { part := ⟨"n", "NOT", none⟩ }]
  wires := [Standard.outOf "x" outPin "n"]

/-- **Saved bits of composites that survive a restore**, and what reads them: the output `OUT` of
the exclusive or and the main output of the four negations are never computed. -/
theorem composites_survive :
    let saved := composites (.ofList [(outPin, true)]) true
    let saved' := composites ∅ false
    let a := (Simulator.new Standard.catalog {}).restore saved
    let b := (Simulator.new Standard.catalog {}).restore saved'
    saved.SameButComputed Standard.catalog saved' ∧ a.1.top.AcyclicInside ∧
      a.2 = ⟨2, true⟩ ∧ b.2 = ⟨2, true⟩ ∧
      a.1.output? "x" outPin = some true ∧ b.1.output? "x" outPin = some false ∧
      a.1.value? "w" = some true ∧ b.1.value? "w" = some false ∧
      a.1.value? "n" = some false ∧ b.1.value? "n" = some true ∧ ¬a.1.top.SameState b.1.top := by
  intro saved saved' a b
  have hbits : a.2 = ⟨2, true⟩ ∧ b.2 = ⟨2, true⟩ ∧
      a.1.output? "x" outPin = some true ∧ b.1.output? "x" outPin = some false ∧
      a.1.value? "w" = some true ∧ b.1.value? "w" = some false ∧
      a.1.value? "n" = some false ∧ b.1.value? "n" = some true ∧
      (a.1.instances[2]?).map Instance.value ≠ (b.1.instances[2]?).map Instance.value := by
    decide +kernel
  obtain ⟨ha, hb, hx, hx', hw, hw', hn, hn', hdiffer⟩ := hbits
  have hsame : saved.SameButComputed Standard.catalog saved' :=
    .of_check rfl rfl rfl (by decide +kernel)
  have hacyclic : a.1.top.AcyclicInside := acyclicInside_of_listedForward (by decide +kernel)
  refine ⟨hsame, hacyclic, ha, hb, hx, hx', hw, hw', hn, hn', fun h => hdiffer ?_⟩
  exact map_eq_of_rel (fun _ _ hij => hij.value) (h [] 2)

end Breadboard
