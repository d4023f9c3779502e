import Breadboard.Circuit.Snapshot
import Breadboard.Proofs.Shape

/-!
# Laying saved state over a circuit

A snapshot comes from outside: its records may lack parts, name some twice, name others that are not
there, or have been taken from chips of another kind. What such a record is laid over decides what
becomes of it. An instance takes the signals of its record and nothing else, and each saved part
goes to the first part of its id.

* `InstanceSnapshot.induct`: induction over a record through its parts at every depth;
* `overlay_unknown`, `overlay_primitive`, `overlay_composite`: what the body makes of a record;
* `overlayAll_induct`: what every saved part preserves, all of them preserve;
* **`blank_overlay`**: no record changes the shape of what it is laid over;
* `InstanceSnapshot.meetings`, `Snapshot.meetings`: which record is laid over which instance;
* `throughout_overlay`: what these meetings decide of the whole.
-/

namespace Breadboard

/-- **Induction through saved parts**: what holds of a record whenever it holds of its parts holds
of every record. -/
theorem InstanceSnapshot.induct {P : InstanceSnapshot → Prop}
    (record : ∀ part expanded signals parts, (∀ r ∈ parts, P r) →
      P ⟨part, expanded, signals, parts⟩) : ∀ saved, P saved :=
  fun saved => InstanceSnapshot.rec (motive_1 := P) (motive_2 := fun l => ∀ r ∈ l, P r)
    (fun part expanded signals parts h => record part expanded signals parts h)
    (fun _ h => absurd h List.not_mem_nil)
    (fun _ _ h hs r hr => (List.mem_cons.1 hr).elim (fun he => he ▸ h) (hs r))
    saved

/-! ## What the body makes of a record -/

section Bodies

variable {saved : InstanceSnapshot} {part : Part} {expanded : Bool} {s : Signals}

theorem overlay_unknown :
    saved.overlay ⟨part, expanded, s, .unknown⟩ =
      ⟨part, saved.expanded, saved.signals, .unknown⟩ := by
  obtain ⟨part', expanded', s', saved⟩ := saved
  rw [InstanceSnapshot.overlay]

/-- A primitive whose record has no outputs drives its value. -/
theorem overlay_primitive {kind : PrimitiveKind} :
    saved.overlay ⟨part, expanded, s, .primitive kind⟩ =
      ⟨part, saved.expanded, if saved.signals.outputs.isEmpty then
        saved.signals.drive saved.signals.value else saved.signals, .primitive kind⟩ := by
  obtain ⟨part', expanded', s', saved⟩ := saved
  rw [InstanceSnapshot.overlay]

theorem overlay_composite {parts : List Instance} {inner : List Wire} :
    saved.overlay ⟨part, expanded, s, .composite parts inner⟩ =
      ⟨part, saved.expanded, saved.signals, .composite (overlayAll saved.parts parts) inner⟩ := by
  obtain ⟨part', expanded', s', saved⟩ := saved
  rw [InstanceSnapshot.overlay]

end Bodies

@[simp] theorem overlay_part (saved : InstanceSnapshot) (i : Instance) :
    (saved.overlay i).part = i.part := by
  obtain ⟨part, expanded, s, body⟩ := i
  cases body with
  | unknown => rw [overlay_unknown]
  | primitive => rw [overlay_primitive]
  | composite => rw [overlay_composite]

/-- What is laid over a primitive of some kind leaves it one, and makes nothing else one. -/
theorem overlay_body_primitive_iff {saved : InstanceSnapshot} {i : Instance}
    {kind : PrimitiveKind} :
    (saved.overlay i).body = .primitive kind ↔ i.body = .primitive kind := by
  obtain ⟨part, expanded, s, body⟩ := i
  cases body with
  | unknown => rw [overlay_unknown]
  | primitive => rw [overlay_primitive]
  | composite =>
    rw [overlay_composite]
    simp

/-- What every saved part preserves, all of them preserve. -/
theorem overlayAll_induct {P : List Instance → Prop} (saved : List InstanceSnapshot)
    (h : ∀ r ∈ saved, ∀ parts, P parts → P (updateInstance parts r.part.id r.overlay)) :
    ∀ parts, P parts → P (overlayAll saved parts) := by
  induction saved with
  | nil =>
    intro parts hP
    rw [overlayAll]
    exact hP
  | cons r rest ih =>
    intro parts hP
    rw [overlayAll]
    exact ih (fun r' hr' => h r' (List.mem_cons_of_mem r hr')) _ (h r List.mem_cons_self parts hP)

/-! ## The shape -/

theorem blankAll_overlayAll_of {saved : List InstanceSnapshot}
    (h : ∀ r ∈ saved, ∀ i : Instance, (r.overlay i).blank = i.blank) (parts : List Instance) :
    blankAll (overlayAll saved parts) = blankAll parts := by
  refine overlayAll_induct (P := fun l => blankAll l = blankAll parts) saved
    (fun r hr l hl => ?_) parts rfl
  rw [blankAll_updateInstance (h r hr), hl]

/-- **No record changes the shape of what it is laid over.** -/
theorem blank_overlay (saved : InstanceSnapshot) : ∀ i : Instance,
    (saved.overlay i).blank = i.blank := by
  induction saved using InstanceSnapshot.induct with
  | record part expanded s saved ih =>
    rintro ⟨part', expanded', s', body⟩
    cases body with
    | unknown => rw [overlay_unknown, blank_unknown, blank_unknown]
    | primitive => rw [overlay_primitive, blank_primitive, blank_primitive]
    | composite parts inner =>
      rw [overlay_composite, blank_composite, blank_composite, blankAll_overlayAll_of ih]

/-- What is restored has the part of its record. -/
theorem restore_part (catalog : Catalog) (saved : InstanceSnapshot) :
    (saved.restore catalog).part = saved.part.fold := by
  unfold InstanceSnapshot.restore
  rw [overlay_part]
  rfl

/-- What is restored has the shape of a chip that was just built. -/
theorem blank_restore (catalog : Catalog) (saved : InstanceSnapshot) :
    (saved.restore catalog).blank = (Instance.fresh catalog saved.part).blank :=
  blank_overlay saved _

/-! ## Meetings -/

mutual

/-- A record, and the saved parts in it that are laid over anything, each with the instance it is
laid over, in order. -/
def InstanceSnapshot.meetings : InstanceSnapshot → Instance → List (InstanceSnapshot × Instance)
  | ⟨part, expanded, signals, saved⟩, i =>
    (⟨part, expanded, signals, saved⟩, i) ::
      match i.body with
      | .composite parts _ => meetingsAll saved parts
      | _ => []

/-- `InstanceSnapshot.meetings` of records that are laid over parts, one after the other. -/
def meetingsAll : List InstanceSnapshot → List Instance → List (InstanceSnapshot × Instance)
  | [], _ => []
  | r :: rest, parts =>
    ((findInstance? parts r.part.id).elim [] fun i => r.meetings i) ++
      meetingsAll rest (updateInstance parts r.part.id fun i => r.overlay i)

end

/-- The records of a snapshot that are laid over anything, each with the instance it is laid over,
when the snapshot is restored. -/
def Snapshot.meetings (catalog : Catalog) (saved : Snapshot) : List (InstanceSnapshot × Instance) :=
  saved.instances.flatMap fun r => r.meetings (Instance.fresh catalog r.part)

theorem meetings_leaf {i : Instance} (hleaf : i.isComposite = false) (r : InstanceSnapshot) :
    r.meetings i = [(r, i)] := by
  obtain ⟨part, expanded, s, saved⟩ := r
  obtain ⟨part', expanded', s', body⟩ := i
  cases body with
  | composite => exact absurd hleaf (by simp [Instance.isComposite])
  | unknown | primitive => rw [InstanceSnapshot.meetings]

theorem meetings_composite (r : InstanceSnapshot) (part : Part) (expanded : Bool) (s : Signals)
    (parts : List Instance) (inner : List Wire) :
    r.meetings ⟨part, expanded, s, .composite parts inner⟩ =
      (r, ⟨part, expanded, s, .composite parts inner⟩) :: meetingsAll r.parts parts := by
  obtain ⟨part', expanded', s', saved⟩ := r
  rw [InstanceSnapshot.meetings]

section Throughout

variable {P : Instance → Prop}

theorem throughout_overlayAll_of {saved : List InstanceSnapshot}
    (h : ∀ r ∈ saved, ∀ i : Instance, i.Throughout P →
      (∀ m ∈ r.meetings i, P (m.1.overlay m.2)) → (r.overlay i).Throughout P) :
    ∀ parts, Throughout P parts → (∀ m ∈ meetingsAll saved parts, P (m.1.overlay m.2)) →
      Throughout P (overlayAll saved parts) := by
  induction saved with
  | nil =>
    intro parts hP _
    rw [overlayAll]
    exact hP
  | cons r rest ih =>
    intro parts hP hmet
    rw [meetingsAll] at hmet
    rw [overlayAll]
    refine ih (fun r' hr' => h r' (List.mem_cons_of_mem r hr')) _ ?_
      fun m hm => hmet m (List.mem_append_right _ hm)
    refine throughout_iff.2 fun j hj => ?_
    rcases mem_updateInstance hj with hj | ⟨i, hi, hfind, rfl⟩
    · exact throughout_iff.1 hP j hj
    · refine h r List.mem_cons_self i (throughout_iff.1 hP i hi) fun m hm => ?_
      exact hmet m (List.mem_append_left _ (by rw [hfind]; exact hm))

/-- **What holds throughout an instance**, and of whatever a record is laid over in it, holds
throughout what comes of it. -/
theorem throughout_overlay (saved : InstanceSnapshot) : ∀ i : Instance, i.Throughout P →
    (∀ m ∈ saved.meetings i, P (m.1.overlay m.2)) → (saved.overlay i).Throughout P := by
  induction saved using InstanceSnapshot.induct with
  | record part expanded s saved ih =>
    intro i hP hmet
    by_cases hleaf : i.isComposite = false
    · have hleaf' : (InstanceSnapshot.overlay ⟨part, expanded, s, saved⟩ i).isComposite = false :=
        (isComposite_of_blank (blank_overlay _ i)).trans hleaf
      rw [meetings_leaf hleaf] at hmet
      exact (Instance.throughout_leaf hleaf').2 (hmet _ (List.mem_singleton_self _))
    · obtain ⟨part', expanded', s', body⟩ := i
      cases body with
      | unknown | primitive => exact absurd rfl hleaf
      | composite parts inner =>
        rw [meetings_composite] at hmet
        rw [Instance.throughout_composite] at hP
        have hown := hmet _ List.mem_cons_self
        rw [overlay_composite] at hown ⊢
        refine Instance.throughout_composite.2 ⟨hown, ?_⟩
        exact throughout_overlayAll_of ih parts hP.2 fun m hm => hmet m (List.mem_cons_of_mem _ hm)

/-- What holds throughout chips that are built anew, and of whatever a record is laid over, holds
throughout what is restored. -/
theorem throughout_restored {catalog : Catalog} {saved : Snapshot}
    (hfresh : ∀ part, (Instance.fresh catalog part).Throughout P)
    (h : ∀ m ∈ saved.meetings catalog, P (m.1.overlay m.2)) :
    Throughout P (saved.instances.map (InstanceSnapshot.restore catalog)) := by
  refine throughout_iff.2 fun j hj => ?_
  obtain ⟨r, hr, rfl⟩ := List.mem_map.1 hj
  refine throughout_overlay r _ (hfresh r.part) fun m hm => ?_
  exact h m (List.mem_flatMap.2 ⟨r, hr, hm⟩)

end Throughout

end Breadboard
