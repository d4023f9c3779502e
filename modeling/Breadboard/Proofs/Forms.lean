import Breadboard.Form.Circuit
import Breadboard.Form.Issue
import Breadboard.Form.Program
import Breadboard.Proofs.JsonText
import Breadboard.Proofs.Overlay

/-!
# Every written form reads back

Writing and reading are not each other's mirror: absent members are left out or written as `null`,
missing ones have defaults, a tap is a text or a table, and a case of an enumeration is a text or a
table of one member. Still a value that is written and read is the same value.

`Reading.Inverts` is what is shown of each form, assembled from the forms of its parts: what is
written can be written as JSON, and is read back on any terms that leave room for it.

* `Datum.depth_table_le_iff`: the room that a table needs is the room of its members and one more;
* `inverts_listOf`, `inverts_tableOf`, `inverts_enumeration`: lists, tables, enumerations;
* `read_record`, `read_case`: the fields of a record, the case of an enumeration;
* **`every_form_reads_back`**: the text of every value is read as that value, if it is nested no
  deeper than texts may be.
-/

namespace Breadboard

open Datum Reading

variable {α β : Type} {t : Terms}

/-! ## Room -/

namespace Datum

theorem depth_list_le_iff {items : List Datum} {n : Nat} :
    (list items).depth ≤ n + 1 ↔ ∀ d ∈ items, d.depth ≤ n := by
  have hitems : depthList items ≤ n ↔ ∀ d ∈ items, d.depth ≤ n := by
    induction items with
    | nil => simp [depthList]
    | cons d rest ih => rw [depthList, Nat.max_le, ih, List.forall_mem_cons]
  rw [depth, ← hitems]
  omega

theorem depth_table_le_iff {members : List (String × Datum)} {n : Nat} :
    (table members).depth ≤ n + 1 ↔ ∀ m ∈ members, m.2.depth ≤ n := by
  have hmembers : depthTable members ≤ n ↔ ∀ m ∈ members, m.2.depth ≤ n := by
    induction members with
    | nil => simp [depthTable]
    | cons m rest ih => rw [depthTable, Nat.max_le, ih, List.forall_mem_cons]
  rw [depth, ← hmembers]
  omega

end Datum

/-- Where there is room for a list, it can be opened, and there is room for its items. -/
theorem Terms.open?_of_list {items : List Datum} (h : (list items).depth ≤ t.room) :
    ∃ t', t.open? = some t' ∧ ∀ d ∈ items, d.depth ≤ t'.room := by
  obtain ⟨room, listedCases, spareItems⟩ := t
  cases room with
  | zero => exact absurd h (by simp [depth])
  | succ n => exact ⟨_, rfl, depth_list_le_iff.1 h⟩

/-- Where there is room for a table, it can be opened, and there is room for its members. -/
theorem Terms.open?_of_table {members : List (String × Datum)}
    (h : (table members).depth ≤ t.room) :
    ∃ t', t.open? = some t' ∧ ∀ m ∈ members, m.2.depth ≤ t'.room := by
  obtain ⟨room, listedCases, spareItems⟩ := t
  cases room with
  | zero => exact absurd h (by simp [depth])
  | succ n => exact ⟨_, rfl, depth_table_le_iff.1 h⟩

/-! ## Readings that invert a writing -/

/-- What `write` writes has a written form, and `reading` gives back the value wherever there is
room. -/
structure Reading.Inverts (reading : Reading α) (write : α → Datum) : Prop where
  written : ∀ a, (write a).Written
  read_write : ∀ (a : α) (t : Terms), (write a).depth ≤ t.room → reading t (write a) = some a

/-- Every written value of a type is read as that value, where there is room. -/
def Form.Inverts (α : Type) [Form α] : Prop := (Form.read : Reading α).Inverts Form.write

theorem inverts_flag : flag.Inverts .bool := ⟨fun _ => trivial, fun _ _ _ => rfl⟩

theorem inverts_string : string.Inverts .text := ⟨fun _ => trivial, fun _ _ _ => rfl⟩

theorem inverts_int64 : int64.Inverts ofInt64 where
  written n := by
    have hlow := n.le_toInt
    have hhigh := n.toInt_lt
    have hsize : (UInt64.size : Int) = 2 ^ 64 := rfl
    constructor <;> omega
  read_write n _ _ := Text.int64?_toInt n

theorem inverts_uint64 : uint64.Inverts ofUInt64 where
  written n := by
    have hhigh := n.toNat_lt_size
    constructor <;> omega
  read_write n _ _ := Text.uint64?_toNat n

section Containers

variable {reading : Reading α} {write : α → Datum}

/-- A value that is there. -/
theorem Reading.Inverts.optional (h : reading.Inverts write) (hnull : ∀ a, write a ≠ .null)
    (t : Terms) (a : α) (hroom : (write a).depth ≤ t.room) :
    Reading.optional reading t (write a) = some (some a) := by
  unfold Reading.optional
  split
  · rename_i heq
    exact absurd heq (hnull a)
  · rw [h.read_write a _ hroom]
    rfl

theorem mapM_map {f : β → Option α} {g : α → β} {l : List α} (h : ∀ a ∈ l, f (g a) = some a) :
    (l.map g).mapM f = some l := by
  induction l with
  | nil => rfl
  | cons a l ih =>
    rw [List.forall_mem_cons] at h
    simp [h.1, ih h.2]

/-- **Lists.** -/
theorem inverts_listOf (h : reading.Inverts write) :
    (listOf reading).Inverts fun l => .list (l.map write) where
  written l := written_list.2 fun d hd => by
    obtain ⟨a, -, rfl⟩ := List.mem_map.1 hd
    exact h.written a
  read_write l t hroom := by
    obtain ⟨t', hopen, hitems⟩ := Terms.open?_of_list hroom
    rw [listOf, hopen]
    exact mapM_map fun a ha => h.read_write a t' (hitems _ (List.mem_map_of_mem ha))

/-- **Tables by name**, in their order. -/
theorem inverts_tableOf (h : reading.Inverts write) :
    (tableOf reading).Inverts (ofNames write) where
  written m := written_table.2 fun e he => by
    obtain ⟨e', -, rfl⟩ := List.mem_map.1 he
    exact h.written e'.2
  read_write m t hroom := by
    obtain ⟨t', hopen, hmembers⟩ := Terms.open?_of_table hroom
    have hread : ∀ e ∈ m.entries,
        (reading t' (write e.2)).bind (fun a => some (e.1, a)) = some e := by
      intro e he
      rw [h.read_write e.2 t' (hmembers _ (List.mem_map_of_mem he))]
      rfl
    let readMember : String × Datum → Option (String × α) := fun e =>
      (reading t' e.2).bind fun a => some (e.1, a)
    have hentries : (m.entries.map fun e => (e.1, write e.2)).mapM readMember = some m.entries :=
      mapM_map hread
    have htable := congrArg (Option.bind · fun entries => some (NameMap.ofList entries)) hentries
    rw [ofNames, tableOf, hopen]
    exact htable.trans (congrArg some (NameMap.ofList_entries m))

/-- **Values with names of their own.** -/
theorem inverts_enumeration [DecidableEq α] {values : List (String × α)}
    (hnodup : (values.map Prod.fst).Nodup) (hall : ∀ a, ∃ name, (name, a) ∈ values) :
    (enumeration values).Inverts fun a => .text (nameIn values a) where
  written _ := trivial
  read_write a t _ := by
    have hname : NameMap.find? values (nameIn values a) = some a := by
      unfold nameIn
      split
      · rename_i e hfound
        have ha : e.2 = a := by simpa using List.find?_some hfound
        exact (NameMap.find?_eq_some_iff hnodup).2 (ha ▸ List.mem_of_find?_eq_some hfound)
      · rename_i hnone
        obtain ⟨name, hname⟩ := hall a
        exact absurd (List.find?_eq_none.1 hnone _ hname) (by simp)
    simp [enumeration, Case.ofDatum?, Case.plain, hname]

end Containers

/-! ## Records and cases -/

/-- **A record is read from its members**, with room for each of them. -/
theorem read_record {names : List String} {members : List (String × Datum)}
    (hnames : ∀ m ∈ members, m.1 ∈ names) (hnodup : (members.map Prod.fst).Nodup)
    (hroom : (table members).depth ≤ t.room) {read : Record → Option α} {a : α}
    (h : ∀ t' : Terms, (∀ m ∈ members, m.2.depth ≤ t'.room) →
      read ⟨t', false, members⟩ = some a) :
    (Record.ofDatum? names t (.table members)).bind read = some a := by
  obtain ⟨t', hopen, hmembers⟩ := Terms.open?_of_table hroom
  have hknown : members.filter (fun e => names.contains e.1) = members :=
    List.filter_eq_self.2 fun m hm => by simpa using hnames m hm
  unfold Record.ofDatum?
  simp only [hopen, Option.bind_eq_bind, Option.bind_some, hknown, if_pos hnodup]
  exact h t' hmembers

section Fields

variable {listed : Bool} {name other : String} {d : Datum} {rest : List (String × Datum)} {a : α}
  {reading : Reading α}

@[simp] theorem required_head :
    Record.required ⟨t, listed, (name, d) :: rest⟩ name reading = reading t d := by
  simp [Record.required, Record.field?, NameMap.find?]

@[simp] theorem required_tail (h : other ≠ name) :
    Record.required ⟨t, listed, (other, d) :: rest⟩ name reading =
      Record.required ⟨t, listed, rest⟩ name reading := by
  simp [Record.required, Record.field?, NameMap.find?, h]

@[simp] theorem withDefault_nil : Record.withDefault ⟨t, listed, []⟩ name a reading = some a := rfl

@[simp] theorem withDefault_head :
    Record.withDefault ⟨t, listed, (name, d) :: rest⟩ name a reading = reading t d := by
  simp [Record.withDefault, Record.field?, NameMap.find?]

@[simp] theorem withDefault_tail (h : other ≠ name) :
    Record.withDefault ⟨t, listed, (other, d) :: rest⟩ name a reading =
      Record.withDefault ⟨t, listed, rest⟩ name a reading := by
  simp [Record.withDefault, Record.field?, NameMap.find?, h]

@[simp] theorem unlessListed_head :
    Record.unlessListed ⟨t, listed, (name, d) :: rest⟩ name a reading = reading t d := by
  simp [Record.unlessListed, Record.field?, NameMap.find?]

@[simp] theorem unlessListed_tail (h : other ≠ name) :
    Record.unlessListed ⟨t, listed, (other, d) :: rest⟩ name a reading =
      Record.unlessListed ⟨t, listed, rest⟩ name a reading := by
  simp [Record.unlessListed, Record.field?, NameMap.find?, h]

end Fields

/-- **A case is read by its name**, with room for what comes with it. -/
theorem read_case {name : String} {payload : Datum} (hroom : (case name payload).depth ≤ t.room)
    {read : Case → Option α} {a : α}
    (h : ∀ t' : Terms, payload.depth ≤ t'.room → read ⟨t', name, some payload⟩ = some a) :
    (Case.ofDatum? t (case name payload)).bind read = some a := by
  obtain ⟨t', hopen, hmembers⟩ := Terms.open?_of_table hroom
  rw [case, Case.ofDatum?, hopen]
  exact h t' (hmembers _ List.mem_cons_self)

@[simp] theorem int64_ofInt64 (t : Terms) (n : Int64) : int64 t (ofInt64 n) = some n :=
  Text.int64?_toInt n

@[simp] theorem uint64_ofUInt64 (t : Terms) (n : UInt64) : uint64 t (ofUInt64 n) = some n :=
  Text.uint64?_toNat n

@[simp] theorem string_text (t : Terms) (s : String) : string t (.text s) = some s := rfl

@[simp] theorem flag_bool (t : Terms) (b : Bool) : flag t (.bool b) = some b := rfl

@[simp] theorem optional_null (reading : Reading α) (t : Terms) :
    Reading.optional reading t .null = some none := rfl

@[simp] theorem optional_text (t : Terms) (s : String) :
    Reading.optional string t (.text s) = some (some s) := rfl

@[simp] theorem written_ofInt64 (n : Int64) : (ofInt64 n).Written := inverts_int64.written n

@[simp] theorem written_ofUInt64 (n : UInt64) : (ofUInt64 n).Written := inverts_uint64.written n

@[simp] theorem written_text (s : String) : (text s).Written := trivial

@[simp] theorem written_bool (b : Bool) : (bool b).Written := trivial

@[simp] theorem written_null : null.Written := trivial

/-! ## Chips and wires -/

theorem inverts_texts : (listOf string).Inverts ofTexts := inverts_listOf inverts_string

theorem inverts_position : Form.Inverts Position where
  written p := by
    change p.toDatum.Written
    simp [Position.toDatum]
  read_write p t hroom := by
    refine read_record (by simp) (by simp) hroom fun t' _ => ?_
    simp

theorem inverts_wire : Form.Inverts Wire where
  written w := by
    change w.toDatum.Written
    obtain ⟨source, sourcePin, target, targetPin⟩ := w
    cases sourcePin <;> cases targetPin <;> simp [Wire.toDatum, record]
  read_write w t hroom := by
    obtain ⟨source, sourcePin, target, targetPin⟩ := w
    cases sourcePin <;> cases targetPin <;>
    · refine read_record (by simp) (by simp) hroom fun t' _ => ?_
      simp

theorem inverts_kind : Form.Inverts PrimitiveKind :=
  inverts_enumeration (by decide) fun k => by cases k <;> simp [PrimitiveKind.forms]

theorem inverts_primitive : Form.Inverts Primitive where
  written d := by
    change d.toDatum.Written
    simp [Primitive.toDatum, inverts_kind.written, inverts_texts.written]
  read_write d t hroom := by
    refine read_record (by simp) (by simp) hroom fun t' h => ?_
    simp only [List.forall_mem_cons] at h
    simp [inverts_kind.read_write, inverts_texts.read_write, h]

theorem inverts_part : Form.Inverts Part where
  written p := by
    change p.toDatum.Written
    obtain ⟨id, chip, position⟩ := p
    cases position <;> simp [Part.toDatum, record, inverts_position.written]
  read_write p t hroom := by
    obtain ⟨id, chip, position⟩ := p
    cases position with
    | none =>
      refine read_record (by simp) (by simp) hroom fun t' _ => ?_
      simp
    | some pos =>
      refine read_record (by simp) (by simp) hroom fun t' h => ?_
      have hpos := inverts_position.optional (fun _ => nofun) t' pos (h ("position", _) (by simp))
      simp [hpos]

theorem inverts_pinRef : Form.Inverts PinRef where
  written p := by
    change p.toDatum.Written
    simp [PinRef.toDatum]
  read_write p t hroom := by
    refine read_record (by simp) (by simp) hroom fun t' _ => ?_
    simp

/-- A tap has two written forms, and is looked at as a whole before either is read. -/
theorem inverts_tap : Form.Inverts Tap where
  written tap := by
    change tap.toDatum.Written
    obtain ⟨id, pin⟩ := tap
    cases pin <;> simp [Tap.toDatum]
  read_write tap t hroom := by
    obtain ⟨id, pin⟩ := tap
    cases pin with
    | none => rfl
    | some pin =>
      refine (if_pos ?_).trans (read_record (by simp) (by simp) hroom fun t' _ => ?_)
      · exact (Bool.and_eq_true _ _).mpr ⟨rfl, decide_eq_true hroom⟩
      · simp

theorem inverts_pinMap : Form.Inverts PinMap where
  written p := by
    change p.toDatum.Written
    obtain ⟨inputs, outputs, main⟩ := p
    have hinputs := (inverts_tableOf (inverts_listOf inverts_pinRef)).written inputs
    have houtputs := (inverts_tableOf inverts_tap).written outputs
    cases main <;> simp [PinMap.toDatum, record, hinputs, houtputs]
  read_write p t hroom := by
    obtain ⟨inputs, outputs, main⟩ := p
    have hinputs := fun t' => (inverts_tableOf (inverts_listOf inverts_pinRef)).read_write inputs t'
    have houtputs := fun t' => (inverts_tableOf inverts_tap).read_write outputs t'
    cases main <;>
    · refine read_record (by simp) (by simp) hroom fun t' h => ?_
      simp at h
      simp [hinputs, houtputs, h]

theorem inverts_composite : Form.Inverts Composite where
  written c := by
    change c.toDatum.Written
    simp [Composite.toDatum, inverts_texts.written, (inverts_listOf inverts_part).written,
      (inverts_listOf inverts_wire).written, inverts_pinMap.written]
  read_write c t hroom := by
    refine read_record (by simp) (by simp) hroom fun t' h => ?_
    simp only [List.forall_mem_cons] at h
    simp [inverts_texts.read_write, (inverts_listOf inverts_part).read_write,
      (inverts_listOf inverts_wire).read_write, inverts_pinMap.read_write, h]

theorem inverts_chipType : Form.Inverts ChipType where
  written
    | .primitive d => by
      change (case _ _).Written
      simp [case, inverts_primitive.written]
    | .composite d => by
      change (case _ _).Written
      simp [case, inverts_composite.written]
  read_write
    | .primitive d, t, hroom => read_case hroom fun t' h => by
      simp [Case.value, inverts_primitive.read_write, h]
    | .composite d, t, hroom => read_case hroom fun t' h => by
      simp [Case.value, inverts_composite.read_write, h]

/-! ## Programs -/

theorem inverts_wirePins : Form.Inverts WirePins where
  written pins := by
    change pins.toDatum.Written
    cases pins <;> simp [WirePins.toDatum, case]
  read_write
    | .implicit, t, _ => rfl
    | .ambiguous pin, t, hroom => read_case hroom fun t' _ => by simp [Case.value]
    | .both source target, t, hroom => read_case hroom fun t' h =>
      read_record (by simp) (by simp) h fun t'' _ => by simp

theorem inverts_wireDecl : Form.Inverts WireDecl where
  written w := by
    change w.toDatum.Written
    simp [WireDecl.toDatum, inverts_wirePins.written]
  read_write w t hroom := by
    refine read_record (by simp) (by simp) hroom fun t' h => ?_
    simp only [List.forall_mem_cons] at h
    simp [inverts_wirePins.read_write, h]

/-- Unlike a part of a composite, a declared instance always has its position written. -/
theorem inverts_declared : Statement.partOfDatum?.Inverts Statement.partToDatum where
  written p := by
    obtain ⟨id, chip, position⟩ := p
    cases position <;> simp [Statement.partToDatum, inverts_position.written]
  read_write p t hroom := by
    obtain ⟨id, chip, position⟩ := p
    cases position with
    | none =>
      refine read_record (by simp) (by simp) hroom fun t' _ => ?_
      simp
    | some pos =>
      refine read_record (by simp) (by simp) hroom fun t' h => ?_
      have hpos := inverts_position.optional (fun _ => nofun) t' pos (h ("position", _) (by simp))
      simp [hpos]

theorem inverts_statement : Form.Inverts Statement where
  written
    | .part p => by
      change (case _ _).Written
      simp [case, inverts_declared.written]
    | .wire w => by
      change (case _ _).Written
      simp [case, inverts_wireDecl.written]
  read_write
    | .part p, t, hroom => read_case hroom fun t' h => by
      simp [Case.value, inverts_declared.read_write, h]
    | .wire w, t, hroom => read_case hroom fun t' h => by
      simp [Case.value, inverts_wireDecl.read_write, h]

theorem inverts_program : Form.Inverts Program where
  written p := by
    change p.toDatum.Written
    simp [Program.toDatum, (inverts_listOf inverts_statement).written]
  read_write p t hroom := by
    refine read_record (by simp) (by simp) hroom fun t' h => ?_
    simp only [List.forall_mem_cons] at h
    simp [(inverts_listOf inverts_statement).read_write, h]

/-! ## Issues -/

theorem inverts_severity : Form.Inverts Severity :=
  inverts_enumeration (by decide) fun s => by cases s <;> simp [Severity.forms]

theorem inverts_lineProblem : Form.Inverts LineProblem where
  written c := by
    change c.toDatum.Written
    cases c <;> simp [LineProblem.toDatum, case]
  read_write c t hroom := by
    cases c <;>
    · refine read_case hroom fun t' h => read_record (by simp) (by simp) h fun t'' _ => ?_
      simp

theorem inverts_lineIssue : Form.Inverts LineIssue where
  written i := by
    change i.toDatum.Written
    simp [LineIssue.toDatum, inverts_lineProblem.written, inverts_severity.written]
  read_write i t hroom := by
    refine read_record (by simp) (by simp) hroom fun t' h => ?_
    simp only [List.forall_mem_cons] at h
    simp [inverts_lineProblem.read_write, inverts_severity.read_write, h]

theorem inverts_circuitProblem : Form.Inverts CircuitProblem where
  written c := by
    change c.toDatum.Written
    cases c <;> simp [CircuitProblem.toDatum, case, inverts_lineIssue.written]
  read_write c t hroom := by
    cases c with
    | syntaxError issue =>
      refine read_case hroom fun t' h => ?_
      simp [Case.value, inverts_lineIssue.read_write, h]
    | didNotConverge | unknownChipType | duplicateInstanceId | notAnInput =>
      refine read_case hroom fun t' h => read_record (by simp) (by simp) h fun t'' _ => ?_
      simp

theorem inverts_circuitIssue : Form.Inverts CircuitIssue where
  written i := by
    change i.toDatum.Written
    simp [CircuitIssue.toDatum, inverts_circuitProblem.written, inverts_severity.written]
  read_write i t hroom := by
    refine read_record (by simp) (by simp) hroom fun t' h => ?_
    simp only [List.forall_mem_cons] at h
    simp [inverts_circuitProblem.read_write, inverts_severity.read_write, h]

theorem inverts_catalogProblem : Form.Inverts CatalogProblem where
  written c := by
    change c.toDatum.Written
    cases c <;> simp [CatalogProblem.toDatum, case, inverts_texts.written]
  read_write c t hroom := by
    cases c with
    | cyclicDefinition chain =>
      refine read_case hroom fun t' h => read_record (by simp) (by simp) h fun t'' h => ?_
      simp only [List.forall_mem_cons] at h
      simp [inverts_texts.read_write, h]
    | duplicateComponentIds | unknownComponentType | danglingMapping | unknownWireEndpoint
    | unknownInputPin =>
      refine read_case hroom fun t' h => read_record (by simp) (by simp) h fun t'' _ => ?_
      simp

theorem inverts_catalogIssue : Form.Inverts CatalogIssue where
  written i := by
    change i.toDatum.Written
    simp [CatalogIssue.toDatum, inverts_catalogProblem.written, inverts_severity.written]
  read_write i t hroom := by
    refine read_record (by simp) (by simp) hroom fun t' h => ?_
    simp only [List.forall_mem_cons] at h
    simp [inverts_catalogProblem.read_write, inverts_severity.read_write, h]

/-! ## Options and snapshots -/

theorem inverts_options : Form.Inverts SimOptions where
  written o := by
    change o.toDatum.Written
    simp [SimOptions.toDatum]
  read_write o t hroom := by
    refine read_record (by simp) (by simp) hroom fun t' _ => ?_
    simp

theorem InstanceSnapshot.toData_eq_map (l : List InstanceSnapshot) :
    toData l = l.map toDatum := by
  induction l with
  | nil => rfl
  | cons s l ih => rw [toData, ih, List.map_cons]

theorem written_savedInstance (s : InstanceSnapshot) : s.toDatum.Written := by
  induction s using InstanceSnapshot.induct with
  | record part expanded signals parts ih =>
    obtain ⟨id, chip, position⟩ := part
    have hinputs := (inverts_tableOf inverts_flag).written signals.inputs
    have houtputs := (inverts_tableOf inverts_flag).written signals.outputs
    have hparts : (list (InstanceSnapshot.toData parts)).Written := by
      rw [InstanceSnapshot.toData_eq_map]
      exact written_list.2 (List.forall_mem_map.2 ih)
    cases position <;>
      simp [InstanceSnapshot.toDatum, hinputs, houtputs, hparts, inverts_position.written]

/-- A list needs the room of its items and one more. -/
theorem depth_lt_of_list {items : List Datum} {n : Nat} (h : (list items).depth ≤ n) :
    ∀ d ∈ items, d.depth < n := by
  cases n with
  | zero => exact absurd h (by simp [depth])
  | succ n => exact fun d hd => Nat.lt_succ_of_le (depth_list_le_iff.1 h d hd)

/-- Saved parts are read at any nesting that reaches as deep as they do. -/
theorem savedInstance_read_write (s : InstanceSnapshot) : ∀ (n : Nat) (t : Terms),
    s.toDatum.depth ≤ n → s.toDatum.depth ≤ t.room →
      InstanceSnapshot.ofNestedDatum? n t s.toDatum = some s := by
  induction s using InstanceSnapshot.induct with
  | record part expanded signals parts ih =>
    intro n t hn hroom
    obtain ⟨id, chip, position⟩ := part
    cases n with
    | zero => exact absurd hn (by simp [InstanceSnapshot.toDatum, depth])
    | succ n =>
      have hdeep : (list (InstanceSnapshot.toData parts)).depth ≤ n := by
        rw [InstanceSnapshot.toDatum, depth_table_le_iff] at hn
        simp only [List.forall_mem_cons] at hn
        exact hn.2.2.2.2.2.2.2.2.1
      have hparts : ∀ t' : Terms, (list (InstanceSnapshot.toData parts)).depth ≤ t'.room →
          listOf (InstanceSnapshot.ofNestedDatum? n) t' (list (InstanceSnapshot.toData parts)) =
            some parts := by
        intro t' h'
        rw [InstanceSnapshot.toData_eq_map] at h' hdeep ⊢
        obtain ⟨t'', hopen, hitems⟩ := Terms.open?_of_list h'
        rw [listOf, hopen]
        refine mapM_map fun s hs => ?_
        have hmem := List.mem_map_of_mem (f := InstanceSnapshot.toDatum) hs
        exact ih s hs n t'' (Nat.le_of_lt (depth_lt_of_list hdeep _ hmem)) (hitems _ hmem)
      cases position <;>
      · refine read_record (by simp [InstanceSnapshot.fieldNames]) (by simp) hroom fun t' h => ?_
        simp only [List.forall_mem_cons] at h
        simp [hparts, inverts_position.optional (fun _ => nofun),
          (inverts_tableOf inverts_flag).read_write, h]

theorem inverts_savedInstance : Form.Inverts InstanceSnapshot where
  written := written_savedInstance
  read_write s t hroom := savedInstance_read_write s t.room t hroom hroom

theorem inverts_snapshot : Form.Inverts Snapshot where
  written s := by
    change s.toDatum.Written
    simp [Snapshot.toDatum, (inverts_listOf inverts_savedInstance).written,
      (inverts_listOf inverts_wire).written]
  read_write s t hroom := by
    refine read_record (by simp) (by simp) hroom fun t' h => ?_
    simp only [List.forall_mem_cons] at h
    simp [(inverts_listOf inverts_savedInstance).read_write,
      (inverts_listOf inverts_wire).read_write, h]

/-! ## Texts -/

/-- The text of every value of a type is read as that value, unless it is nested too deeply. -/
def Form.ReadsBack (α : Type) [Form α] : Prop :=
  ∀ a : α, (Form.write a).depth ≤ Form.maxDepth → Form.ofJson? (Form.toJson a) = some a

/-- What inverts the writing of data inverts the writing of text. -/
theorem Form.Inverts.readsBack [Form α] (h : Form.Inverts α) : Form.ReadsBack α := by
  intro a hdepth
  unfold Form.ofJson? Form.toJson
  rw [Json.parse?_compact (h.written a), Option.bind_some]
  exact h.read_write a _ hdepth

/-- **Every form reads back**: every value is read from its text as the value that it is, with the
order of its pins, what it lacks and what it has. -/
theorem every_form_reads_back :
    Form.ReadsBack Snapshot ∧ Form.ReadsBack InstanceSnapshot ∧ Form.ReadsBack Wire ∧
      Form.ReadsBack ChipType ∧ Form.ReadsBack Tap ∧ Form.ReadsBack Program ∧
      Form.ReadsBack Severity ∧ Form.ReadsBack SimOptions ∧ Form.ReadsBack LineIssue ∧
      Form.ReadsBack CatalogIssue ∧ Form.ReadsBack CircuitIssue :=
  ⟨inverts_snapshot.readsBack, inverts_savedInstance.readsBack, inverts_wire.readsBack,
    inverts_chipType.readsBack, inverts_tap.readsBack, inverts_program.readsBack,
    inverts_severity.readsBack, inverts_options.readsBack, inverts_lineIssue.readsBack,
    inverts_catalogIssue.readsBack, inverts_circuitIssue.readsBack⟩

/-- A saved chip around a switch that was drawn somewhere. -/
def savedSwitch : Snapshot :=
  { clock := 7
    instances := [{
      part := { id := "a \"b\"", chip := "BOX" }
      signals := { outputs := .ofList [("Z", true), ("A", false)] }
      parts := [{ part := { id := "s", chip := "INPUT", position := some ⟨-3, 4⟩ } }] }]
    wires := [{ source := "a", target := "b", targetPin := some "A" }] }

/-- The saved chip is read from its text. -/
theorem savedSwitch_reads_back :
    (Form.write savedSwitch).depth ≤ Form.maxDepth ∧
      Form.ofJson? (Form.toJson savedSwitch) = some savedSwitch :=
  ⟨by decide +kernel, every_form_reads_back.1 _ (by decide +kernel)⟩

end Breadboard
