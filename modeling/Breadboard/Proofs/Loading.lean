import Breadboard.Chip.Standard
import Breadboard.File.Chips
import Breadboard.Proofs.Pins

/-!
# Loading catalog files

A catalog file is loaded into the catalog at hand, step by step: first every name is looked at, then
every composite is defined. A failure stops the steps and leaves the catalog as they have made it,
so it is the order of the two loops that makes loading all or nothing.

* `load_eq`: what the steps come to; `mergeFile_eq_load`: merging is loading;
* `Catalog.Merged`, `merged_insertAll`: what a catalog holds after composites were defined in it;
* `get?_loadAll_primitive`: no files change, add or remove a primitive;
* **`load_all_or_nothing`**: when loading fails, and what it leaves.
-/

namespace Breadboard

open Text (upper)

variable {c : Catalog} {chips : NameMap Composite}

/-! ## Steps -/

/-- Steps on the catalog at hand, any of which may fail. -/
abbrev Loading := ExceptT CatalogFileError (StateM Catalog)

/-- Fail if the name is that of a primitive. -/
def refusePrimitive (name : String) : Loading Unit := do
  if (← get).hasPrimitive name then
    throw (.redefinesPrimitive name)

/-- Define a composite. -/
def defineComposite (e : String × Composite) : Loading Unit :=
  modify fun c => c.insert e.1 (.composite e.2)

/-- Load the chips of a file, or fail if it has none that can be read. -/
def loadChips : Option (NameMap Composite) → Loading Nat
  | none => throw .malformed
  | some chips => do
    chips.keys.forM refusePrimitive
    chips.entries.forM defineComposite
    return chips.size

namespace Catalog

/-- Load what was read of a file into a catalog: the result, and the catalog that is left. -/
def load (c : Catalog) (read : Option (NameMap Composite)) :
    Except CatalogFileError Nat × Catalog :=
  (loadChips read).run.run c

/-- The catalog that is left by loading files, one after the other, whether or not they fail. -/
def loadAll (c : Catalog) (files : List (Option (NameMap Composite))) : Catalog :=
  files.foldl (fun c read => (c.load read).2) c

end Catalog

/-- One step after another: a failure stops them, and leaves the catalog as it is by then. -/
theorem run_bind {α β : Type} (x : Loading α) (f : α → Loading β) (c : Catalog) :
    (x >>= f).run.run c =
      match x.run.run c with
      | (.ok a, c') => (f a).run.run c'
      | (.error e, c') => (.error e, c') := by
  rw [ExceptT.run_bind, StateT.run_bind]
  obtain ⟨result, c'⟩ := x.run.run c
  cases result <;> rfl

theorem run_refusePrimitive (c : Catalog) (name : String) :
    (refusePrimitive name).run.run c =
      (if c.hasPrimitive name then .error (.redefinesPrimitive name) else .ok (), c) := by
  change (if c.hasPrimitive name then
    (throw (.redefinesPrimitive name) : Loading Unit) else pure ()).run.run c = _
  split <;> rfl

/-- **Looking at the names** stops at the first primitive, and changes nothing. -/
theorem run_forM_refusePrimitive (c : Catalog) (names : List String) :
    (names.forM refusePrimitive).run.run c =
      (match names.find? c.hasPrimitive with
        | some name => .error (.redefinesPrimitive name)
        | none => .ok (), c) := by
  induction names with
  | nil => rfl
  | cons name rest ih =>
    rw [List.forM_eq_forM] at ih ⊢
    rw [List.forM_cons, run_bind, run_refusePrimitive, List.find?_cons]
    cases c.hasPrimitive name with
    | true => rfl
    | false => exact ih

/-- **Defining composites** never fails. -/
theorem run_forM_defineComposite (entries : List (String × Composite)) : ∀ c : Catalog,
    (entries.forM defineComposite).run.run c =
      (.ok (), entries.foldl (fun c e => c.insert e.1 (.composite e.2)) c) := by
  induction entries with
  | nil => exact fun _ => rfl
  | cons e rest ih =>
    intro c
    rw [List.forM_eq_forM] at ih ⊢
    rw [List.forM_cons, run_bind, List.foldl_cons]
    exact ih _

/-- **What loading comes to**: nothing happens before all names were looked at, and then nothing
fails. -/
theorem load_eq (c : Catalog) (read : Option (NameMap Composite)) :
    c.load read = match read with
      | none => (.error .malformed, c)
      | some chips =>
        match c.clash? chips with
        | some name => (.error (.redefinesPrimitive name), c)
        | none => (.ok chips.size, c.insertAll chips) := by
  cases read with
  | none => rfl
  | some chips =>
    unfold Catalog.load loadChips
    rw [run_bind, run_forM_refusePrimitive]
    change _ = match chips.keys.find? c.hasPrimitive with
      | some name => _
      | none => _
    cases chips.keys.find? c.hasPrimitive with
    | some name => rfl
    | none =>
      simp only
      rw [run_bind, run_forM_defineComposite]
      rfl

/-- **Merging a file is loading it.** -/
theorem mergeFile_eq_load (c : Catalog) (text : String) :
    c.mergeFile text = match c.load (File.read? File.chips text) with
      | (.error e, _) => .error e
      | (.ok added, after) => .ok (after, added) := by
  rw [load_eq, Catalog.mergeFile]
  cases File.read? File.chips text with
  | none => rfl
  | some chips =>
    simp only [Catalog.merge]
    cases c.clash? chips <;> rfl

/-! ## What is defined -/

/-- **The catalog `after` is `c` with the composites of a file.** -/
structure Catalog.Merged (c : Catalog) (chips : NameMap Composite) (after : Catalog) : Prop where
  /-- Names keep their places; new ones follow as the file has them, in upper case. -/
  names : after.names = c.names ++ ((chips.keys.map upper).removeAll c.names).eraseDups
  /-- A name holds the last composite whose name is that one in upper case, the types of its parts
  in upper case too. -/
  held : ∀ name e, (chips.entries.filter fun e => upper e.1 == name).getLast? = some e →
    after.get? name = some (.composite { e.2 with parts := e.2.parts.map Part.fold })
  /-- A name that the file does not have, in letters of either case, holds what it held. -/
  kept : ∀ name, (∀ other ∈ chips.keys, upper other ≠ name) → after.get? name = c.get? name

/-- The entries of a file as they are written into a catalog. -/
def foldedEntries (chips : NameMap Composite) : List (String × ChipType) :=
  chips.entries.map fun e => (upper e.1, (ChipType.composite e.2).fold)

theorem chips_insertAll (c : Catalog) (chips : NameMap Composite) :
    (c.insertAll chips).chips =
      (foldedEntries chips).foldl (fun m e => m.insert e.1 e.2) c.chips := by
  unfold Catalog.insertAll foldedEntries
  rw [List.foldl_map]
  induction chips.entries generalizing c with
  | nil => rfl
  | cons e rest ih => exact ih _

theorem get?_insertAll (c : Catalog) (chips : NameMap Composite) (name : String) :
    (c.insertAll chips).get? name =
      (((chips.entries.filter fun e => upper e.1 == name).getLast?).map
        fun e => (ChipType.composite e.2).fold).or (c.get? name) := by
  rw [Catalog.get?, chips_insertAll, NameMap.get?_foldl_insert_last, foldedEntries, List.filter_map,
    List.getLast?_map, Option.map_map]
  rfl

theorem merged_insertAll (c : Catalog) (chips : NameMap Composite) :
    c.Merged chips (c.insertAll chips) := by
  refine ⟨?_, fun name e he => ?_, fun name hname => ?_⟩
  · have hkeys : (foldedEntries chips).map Prod.fst = chips.keys.map upper := by
      rw [foldedEntries, NameMap.keys, List.map_map, List.map_map]
      rfl
    rw [Catalog.names, chips_insertAll, NameMap.keys_foldl_insert, hkeys]
    rfl
  · rw [get?_insertAll, he]
    rfl
  · have hnone : (chips.entries.filter fun e => upper e.1 == name) = [] := by
      refine List.filter_eq_nil_iff.2 fun e he => ?_
      simpa using hname e.1 (List.mem_map_of_mem he)
    rw [get?_insertAll, hnone]
    rfl

/-! ## Primitives -/

theorem hasPrimitive_iff {chip : String} :
    c.hasPrimitive chip = true ↔ ∃ d, c.get? (upper chip) = some (.primitive d) := by
  unfold Catalog.hasPrimitive
  split <;> simp_all

theorem not_hasPrimitive_iff {chip : String} :
    c.hasPrimitive chip = false ↔ ∀ d, c.get? (upper chip) ≠ some (.primitive d) := by
  rw [← Bool.not_eq_true, hasPrimitive_iff, not_exists]

/-- Composites that take no primitive's name make, change and remove no primitive. -/
theorem Catalog.Merged.get?_primitive {after : Catalog} (h : c.Merged chips after)
    (hfree : ∀ name ∈ chips.keys, ∀ d, c.get? (upper name) ≠ some (.primitive d))
    (name : String) (d : Primitive) :
    after.get? name = some (.primitive d) ↔ c.get? name = some (.primitive d) := by
  by_cases hnamed : ∀ other ∈ chips.keys, upper other ≠ name
  · rw [h.kept name hnamed]
  · simp only [not_forall, not_not] at hnamed
    obtain ⟨other, hother, rfl⟩ := hnamed
    obtain ⟨e, he, hname⟩ := List.mem_map.1 hother
    have hlast :
        (chips.entries.filter fun e => upper e.1 == upper other).getLast?.isSome = true := by
      rw [List.getLast?_isSome, ne_eq, List.filter_eq_nil_iff]
      exact fun hnone => hnone e he (by rw [hname]; exact beq_self_eq_true _)
    obtain ⟨last, hlast⟩ := Option.isSome_iff_exists.1 hlast
    rw [h.held _ last hlast]
    exact iff_of_false (by simp) (hfree other hother d)

/-- One load makes, changes and removes no primitive, whether it fails or not. -/
theorem get?_load_primitive (c : Catalog) (read : Option (NameMap Composite)) (name : String)
    (d : Primitive) :
    (c.load read).2.get? name = some (.primitive d) ↔ c.get? name = some (.primitive d) := by
  rw [load_eq]
  cases read with
  | none => rfl
  | some chips =>
    simp only
    cases hclash : c.clash? chips with
    | some clash => rfl
    | none =>
      refine (merged_insertAll c chips).get?_primitive (fun other hother => ?_) name d
      rw [← not_hasPrimitive_iff, ← Bool.not_eq_true]
      exact List.find?_eq_none.1 hclash other hother

/-- **No files make, change or remove a primitive.** -/
theorem get?_loadAll_primitive (files : List (Option (NameMap Composite))) (name : String)
    (d : Primitive) : ∀ c : Catalog,
      (c.loadAll files).get? name = some (.primitive d) ↔ c.get? name = some (.primitive d) := by
  induction files with
  | nil => exact fun _ => Iff.rfl
  | cons read rest ih =>
    intro c
    exact (ih _).trans (get?_load_primitive c read name d)

/-! ## All of it -/

/-- The first of the names that is a primitive's. -/
theorem clash?_eq_some_iff {name : String} :
    c.clash? chips = some name ↔ ∃ before rest, chips.keys = before ++ name :: rest ∧
      (∃ d, c.get? (upper name) = some (.primitive d)) ∧
        ∀ other ∈ before, ∀ d, c.get? (upper other) ≠ some (.primitive d) := by
  rw [Catalog.clash?, List.find?_eq_some_iff_append, hasPrimitive_iff]
  simp only [Bool.not_eq_true', not_hasPrimitive_iff]
  constructor
  · rintro ⟨hprimitive, before, rest, hkeys, hbefore⟩
    exact ⟨before, rest, hkeys, hprimitive, hbefore⟩
  · rintro ⟨before, rest, hkeys, hprimitive, hbefore⟩
    exact ⟨hprimitive, before, rest, hkeys, hbefore⟩

theorem clash?_eq_none_iff : c.clash? chips = none ↔
    ∀ name ∈ chips.keys, ∀ d, c.get? (upper name) ≠ some (.primitive d) := by
  simp only [Catalog.clash?, List.find?_eq_none, Bool.not_eq_true, not_hasPrimitive_iff]

/-- **Loading a file is all or nothing, and leaves primitives alone.** Merging the text of a file is
loading what is read of it; and whatever is read, composites in order or nothing at all: loading
fails as malformed exactly if nothing is read, and for the first name that is, in upper case, that
of a primitive exactly if there is one; a failure leaves the catalog as it was; and if loading
succeeds, then no name is that of a primitive, and the catalog is the old one with all the
composites (`Catalog.Merged`). After any files, loaded with success or not, a name is that of a
primitive exactly if it was that of the same primitive before. -/
theorem load_all_or_nothing (c : Catalog) :
    (∀ text, c.mergeFile text = match c.load (File.read? File.chips text) with
      | (.error e, _) => .error e
      | (.ok added, after) => .ok (after, added)) ∧
    (∀ read : Option (NameMap Composite),
      let (result, after) := c.load read
      (result = .error .malformed ↔ read = none) ∧
      (∀ name, result = .error (.redefinesPrimitive name) ↔
        ∃ chips before rest, read = some chips ∧ chips.keys = before ++ name :: rest ∧
          (∃ d, c.get? (upper name) = some (.primitive d)) ∧
          ∀ other ∈ before, ∀ d, c.get? (upper other) ≠ some (.primitive d)) ∧
      (∀ e, result = .error e → after = c) ∧
      (∀ added, result = .ok added ↔
        ∃ chips, read = some chips ∧ chips.size = added ∧
          ∀ name ∈ chips.keys, ∀ d, c.get? (upper name) ≠ some (.primitive d)) ∧
      ∀ chips added, read = some chips → result = .ok added → c.Merged chips after) ∧
    ∀ files name d,
      (c.loadAll files).get? name = some (.primitive d) ↔ c.get? name = some (.primitive d) := by
  refine ⟨mergeFile_eq_load c, fun read => ?_,
    fun files name d => get?_loadAll_primitive files name d c⟩
  rw [load_eq]
  cases read with
  | none => simp
  | some chips =>
    have hnames : ∀ name, (∃ chips' before rest, some chips = some chips' ∧
        chips'.keys = before ++ name :: rest ∧ (∃ d, c.get? (upper name) = some (.primitive d)) ∧
          ∀ other ∈ before, ∀ d, c.get? (upper other) ≠ some (.primitive d)) ↔
        c.clash? chips = some name := by
      intro name
      rw [clash?_eq_some_iff]
      simp only [Option.some.injEq, exists_and_left, exists_eq_left']
    have hfree : ∀ added, (∃ chips', some chips = some chips' ∧ chips'.size = added ∧
        ∀ name ∈ chips'.keys, ∀ d, c.get? (upper name) ≠ some (.primitive d)) ↔
        chips.size = added ∧ c.clash? chips = none := by
      intro added
      rw [clash?_eq_none_iff]
      simp only [Option.some.injEq, exists_eq_left']
    simp only [hnames, hfree]
    cases hclash : c.clash? chips with
    | some clash => simp
    | none =>
      refine ⟨by simp, by simp, by simp, by simp, ?_⟩
      rintro chips' added heq -
      cases heq
      exact merged_insertAll c chips

/-- Two buffers whose names are one name in letters of either case. -/
def buffers : String :=
  "[chips.buf]\ninputs = [\"In\"]\n" ++
    "[chips.Buf]\ninputs = [\"A\"]\ncomponents = [\x7b id = \"n\", type = \"not\" \x7d]\n"

/-- The same with a chip behind them that has a primitive's name. -/
def buffersAndGate : String := buffers ++ "[chips.and]\ninputs = []\n"

/-- The second buffer takes the place of the first, at the end of the catalog; with the gate, none
is defined. -/
theorem load_all_or_nothing_buffers :
    let c := Standard.catalog
    let good := c.load (File.read? File.chips buffers)
    let bad := c.load (File.read? File.chips buffersAndGate)
    good.1 = .ok 2 ∧ good.2.names = c.names ++ ["BUF"] ∧
      good.2.get? "BUF" = some (.composite { inputs := ["A"], parts := [⟨"n", "NOT", none⟩] }) ∧
      bad = (.error (.redefinesPrimitive "and"), c) := by
  intro c good bad
  obtain ⟨-, hload, -⟩ := load_all_or_nothing c
  obtain ⟨-, -, -, hloaded, hmerged⟩ := hload (File.read? File.chips buffers)
  obtain ⟨-, hrefused, hunchanged, -, -⟩ := hload (File.read? File.chips buffersAndGate)
  have hfree : ∀ name ∈ ["buf", "Buf"], ∀ d, c.get? (upper name) ≠ some (.primitive d) := by
    have hnone : ∀ name ∈ ["buf", "Buf"], c.hasPrimitive name = false := by decide +kernel
    exact fun name hname => not_hasPrimitive_iff.1 (hnone name hname)
  have hentries : (File.read? File.chips buffers).map NameMap.entries =
      some [("buf", { inputs := ["In"] }),
        ("Buf", { inputs := ["A"], parts := [⟨"n", "not", none⟩] })] := by decide +kernel
  obtain ⟨chips, hread, hentries⟩ := Option.map_eq_some_iff.1 hentries
  have hkeys : chips.keys = ["buf", "Buf"] := by rw [NameMap.keys, hentries]; rfl
  have hgood : good.1 = .ok 2 :=
    (hloaded 2).2 ⟨chips, hread, by rw [NameMap.size, hentries]; rfl, hkeys ▸ hfree⟩
  have hafter : c.Merged chips good.2 := hmerged chips 2 hread hgood
  refine ⟨hgood, ?_, ?_, ?_⟩
  · rw [hafter.names, hkeys]
    exact congrArg (c.names ++ ·) (by decide +kernel)
  · have hlast : (chips.entries.filter fun e => upper e.1 == "BUF").getLast? =
        some ("Buf", { inputs := ["A"], parts := [⟨"n", "not", none⟩] }) := by
      rw [hentries]
      decide +kernel
    exact (hafter.held "BUF" _ hlast).trans (by decide +kernel)
  · have hnames : (File.read? File.chips buffersAndGate).map NameMap.keys =
        some ["buf", "Buf", "and"] := by decide +kernel
    obtain ⟨more, hmore, hnames⟩ := Option.map_eq_some_iff.1 hnames
    have hgate : ∃ d, c.get? (upper "and") = some (.primitive d) :=
      hasPrimitive_iff.1 (by decide +kernel)
    have hbad : bad.1 = .error (.redefinesPrimitive "and") :=
      (hrefused "and").2 ⟨more, ["buf", "Buf"], [], hmore, hnames, hgate, hfree⟩
    exact Prod.ext hbad (hunchanged _ hbad)

end Breadboard
