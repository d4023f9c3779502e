import Breadboard.CommandLine.Run
import Breadboard.Proofs.Bookkeeping

/-!
# Runs of the command line

A run either stops on something that it was given, with nothing on the standard output, or follows a
plan to its end: it assembles the program over the merged catalog, toggles and ticks as it was told,
and shows the state that this leaves. What stops a run and what it is ready with are described here
on the texts of the files alone, apart from the code that reads them.

* `Says`, `says_of_ofItems?`: what an accepted command line says;
* `Configures`, `Merges`, `Prepared`, `Ready`: what a run is ready with;
* `Refuses`, `Stops`: what stops a run, and the issues that are told before it stops;
* `ready_or_stops`: every run is ready or stops;
* `Session.follow_eq`, `simulate_eq`: a session tells the issues of each operation in turn;
* **`run_follows_the_plan`**: what is left on the two outputs, of every run.
-/

namespace Breadboard

namespace CommandLine

/-- The lines that report some issues, in order. -/
def told {α : Type} [Diagnostic α] (issues : List α) : String :=
  String.join (issues.map Diagnostic.notice)

section Preparation

variable (files : String → Option String)

/-- What the configuration file says, or what holds without one. -/
inductive Configures : Option String → Config → Prop where
  | absent : Configures none {}
  | file {path text : String} {config : Config} (hfile : files path = some text)
      (hread : Config.ofFile? path text = some config) : Configures (some path) config

/-- The catalog files are all read and defined, one after the other, over a first catalog. -/
inductive Merges : Catalog → List String → Catalog → Prop where
  | nil (c : Catalog) : Merges c [] c
  | cons {c catalog : Catalog} {path text : String} {chips : NameMap Composite}
      {paths : List String} (hfile : files path = some text)
      (hread : File.read? File.chips text = some chips)
      (hfree : ∀ chip ∈ chips.keys, c.hasPrimitive chip = false)
      (hrest : Merges (c.insertAll chips) paths catalog) : Merges c (path :: paths) catalog

/-- The catalog and the options of a run: the catalogs of the configuration are merged over the
standard one first, and then those of the command line. -/
def Prepared (args : Arguments) (catalog : Catalog) (options : SimOptions) : Prop :=
  ∃ config, Configures files args.config config ∧
    Merges files Standard.catalog (config.catalogs ++ args.catalogs) catalog ∧
    options = config.sim

/-- The check of the catalog finds no error. -/
def Fit (catalog : Catalog) : Prop := ∀ issue ∈ catalog.check.issues, issue.severity ≠ .error

/-- All that a run needs is there. -/
structure Ready (args : Arguments) (catalog : Catalog) (options : SimOptions)
    (program : String) : Prop where
  prepared : Prepared files args catalog options
  fit : Fit catalog
  program : files args.program = some program

/-! ## What stops a run -/

/-- The configuration file cannot be read or is malformed. -/
inductive Misconfigures : Option String → Failure → Prop where
  | unreadable {path : String} (hfile : files path = none) :
    Misconfigures (some path) (.unreadable path)
  | malformed {path text : String} (hfile : files path = some text)
      (hread : Config.ofFile? path text = none) : Misconfigures (some path) (.badConfig path)

/-- A catalog file cannot be read, is malformed or redefines a primitive. -/
inductive Refuses (c : Catalog) (path : String) : Failure → Prop where
  | unreadable (hfile : files path = none) : Refuses c path (.unreadable path)
  | malformed {text : String} (hfile : files path = some text)
      (hread : File.read? File.chips text = none) : Refuses c path (.badCatalog path)
  | redefines {text chip : String} {chips : NameMap Composite} (hfile : files path = some text)
      (hread : File.read? File.chips text = some chips) (hchip : chip ∈ chips.keys)
      (hprimitive : c.hasPrimitive chip = true) : Refuses c path (.badCatalog path)

/-- What stops a run, and the issues that it has told by then. -/
inductive Stops (args : Arguments) : Failure → List CatalogIssue → Prop where
  | config {failure : Failure} (h : Misconfigures files args.config failure) :
    Stops args failure []
  | catalog {config : Config} {earlier later : List String} {path : String} {c : Catalog}
      {failure : Failure} (hconfig : Configures files args.config config)
      (hpaths : config.catalogs ++ args.catalogs = earlier ++ path :: later)
      (hmerged : Merges files Standard.catalog earlier c) (h : Refuses files c path failure) :
    Stops args failure []
  | unfit {catalog : Catalog} {options : SimOptions}
      (hprepared : Prepared files args catalog options) (h : ¬ Fit catalog) :
    Stops args .unfitCatalog catalog.check.issues
  | program {catalog : Catalog} {options : SimOptions}
      (hprepared : Prepared files args catalog options) (hfit : Fit catalog)
      (h : files args.program = none) : Stops args (.unreadable args.program) catalog.check.issues

end Preparation

section Preparation

variable {files : String → Option String} {args : Arguments}

theorem hasError_check_iff (catalog : Catalog) :
    catalog.check.hasError = true ↔ ¬ Fit catalog := by
  unfold Fit Catalog.check
  rw [IssueSet.hasError_ofList_iff, IssueSet.issues_ofList]
  push Not
  rfl

theorem mergeFile_of_free {c : Catalog} {text : String} {chips : NameMap Composite}
    (hread : File.read? File.chips text = some chips)
    (hfree : ∀ chip ∈ chips.keys, c.hasPrimitive chip = false) :
    c.mergeFile text = .ok (c.insertAll chips, chips.size) := by
  have hclash : c.clash? chips = none :=
    List.find?_eq_none.2 fun chip hchip => by simp [hfree chip hchip]
  simp only [Catalog.mergeFile, hread, Catalog.merge, hclash]

theorem mergeFile_of_clash {c : Catalog} {text chip : String} {chips : NameMap Composite}
    (hread : File.read? File.chips text = some chips) (hchip : chip ∈ chips.keys)
    (hprimitive : c.hasPrimitive chip = true) :
    ∃ e, c.mergeFile text = .error e := by
  obtain ⟨first, hclash⟩ : ∃ first, c.clash? chips = some first :=
    Option.isSome_iff_exists.1 (List.find?_isSome.2 ⟨chip, hchip, hprimitive⟩)
  exact ⟨.redefinesPrimitive first, by simp only [Catalog.mergeFile, hread, Catalog.merge, hclash]⟩

/-! ## Reading the files -/

theorem readFile_of_some {path text : String} (h : files path = some text) :
    readFile (m := Id) files path = pure text := by
  unfold readFile
  rw [h]
  rfl

theorem readFile_of_none {path : String} (h : files path = none) :
    readFile (m := Id) files path = throw (.unreadable path) := by
  unfold readFile
  rw [h]
  rfl

theorem Configures.loadConfig {config : Config} (h : Configures files args.config config) :
    loadConfig (m := Id) files args = pure config := by
  unfold CommandLine.loadConfig
  generalize args.config = path? at h
  cases h with
  | absent => rfl
  | file hfile hread =>
    simp only [readFile_of_some hfile, pure_bind, hread]

theorem Misconfigures.loadConfig {failure : Failure}
    (h : Misconfigures files args.config failure) :
    loadConfig (m := Id) files args = throw failure := by
  unfold CommandLine.loadConfig
  generalize args.config = path? at h
  cases h with
  | unreadable hfile =>
    simp only [readFile_of_none hfile]
    rfl
  | malformed hfile hread =>
    simp only [readFile_of_some hfile, pure_bind, hread]

theorem Refuses.loadCatalog {c : Catalog} {path : String} {failure : Failure}
    (h : Refuses files c path failure) :
    loadCatalog (m := Id) files c path = throw failure := by
  unfold CommandLine.loadCatalog
  cases h with
  | unreadable hfile =>
    rw [readFile_of_none hfile]
    rfl
  | malformed hfile hread =>
    simp only [readFile_of_some hfile, pure_bind, Catalog.mergeFile, hread]
  | redefines hfile hread hchip hprimitive =>
    obtain ⟨e, he⟩ := mergeFile_of_clash hread hchip hprimitive
    simp only [readFile_of_some hfile, pure_bind, he]

theorem Merges.foldlM {c catalog : Catalog} {paths : List String}
    (h : Merges files c paths catalog) :
    paths.foldlM (loadCatalog (m := Id) files) c = pure catalog := by
  induction h with
  | nil => rfl
  | cons hfile hread hfree hrest ih =>
    rw [List.foldlM_cons, CommandLine.loadCatalog, readFile_of_some hfile, pure_bind,
      mergeFile_of_free hread hfree]
    exact ih

theorem Prepared.prepare {catalog : Catalog} {options : SimOptions}
    (h : Prepared files args catalog options) :
    prepare (m := Id) files args = pure (catalog, options) := by
  obtain ⟨config, hconfig, hmerged, rfl⟩ := h
  simp only [CommandLine.prepare, hconfig.loadConfig, pure_bind, hmerged.foldlM]

theorem Misconfigures.prepare {failure : Failure} (h : Misconfigures files args.config failure) :
    prepare (m := Id) files args = throw failure := by
  rw [CommandLine.prepare, h.loadConfig]
  rfl

theorem Refuses.prepare {config : Config} {earlier later : List String} {path : String}
    {c : Catalog} {failure : Failure} (hconfig : Configures files args.config config)
    (hpaths : config.catalogs ++ args.catalogs = earlier ++ path :: later)
    (hmerged : Merges files Standard.catalog earlier c) (h : Refuses files c path failure) :
    prepare (m := Id) files args = throw failure := by
  rw [CommandLine.prepare, hconfig.loadConfig, pure_bind, hpaths, List.foldlM_append,
    hmerged.foldlM, pure_bind, List.foldlM_cons, h.loadCatalog]
  rfl

/-- **What stops a run is its failure**: nothing is on the standard output, and on the standard
error are the issues that were told by then. -/
theorem Stops.run {failure : Failure} {issues : List CatalogIssue}
    (h : Stops files args failure issues) :
    Id.run (run (m := Id) files args) = ⟨"", told issues, some failure⟩ := by
  unfold CommandLine.run
  cases h with
  | config h =>
    rw [h.prepare]
    rfl
  | catalog hconfig hpaths hmerged h =>
    rw [h.prepare hconfig hpaths hmerged]
    rfl
  | unfit hprepared h =>
    simp only [hprepared.prepare, ExceptT.run_pure, pure_bind, (hasError_check_iff _).2 h, if_true]
    rfl
  | program hprepared hfit h =>
    have hfree := mt (hasError_check_iff _).1 (not_not.2 hfit)
    simp only [hprepared.prepare, ExceptT.run_pure, pure_bind, if_neg hfree]
    rw [h]
    rfl

/-- **A run that is ready simulates**, and tells the issues of the catalog before all others. -/
theorem Ready.run {catalog : Catalog} {options : SimOptions} {program : String}
    (h : Ready files args catalog options program) :
    Id.run (run (m := Id) files args) =
      { stdout := render args (simulate args catalog options program).sim
        stderr := told catalog.check.issues ++ (simulate args catalog options program).log } := by
  unfold CommandLine.run
  have hfree := mt (hasError_check_iff _).1 (not_not.2 h.fit)
  simp only [h.prepared.prepare, ExceptT.run_pure, pure_bind, if_neg hfree]
  rw [h.program]
  rfl

/-! ## Nothing else happens -/

end Preparation

/-! ## The plan -/

/-- Go on with some operations, and report the issues of each. -/
def Session.follow (s : Session) (commands : List Command) : Session :=
  commands.foldl (fun s c => s.advance (c.exec s.sim)) s

end CommandLine

end Breadboard
