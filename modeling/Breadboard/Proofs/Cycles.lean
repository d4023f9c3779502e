import Breadboard.Chip.Check
import Breadboard.Proofs.Containment
import Mathlib.Data.List.Chain

/-!
# Chip types that contain themselves are reported

`Catalog.check` finds cycles by a depth-first search. `done` lists the types that are searched, the
last one first, and that order carries the proof of completeness: when a type is finished, each type
that it has a part of was finished before it, or else was on the path at that moment, and then the
two stand on a chain that was reported (`Catalog.Explained`). Along a cycle it cannot always be the
former.

* `Catalog.Searched`: what a search from some types does, assembled from part to part
  (`Searched.append`, `Searched.each`) and from type to type (`searched_cyclesFrom`);
* `Catalog.IsCycle.contains`: the types of a cycle contain each other;
* `Catalog.Explained.exists_of_mem`: types that lead on and on among themselves meet a chain;
* **`reported_cycles_sound_and_complete`**: what is reported is a cycle, and each type that contains
  itself lies on a reported one or is tied to it both ways.
-/

namespace Breadboard

variable {catalog : Catalog}

/-! ## Cycles -/

/-- A walk from part to part that ends where it began. -/
structure Catalog.IsCycle (catalog : Catalog) (chain : List String) : Prop where
  long : 2 ≤ chain.length
  closed : chain.head? = chain.getLast?
  steps : chain.IsChain catalog.Contains

/-- The two types contain each other, at any depth. -/
def Catalog.Entwined (catalog : Catalog) (a b : String) : Prop :=
  Relation.TransGen catalog.Contains a b ∧ Relation.TransGen catalog.Contains b a

theorem Catalog.IsCycle.of_eq {chip : String} {inside : List String}
    (h : (chip :: (inside ++ [chip])).IsChain catalog.Contains) :
    catalog.IsCycle (chip :: (inside ++ [chip])) := by
  refine ⟨by simp, ?_, h⟩
  rw [List.head?_cons, ← List.cons_append, List.getLast?_concat]

theorem Catalog.IsCycle.eq {chain : List String} (h : catalog.IsCycle chain) :
    ∃ chip inside, chain = chip :: (inside ++ [chip]) := by
  obtain ⟨hlong, hclosed, -⟩ := h
  cases chain with
  | nil => exact absurd hlong (by simp)
  | cons chip rest =>
    rcases List.eq_nil_or_concat rest with rfl | ⟨inside, last, rfl⟩
    · exact absurd hlong (by simp)
    · rw [List.concat_eq_append, List.head?_cons, ← List.cons_append,
        List.getLast?_concat] at hclosed
      cases hclosed
      exact ⟨chip, inside, by rw [List.concat_eq_append]⟩

/-- **The types of a cycle contain each other**, and themselves. -/
theorem Catalog.IsCycle.contains {chain : List String} (h : catalog.IsCycle chain) {a b : String}
    (ha : a ∈ chain) (hb : b ∈ chain) : Relation.TransGen catalog.Contains a b := by
  obtain ⟨chip, inside, rfl⟩ := h.eq
  have hpath : (chip :: (inside ++ [chip])).IsChain (Relation.TransGen catalog.Contains) :=
    h.steps.imp fun _ _ hab => .single hab
  have hordered := hpath.pairwise
  rw [List.pairwise_cons, List.pairwise_append] at hordered
  obtain ⟨hfrom, -, -, hinto⟩ := hordered
  have haround : Relation.TransGen catalog.Contains chip chip := hfrom chip (by simp)
  -- every type leads to the first one, and that one to every type
  have hto : Relation.TransGen catalog.Contains a chip := by
    simp only [List.mem_cons, List.mem_append, List.not_mem_nil, or_false] at ha
    rcases ha with rfl | ha | rfl
    · exact haround
    · exact hinto a ha chip (by simp)
    · exact haround
  have hback : Relation.TransGen catalog.Contains chip b := by
    rcases List.mem_cons.1 hb with rfl | hb
    · exact haround
    · exact hfrom b hb
  exact hto.trans hback

/-! ## What a search tells -/

/-- Each type of the list, and every type that it has a part of: the latter comes later in the list,
or both stand on a chain that was found. -/
def Catalog.Explained (catalog : Catalog) (found : List (List String)) : List String → Prop
  | [] => True
  | chip :: earlier =>
    (∀ inner, catalog.Contains chip inner →
      inner ∈ earlier ∨ ∃ chain ∈ found, chip ∈ chain ∧ inner ∈ chain) ∧
    catalog.Explained found earlier

/-- **Types that lead on and on among themselves meet a chain that was found**, if one of them is
explained. -/
theorem Catalog.Explained.exists_of_mem {S : String → Prop}
    (hS : ∀ chip, S chip → ∃ inner, catalog.Contains chip inner ∧ S inner)
    {found : List (List String)} {done : List String} (h : catalog.Explained found done)
    {chip : String} (hchip : chip ∈ done) (hin : S chip) : ∃ chain ∈ found, ∃ a ∈ chain, S a := by
  induction done generalizing chip with
  | nil => exact absurd hchip List.not_mem_nil
  | cons last earlier ih =>
    obtain ⟨hlast, hearlier⟩ := h
    rcases List.mem_cons.1 hchip with rfl | hchip
    · obtain ⟨inner, hcontains, hinner⟩ := hS chip hin
      rcases hlast inner hcontains with hmem | ⟨chain, hchain, hown, -⟩
      · exact ih hearlier hmem hinner
      · exact ⟨chain, hchain, chip, hown, hin⟩
    · exact ih hearlier hchip hin

/-- What a search from `chips` gives, all of them parts of `above` if there is a type above, when
the types in `done` were searched before. -/
structure Catalog.Searched (catalog : Catalog) (above : Option String) (done chips : List String)
    (result : List String × List (List String)) : Prop where
  kept : done ⊆ result.1
  sound : ∀ chain ∈ result.2, catalog.IsCycle chain
  reached : ∀ chip ∈ chips, chip ∈ result.1 ∨
    ∃ parent ∈ above, ∃ chain ∈ result.2, parent ∈ chain ∧ chip ∈ chain
  explained : ∀ found, result.2 ⊆ found →
    catalog.Explained found done → catalog.Explained found result.1

namespace Catalog.Searched

variable {above : Option String} {done chips more : List String}
  {result result' : List String × List (List String)}

theorem nil (catalog : Catalog) (above : Option String) (done : List String) :
    catalog.Searched above done [] (done, []) :=
  ⟨List.Subset.refl _, by simp, by simp, fun _ _ h => h⟩

/-- One search after another. -/
theorem append (h : catalog.Searched above done chips result)
    (h' : catalog.Searched above result.1 more result') :
    catalog.Searched above done (chips ++ more) (result'.1, result.2 ++ result'.2) where
  kept := fun _ hq => h'.kept (h.kept hq)
  sound := fun chain hchain => (List.mem_append.1 hchain).elim (h.sound chain) (h'.sound chain)
  reached := by
    intro chip hchip
    rcases List.mem_append.1 hchip with hchip | hchip
    · rcases h.reached chip hchip with hmem | ⟨parent, hparent, chain, hchain, hon⟩
      · exact Or.inl (h'.kept hmem)
      · exact Or.inr ⟨parent, hparent, chain, List.mem_append_left _ hchain, hon⟩
    · rcases h'.reached chip hchip with hmem | ⟨parent, hparent, chain, hchain, hon⟩
      · exact Or.inl hmem
      · exact Or.inr ⟨parent, hparent, chain, List.mem_append_right _ hchain, hon⟩
  explained := by
    intro found hfound hdone
    rw [List.append_subset] at hfound
    exact h'.explained found hfound.2 (h.explained found hfound.1 hdone)

end Catalog.Searched

/-- Search from each of the types, one after the other. -/
def Catalog.cyclesEach (c : Catalog) (path : List String) (state : List String × List (List String))
    (chips : List String) : List String × List (List String) :=
  chips.foldl (fun state chip =>
    ((c.cyclesFrom path state.1 chip).1, state.2 ++ (c.cyclesFrom path state.1 chip).2)) state

/-- What every search from one type gives, the searches from some types give. -/
theorem Catalog.Searched.each {c : Catalog} {path done : List String} {above : Option String}
    (chips : List String) (h : ∀ done, ∀ chip ∈ chips,
      catalog.Searched above done [chip] (c.cyclesFrom path done chip)) :
    ∀ {before : List String} {state : List String × List (List String)},
      catalog.Searched above done before state →
        catalog.Searched above done (before ++ chips) (c.cyclesEach path state chips) := by
  induction chips with
  | nil =>
    intro before state hstate
    rwa [List.append_nil]
  | cons chip rest ih =>
    intro before state hstate
    have hown := hstate.append (h state.1 chip List.mem_cons_self)
    have hrest := ih (fun done q hq => h done q (List.mem_cons_of_mem _ hq)) hown
    rw [List.append_assoc] at hrest
    exact hrest

/-! ## The search -/

section Search

variable {c : Catalog} {path done : List String} {chip : String}

theorem cyclesFrom_of_done (h : chip ∈ done) : c.cyclesFrom path done chip = (done, []) := by
  rw [Catalog.cyclesFrom, if_pos (by simpa using h)]

theorem cyclesFrom_of_path (h : chip ∉ done) (hpath : chip ∈ path) :
    c.cyclesFrom path done chip = (done, [path.dropWhile (· != chip) ++ [chip]]) := by
  rw [Catalog.cyclesFrom, if_neg (by simpa using h), if_pos (by simpa using hpath)]

theorem cyclesFrom_composite (h : chip ∉ done) (hpath : chip ∉ path) {d : Composite}
    (hget : c.get? chip = some (.composite d)) :
    c.cyclesFrom path done chip =
      (chip :: ((c.erase chip).cyclesEach (path ++ [chip]) (done, []) (d.parts.map Part.chip)).1,
        ((c.erase chip).cyclesEach (path ++ [chip]) (done, []) (d.parts.map Part.chip)).2) := by
  rw [Catalog.cyclesFrom, if_neg (by simpa using h), if_neg (by simpa using hpath)]
  unfold Catalog.cyclesEach
  rw [List.foldl_map]
  split
  · rename_i d' hget'
    rw [hget] at hget'
    cases hget'
    rfl
  · rename_i hother
    exact absurd hget (hother d)

theorem cyclesFrom_plain (h : chip ∉ done) (hpath : chip ∉ path)
    (hget : ∀ d, c.get? chip ≠ some (.composite d)) :
    c.cyclesFrom path done chip = (chip :: done, []) := by
  rw [Catalog.cyclesFrom, if_neg (by simpa using h), if_neg (by simpa using hpath)]
  split
  · rename_i d hget'
    exact absurd hget' (hget d)
  · rfl

/-- The end of a path from a type on, closed by that type, is a cycle that the type and the end of
the path stand on. -/
theorem isCycle_dropWhile (h : (path ++ [chip]).IsChain catalog.Contains) (hpath : chip ∈ path) :
    catalog.IsCycle (path.dropWhile (· != chip) ++ [chip]) ∧
      ∃ parent ∈ path.getLast?, parent ∈ path.dropWhile (· != chip) := by
  obtain ⟨before, inside, rfl, hbefore⟩ := List.eq_append_cons_of_mem hpath
  have hdrop : (before ++ chip :: inside).dropWhile (· != chip) = chip :: inside := by
    rw [List.dropWhile_append_of_pos fun q hq => by
      simpa using fun he : q = chip => hbefore (he ▸ hq)]
    simp
  rw [List.append_assoc, List.isChain_append] at h
  rw [hdrop, List.cons_append, List.getLast?_append_cons]
  refine ⟨.of_eq h.2.1, ?_⟩
  exact ⟨_, List.getLast?_eq_some_getLast (by simp), List.getLast_mem _⟩

/-- **A search from a type that the end of the path has a part of**, in the catalog without the
types of the path. -/
theorem searched_cyclesFrom (c : Catalog) (path done : List String) (chip : String) :
    (∀ q, q ∉ path → c.get? q = catalog.get? q) → (path ++ [chip]).IsChain catalog.Contains →
      catalog.Searched path.getLast? done [chip] (c.cyclesFrom path done chip) := by
  induction c, path, done, chip using Catalog.cyclesFrom.induct with
  | case1 c path done chip hdone =>
    intro _ _
    have hdone : chip ∈ done := by simpa using hdone
    rw [cyclesFrom_of_done hdone]
    refine ⟨List.Subset.refl _, by simp, fun q hq => Or.inl ?_, fun _ _ h => h⟩
    exact List.mem_singleton.1 hq ▸ hdone
  | case2 c path done chip hdone hpath =>
    intro _ hchain
    have hpath : chip ∈ path := by simpa using hpath
    obtain ⟨hcycle, parent, hparent, hon⟩ := isCycle_dropWhile hchain hpath
    rw [cyclesFrom_of_path (by simpa using hdone) hpath]
    refine ⟨List.Subset.refl _, by simpa using hcycle, fun q hq => ?_, fun _ _ h => h⟩
    rw [List.mem_singleton] at hq
    exact Or.inr ⟨parent, hparent, _, List.mem_singleton_self _, by simp [hon], by simp [hq]⟩
  | case3 c path done chip hdone hpath d hget _ _ _ ih =>
    intro hc hchain
    have hpath : chip ∉ path := by simpa using hpath
    rw [cyclesFrom_composite (by simpa using hdone) hpath hget]
    have hown : catalog.get? chip = some (.composite d) := (hc chip hpath).symm.trans hget
    have hcontains : ∀ inner, catalog.Contains chip inner ↔ inner ∈ d.parts.map Part.chip := by
      intro inner
      rw [Catalog.Contains, hown]
      simp
    -- the parts are searched below the type, in the catalog without it
    have hparts : catalog.Searched (some chip) done (d.parts.map Part.chip)
        ((c.erase chip).cyclesEach (path ++ [chip]) (done, []) (d.parts.map Part.chip)) := by
      refine .each _ (fun done inner hinner => ?_) (Catalog.Searched.nil catalog _ done)
      obtain ⟨part, hpart, rfl⟩ := List.mem_map.1 hinner
      have hlast : (path ++ [chip]).getLast? = some chip := List.getLast?_concat
      refine hlast ▸ ih part done (fun q hq => ?_) ?_
      · rw [List.mem_append, List.mem_singleton, not_or] at hq
        rw [Catalog.get?_erase, if_neg hq.2, hc q hq.1]
      · refine List.isChain_append.2 ⟨hchain, List.isChain_singleton _, ?_⟩
        simpa using (hcontains part.chip).2 hinner
    refine ⟨fun q hq => List.mem_cons_of_mem _ (hparts.kept hq), hparts.sound, by simp, ?_⟩
    intro found hfound hexplained
    refine ⟨fun inner hinner => ?_, hparts.explained found hfound hexplained⟩
    rcases hparts.reached inner ((hcontains inner).1 hinner) with
      hmem | ⟨_, habove, chain, hmem, hon⟩
    · exact Or.inl hmem
    · cases habove
      exact Or.inr ⟨chain, hfound hmem, hon⟩
  | case4 c path done chip hdone hpath hget =>
    intro hc _
    have hpath : chip ∉ path := by simpa using hpath
    rw [cyclesFrom_plain (by simpa using hdone) hpath hget]
    refine ⟨List.subset_cons_self _ _, by simp, by simp, fun found _ h => ⟨?_, h⟩⟩
    rintro inner ⟨d, part, hown, -⟩
    exact absurd ((hc chip hpath).trans hown) (hget d)

end Search

theorem Catalog.mem_names {chip : String} {d : ChipType} (h : catalog.get? chip = some d) :
    chip ∈ catalog.names :=
  NameMap.contains_iff.1 (Option.isSome_iff_exists.2 ⟨d, h⟩)

/-- **A search from every type of the catalog.** -/
theorem searched_cycles (catalog : Catalog) :
    ∃ done, catalog.Searched none [] catalog.names (done, catalog.cycles) := by
  have hall : catalog.Searched none [] ([] ++ catalog.names)
      (catalog.cyclesEach [] ([], []) catalog.names) :=
    .each _ (fun done chip _ => searched_cyclesFrom catalog [] done chip (fun _ _ => rfl)
      (List.isChain_singleton _)) (Catalog.Searched.nil catalog none [])
  exact ⟨_, hall⟩

/-! ## What is reported -/

/-- The check of the catalog reports the chain as a cycle. -/
def Catalog.Reports (catalog : Catalog) (chain : List String) : Prop :=
  ∃ issue ∈ catalog.check.issues, issue.cause = .cyclicDefinition chain

theorem cause_ne_of_mem_partIssues {chip : String} {parts : List Part} {issue : CatalogIssue}
    (chain : List String) : ∀ {seen}, issue ∈ catalog.partIssues chip seen parts →
      issue.cause ≠ .cyclicDefinition chain := by
  induction parts with
  | nil => exact fun h => absurd h List.not_mem_nil
  | cons part rest ih =>
    intro seen h
    rw [Catalog.partIssues, List.mem_append, List.mem_append] at h
    rcases h with (h | h) | h
    · split at h
      · rw [List.mem_singleton.1 h]
        simp
      · exact absurd h List.not_mem_nil
    · split at h
      · exact absurd h List.not_mem_nil
      · rw [List.mem_singleton.1 h]
        simp
    · exact ih h

/-- Looking at one composite by itself finds no cycle. -/
theorem cause_ne_of_mem_compositeIssues {chip : String} {d : Composite} {issue : CatalogIssue}
    (h : issue ∈ catalog.compositeIssues chip d) (chain : List String) :
    issue.cause ≠ .cyclicDefinition chain := by
  rw [Catalog.compositeIssues, List.mem_append, List.mem_append] at h
  rcases h with (h | h) | h
  · exact cause_ne_of_mem_partIssues chain h
  · simp only [Catalog.wireIssues, List.mem_flatMap, List.mem_append] at h
    obtain ⟨wire, -, h | h⟩ := h <;> split at h <;> simp at h <;> simp [h]
  · simp only [Catalog.pinMapIssues, List.mem_append, List.mem_flatMap] at h
    rcases h with ⟨e, -, h⟩ | ⟨pin, -, h⟩ <;> split at h <;> simp at h <;> simp [h]

theorem reports_iff {chain : List String} : catalog.Reports chain ↔ chain ∈ catalog.cycles := by
  unfold Catalog.Reports Catalog.check Catalog.issues
  rw [IssueSet.issues_ofList]
  constructor
  · rintro ⟨issue, hmem, hcause⟩
    rcases List.mem_append.1 hmem with hmem | hmem
    · obtain ⟨⟨chip, d⟩, -, hmem⟩ := List.mem_flatMap.1 hmem
      cases d with
      | primitive d => exact absurd hmem List.not_mem_nil
      | composite d => exact absurd hcause (cause_ne_of_mem_compositeIssues hmem chain)
    · obtain ⟨found, hfound, rfl⟩ := List.mem_map.1 hmem
      cases hcause
      exact hfound
  · intro hchain
    exact ⟨_, List.mem_append_right _ (List.mem_map_of_mem hchain), rfl⟩

/-- A type that contains itself has a part of such a type, the two of them entwined. -/
theorem Catalog.Entwined.step {chip a : String} (h : catalog.Entwined chip a) :
    ∃ b, catalog.Contains a b ∧ catalog.Entwined chip b := by
  obtain ⟨hto, hback⟩ := h
  rcases Relation.TransGen.head'_iff.1 hback with ⟨b, hab, hb⟩
  refine ⟨b, hab, hto.tail hab, ?_⟩
  rcases Relation.reflTransGen_iff_eq_or_transGen.1 hb with rfl | hb
  · exact hto.trans (.single hab)
  · exact hb

/-- **Cycles are reported soundly and completely.** A chain that the check of a catalog reports as a
cycle has at least two entries, begins and ends with the same type, and each entry has a part of the
next type. A type that contains itself, directly or through others, is entwined with every type of
some reported chain. So a cycle is reported if and only if some type contains itself. -/
theorem reported_cycles_sound_and_complete (catalog : Catalog) :
    (∀ chain, catalog.Reports chain → catalog.IsCycle chain) ∧
      (∀ chip, Relation.TransGen catalog.Contains chip chip →
        ∃ chain, catalog.Reports chain ∧ ∀ inner ∈ chain, catalog.Entwined chip inner) ∧
      ((∃ chain, catalog.Reports chain) ↔
        ∃ chip, Relation.TransGen catalog.Contains chip chip) := by
  obtain ⟨done, hsearched⟩ := searched_cycles catalog
  have hsound : ∀ chain, catalog.Reports chain → catalog.IsCycle chain := fun chain h =>
    hsearched.sound chain (reports_iff.1 h)
  have hcomplete : ∀ chip, Relation.TransGen catalog.Contains chip chip →
      ∃ chain, catalog.Reports chain ∧ ∀ inner ∈ chain, catalog.Entwined chip inner := by
    intro chip hself
    -- the type has parts, so it is in the catalog, and the search is done with it
    have hname : chip ∈ catalog.names := by
      obtain ⟨b, ⟨d, part, hget, -, -⟩, -⟩ := Relation.TransGen.head'_iff.1 hself
      exact Catalog.mem_names hget
    have hdone : chip ∈ done := by
      rcases hsearched.reached chip hname with hmem | ⟨_, hnone, -⟩
      · exact hmem
      · exact absurd hnone (by simp)
    have hexplained := hsearched.explained catalog.cycles (List.Subset.refl _) trivial
    obtain ⟨chain, hchain, a, ha, hto, hback⟩ := hexplained.exists_of_mem
      (S := catalog.Entwined chip) (fun _ h => h.step) hdone ⟨hself, hself⟩
    have hcycle := hsearched.sound chain hchain
    refine ⟨chain, reports_iff.2 hchain, fun inner hinner => ?_⟩
    exact ⟨hto.trans (hcycle.contains ha hinner), (hcycle.contains hinner ha).trans hback⟩
  refine ⟨hsound, hcomplete, fun ⟨chain, h⟩ => ?_, fun ⟨chip, h⟩ => ?_⟩
  · obtain ⟨chip, inside, rfl⟩ := (hsound chain h).eq
    exact ⟨chip, (hsound _ h).contains List.mem_cons_self List.mem_cons_self⟩
  · obtain ⟨chain, hchain, -⟩ := hcomplete chip h
    exact ⟨chain, hchain⟩

/-- A composite whose parts are of the given types. -/
def ofParts (chips : List String) : ChipType :=
  .composite { parts := chips.map fun chip => ⟨chip, chip, none⟩ }

/-- Two cycles with a type in common, and a type outside of which both are parts. -/
def tangled : Catalog :=
  [("TOP", ["C", "A"]), ("A", ["B", "A"]), ("B", ["C"]), ("C", ["A", "LAMP"])].foldl
    (fun c e => c.insert e.1 (ofParts e.2)) ∅

/-- The search from `TOP` comes upon the long cycle at `C`, and reports both. `B` lies on one of
them, `TOP` on none. -/
theorem reported_cycles_tangled :
    tangled.cycles = [["C", "A", "B", "C"], ["A", "A"]] ∧
      Relation.TransGen tangled.Contains "B" "B" ∧
      ∃ chain, tangled.Reports chain ∧ ∀ inner ∈ chain, tangled.Entwined "B" inner := by
  have hcycles : tangled.cycles = [["C", "A", "B", "C"], ["A", "A"]] := by decide +kernel
  obtain ⟨hsound, hcomplete, -⟩ := reported_cycles_sound_and_complete tangled
  have hlong : tangled.IsCycle ["C", "A", "B", "C"] := hsound _ (reports_iff.2 (by simp [hcycles]))
  have hself := hlong.contains (a := "B") (b := "B") (by simp) (by simp)
  exact ⟨hcycles, hself, hcomplete "B" hself⟩

end Breadboard
