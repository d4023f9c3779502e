import Breadboard.Program.Reader
import Breadboard.Program.Writer
import Mathlib.Data.List.Basic

/-!
# Programs read back

A program is written one statement a line, its words separated by single spaces. What is read of the
text is the program again exactly when every name in it is a word of its own and every chip type a
word in upper case other than the keyword of a wire (`Program.WellFormed`).

* `wellFormed_parse`: every program that is read is well-formed, whatever the text;
* `statement?_write`: a well-formed statement reads back from its line, with nothing to report;
* `parse_write`: so does a well-formed program from its text;
* **`reads_back_iff_wellFormed`**: the two together.
-/

namespace Breadboard

open Text

/-! ## Well-formed programs -/

/-- A name that can be written: it is a word. -/
def IsName (name : String) : Prop := IsWord name.toList

instance (name : String) : Decidable (IsName name) := inferInstanceAs (Decidable (IsWord _))

/-- A chip type that can be written: a word without letters from `a` to `z`, and not the keyword. -/
def IsTypeName (chip : String) : Prop :=
  IsName chip ∧ (∀ c ∈ chip.toList, c.isLower = false) ∧ chip ≠ wireKeyword

instance (chip : String) : Decidable (IsTypeName chip) :=
  have : Decidable (∀ c ∈ chip.toList, c.isLower = false) := chip.toList.decidableBAll _
  inferInstanceAs (Decidable (IsName chip ∧ _ ∧ chip ≠ wireKeyword))

/-- All that the statement names can be written. -/
def Statement.WellFormed : Statement → Prop
  | .part p => IsTypeName p.chip ∧ IsName p.id
  | .wire decl => IsName decl.source ∧ IsName decl.target ∧ ∀ pin ∈ decl.pins.words, IsName pin

instance : DecidablePred Statement.WellFormed
  | .part p => inferInstanceAs (Decidable (IsTypeName p.chip ∧ IsName p.id))
  | .wire decl => inferInstanceAs
      (Decidable (IsName decl.source ∧ IsName decl.target ∧ ∀ pin ∈ decl.pins.words, IsName pin))

/-- All that the program names can be written. -/
def Program.WellFormed (p : Program) : Prop := ∀ s ∈ p.statements, s.WellFormed

instance (p : Program) : Decidable p.WellFormed :=
  inferInstanceAs (Decidable (∀ s ∈ p.statements, s.WellFormed))

theorem isName_ofList {w : List Char} (h : IsWord w) : IsName (.ofList w) := by
  rwa [IsName, String.toList_ofList]

/-- The keyword is a name too, though not of a type. -/
theorem isName_wireKeyword : IsName wireKeyword := by decide

theorem isWord_writeNat (n : Nat) : IsWord (writeNat n) := by
  refine ⟨writeNat_ne_nil n, fun c hc => ?_⟩
  have hdigit := isDigit_of_mem_writeNat hc
  simp only [Char.isDigit, Bool.and_eq_true, decide_eq_true_eq, UInt32.le_iff_toNat_le] at hdigit
  simp [isBlank] at hdigit ⊢
  omega

/-- A coordinate is a word. -/
theorem isName_showInt (i : Int) : IsName (showInt i) := by
  refine isName_ofList ?_
  cases i with
  | ofNat n => exact isWord_writeNat n
  | negSucc n =>
    refine ⟨by simp [writeInt], fun c hc => ?_⟩
    rcases List.mem_cons.1 hc with rfl | hc
    · decide
    · exact (isWord_writeNat _).2 c hc

theorem Statement.WellFormed.words {s : Statement} (h : s.WellFormed) :
    ∀ w ∈ s.words, IsName w := by
  cases s with
  | part p =>
    obtain ⟨⟨hchip, -, -⟩, hid⟩ := h
    intro w hw
    simp only [Statement.words, List.mem_append, List.mem_cons, List.not_mem_nil, or_false] at hw
    rcases hw with (rfl | rfl) | hw
    · exact hchip
    · exact hid
    · split at hw
      · simp only [List.mem_cons, List.not_mem_nil, or_false] at hw
        rcases hw with rfl | rfl <;> exact isName_showInt _
      · exact absurd hw List.not_mem_nil
  | wire decl =>
    obtain ⟨hsource, htarget, hpins⟩ := h
    intro w hw
    simp only [Statement.words, List.mem_append, List.mem_cons, List.not_mem_nil, or_false] at hw
    rcases hw with (rfl | rfl | rfl) | hw
    · exact isName_wireKeyword
    · exact hsource
    · exact htarget
    · exact hpins w hw

/-! ## What is read is well-formed -/

namespace Program

theorem wellFormed_wire? {args : List (List Char)} (hargs : ∀ w ∈ args, IsWord w) {decl : WireDecl}
    (h : wire? args = some decl) : (Statement.wire decl).WellFormed := by
  have hname : ∀ w ∈ args, IsName (.ofList w) := fun w hw => isName_ofList (hargs w hw)
  unfold wire? at h
  split at h
  · cases h
    exact ⟨hname _ (by simp), hname _ (by simp), by simp [WirePins.words]⟩
  · cases h
    refine ⟨hname _ (by simp), hname _ (by simp), fun pin hpin => ?_⟩
    rw [List.mem_singleton.1 hpin]
    exact hname _ (by simp)
  · cases h
    refine ⟨hname _ (by simp), hname _ (by simp), fun pin hpin => ?_⟩
    simp only [WirePins.words, List.mem_cons, List.not_mem_nil, or_false] at hpin
    rcases hpin with rfl | rfl <;> exact hname _ (by simp)
  · exact absurd h (by simp)

/-- What is put in upper case and is not the keyword is a type that can be written. -/
theorem isTypeName_upper {chip : List Char} (hchip : IsWord chip)
    (hkeyword : isWireKeyword chip = false) : IsTypeName (upper (.ofList chip)) := by
  refine ⟨?_, ?_, by simpa [isWireKeyword] using hkeyword⟩
  · rw [upper, String.toList_ofList]
    refine isName_ofList ⟨by simpa using hchip.1, fun c hc => ?_⟩
    obtain ⟨d, hd, rfl⟩ := List.mem_map.1 hc
    exact isBlank_toUpper (hchip.2 d hd)
  · exact (upper_eq_self_iff _).1 (upper_upper _)

/-- **Every statement that is read is well-formed.** -/
theorem wellFormed_statement? {line : List Char} {s : Statement} (h : statement? line = some s) :
    s.WellFormed := by
  have hwords : ∀ w ∈ Text.words line, IsWord w := fun w hw => isWord_of_mem_words hw
  unfold statement? at h
  split at h
  · rename_i chip id rest heq
    rw [heq] at hwords
    split at h
    · obtain ⟨decl, hdecl, rfl⟩ := Option.map_eq_some_iff.1 h
      exact wellFormed_wire? (fun w hw => hwords w (List.mem_cons_of_mem chip hw)) hdecl
    · rename_i hkeyword
      cases h
      exact ⟨isTypeName_upper (hwords chip (by simp)) (by simpa using hkeyword),
        isName_ofList (hwords id (by simp))⟩
  · exact absurd h (by simp)

/-- **Every program that is read is well-formed.** -/
theorem wellFormed_parse (text : String) : (parse text).program.WellFormed := by
  intro s hs
  obtain ⟨line, -, hline⟩ := List.mem_filterMap.1 hs
  exact wellFormed_statement? hline

/-! ## What is well-formed reads back -/

/-- The words of a line are those that were written. -/
theorem words_write {s : Statement} (h : s.WellFormed) :
    Text.words s.write.toList = s.words.map String.toList := by
  rw [Statement.write, String.toList_intercalate]
  refine words_intercalate fun w hw => ?_
  obtain ⟨name, hname, rfl⟩ := List.mem_map.1 hw
  exact h.words name hname

theorem wire?_words (decl : WireDecl) :
    wire? ((decl.source :: decl.target :: decl.pins.words).map String.toList) = some decl := by
  obtain ⟨source, target, pins⟩ := decl
  cases pins <;> simp [wire?, WirePins.words]

theorem isWireKeyword_keyword : isWireKeyword wireKeyword.toList = true := by decide

theorem isWireKeyword_chip {chip : String} (h : IsTypeName chip) :
    isWireKeyword chip.toList = false := by
  obtain ⟨-, hupper, hkeyword⟩ := h
  rw [isWireKeyword, String.ofList_toList, (upper_eq_self_iff chip).2 hupper]
  simpa using hkeyword

theorem position?_write (pos : Position) :
    position? ([showInt pos.x.toInt, showInt pos.y.toInt].map String.toList) = some pos := by
  simp [position?, showInt, readInt64?_writeInt]

/-- **A well-formed statement reads back from its line**, and there is nothing to report. -/
theorem statement?_write {s : Statement} (h : s.WellFormed) :
    statement? s.write.toList = some s ∧ problem? s.write.toList = none := by
  rw [statement?, problem?, words_write h]
  cases s with
  | part p =>
    obtain ⟨id, chip, position⟩ := p
    have hupper : upper chip = chip := (upper_eq_self_iff chip).2 h.1.2.1
    simp only [Statement.words, List.cons_append, List.nil_append, List.map_cons,
      isWireKeyword_chip h.1, String.ofList_toList, hupper]
    cases position with
    | none => exact ⟨rfl, rfl⟩
    | some pos =>
      simp only [position?_write]
      exact ⟨rfl, rfl⟩
  | wire decl =>
    simp only [Statement.words, List.cons_append, List.nil_append, List.map_cons,
      isWireKeyword_keyword, if_true]
    rw [← List.map_cons, ← List.map_cons, wire?_words]
    exact ⟨rfl, rfl⟩

theorem lineIssues_eq_nil {ls : List (List Char)} (h : ∀ l ∈ ls, problem? l = none) :
    ∀ n, lineIssues n ls = [] := by
  induction ls with
  | nil => exact fun _ => rfl
  | cons l rest ih =>
    intro n
    rw [lineIssues, h l List.mem_cons_self]
    exact ih (fun l' hl => h l' (List.mem_cons_of_mem l hl)) (n + 1)

/-- The lines of the text are those of the statements. -/
theorem lines_write {p : Program} (h : p.WellFormed) :
    lines p.write.toList = p.statements.map fun s => s.write.toList := by
  have htext :
      p.write.toList = (p.statements.map fun s => s.write.toList).flatMap (· ++ ['\n']) := by
    simp [Program.write, String.toList_join, List.flatMap_map]
  rw [htext]
  refine lines_flatMap_newline fun l hl c hc => ?_
  obtain ⟨s, hs, rfl⟩ := List.mem_map.1 hl
  -- both ends of a line are blanks, and the only blanks of the line are spaces
  rw [Statement.write, String.toList_intercalate] at hc
  rcases eq_space_of_mem_intercalate hc with rfl | ⟨w, hw, hc⟩
  · decide
  · obtain ⟨name, hname, rfl⟩ := List.mem_map.1 hw
    have hfull := ((h s hs).words name hname).2 c hc
    constructor <;> rintro rfl <;> exact absurd hfull (by decide)

/-- **A well-formed program reads back**, and there is nothing to report. -/
theorem parse_write {p : Program} (h : p.WellFormed) : parse p.write = ⟨p, ∅⟩ := by
  have hstatements : (p.statements.map fun s => s.write.toList).filterMap statement? =
      p.statements := by
    rw [List.filterMap_map]
    exact (List.filterMap_congr fun s hs => (statement?_write (h s hs)).1).trans List.filterMap_some
  have hissues : lineIssues 1 (p.statements.map fun s => s.write.toList) = [] := by
    refine lineIssues_eq_nil (fun l hl => ?_) 1
    obtain ⟨s, hs, rfl⟩ := List.mem_map.1 hl
    exact (statement?_write (h s hs)).2
  unfold parse
  simp only [lines_write h, hstatements, hissues]
  rfl

end Program

/-- **What is written reads back exactly when it is well-formed.** A program is read back from its
text if and only if each of its ids, wire ends and pins is a word and each of its chip types a word
without lower-case letters that is not the keyword of a wire; then there is nothing to report. So
every program that was read from some text is written and read back without loss. -/
theorem reads_back_iff_wellFormed (p : Program) :
    ((Program.parse p.write).program = p ↔ p.WellFormed) ∧
      (p.WellFormed → (Program.parse p.write).issues = ∅) ∧
      ∀ text,
        Program.parse (Program.parse text).program.write = ⟨(Program.parse text).program, ∅⟩ := by
  refine ⟨⟨fun h => ?_, fun h => ?_⟩, fun h => ?_, fun text => ?_⟩
  · exact h ▸ Program.wellFormed_parse p.write
  · rw [Program.parse_write h]
  · rw [Program.parse_write h]
  · exact Program.parse_write (Program.wellFormed_parse text)

/-- Names that look like keywords and numbers are told by where they stand: a chip `wire` of a type
whose letters have no case here, placed at the far corners, and a wire to it from a pin that looks
like a coordinate. -/
def oddNames : Program where
  statements := [.part ⟨"wire", "É-ß", some ⟨Int64.minValue, Int64.maxValue⟩⟩,
    .part ⟨"WIRE", "INPUT", none⟩, .wire ⟨"WIRE", "wire", .both "-7" "+"⟩]

theorem reads_back_oddNames :
    oddNames.write = "É-ß wire -9223372036854775808 9223372036854775807\nINPUT WIRE\n" ++
        "WIRE WIRE wire -7 +\n" ∧
      (Program.parse oddNames.write).program = oddNames ∧
      (Program.parse oddNames.write).issues = ∅ ∧
      ¬Program.WellFormed ⟨[.part ⟨"n", "wire", none⟩]⟩ := by
  have hnames : oddNames.WellFormed := by decide +kernel
  obtain ⟨hback, hclean, -⟩ := reads_back_iff_wellFormed oddNames
  exact ⟨by decide +kernel, hback.2 hnames, hclean hnames, by decide +kernel⟩

end Breadboard
