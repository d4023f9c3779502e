import Breadboard.Program.Reader
import Mathlib.Data.List.Basic

/-!
# A program is read line by line

What a line says depends on its words alone, and each line is read by itself: texts that are put
together where a line ends are read one after the other, and every line is accounted for.

* `OneLine`: a line and the ways in which it ends; `exists_pieces`: every text is a row of such
  lines, all ended but the last;
* `lines_append`, `length_lines`: where whole lines come first, and how many there are;
* `WritesInt`, `readInt64?_eq_some_iff`: what an integer of 64 bits looks like;
* `LineReads`, `lineReads_iff`: what a line of given words says, as rules;
* `lineIssues_eq_filterMap`: the issues, line by line with their numbers;
* **`reads_line_by_line`**: all of it, for every text.
-/

namespace Breadboard

namespace Text

/-! ## Lines and their ends -/

/-- Whole lines only: nothing stands behind the last line feed. -/
def IsWhole (cs : List Char) : Prop := cs = [] ∨ cs.getLast? = some '\n'

instance (cs : List Char) : Decidable (IsWhole cs) :=
  inferInstanceAs (Decidable (cs = [] ∨ cs.getLast? = some '\n'))

/-- The text is this one line: unended, or with its end. A carriage return before a line feed
belongs to the end. -/
inductive OneLine (line : List Char) : List Char → Prop
  | unended (hne : line ≠ []) (h : '\n' ∉ line) : OneLine line line
  | feed (hr : line.getLast? ≠ some '\r') (h : '\n' ∉ line) : OneLine line (line ++ ['\n'])
  | returnFeed (h : '\n' ∉ line) : OneLine line (line ++ ['\r', '\n'])

theorem IsWhole.tail {c : Char} {cs : List Char} (h : IsWhole (c :: cs)) : IsWhole cs := by
  cases cs with
  | nil => exact Or.inl rfl
  | cons d cs => exact Or.inr (h.resolve_left (by simp))

theorem IsWhole.ne_nil_of_ne {c : Char} {cs : List Char} (h : IsWhole (c :: cs)) (hc : c ≠ '\n') :
    cs ≠ [] := by
  rintro rfl
  exact absurd h (by simpa [IsWhole] using hc)

/-- Induction on a text: line ends are met as a whole, and so is every other character. -/
theorem lines_induct {P : List Char → Prop} (nil : P [])
    (feed : ∀ cs, P cs → P ('\n' :: cs)) (returnFeed : ∀ cs, P cs → P ('\r' :: '\n' :: cs))
    (other : ∀ c cs, c ≠ '\n' → (c = '\r' → cs.head? ≠ some '\n') → P cs → P (c :: cs)) :
    ∀ cs, P cs := by
  have hother : ∀ c cs, (c = '\n' → False) → (∀ cs', c = '\r' → cs = '\n' :: cs' → False) →
      P cs → P (c :: cs) := by
    intro c cs hc hcs
    refine other c cs hc fun hr hhead => ?_
    obtain ⟨cs', rfl⟩ := List.head?_eq_some_iff.1 hhead
    exact hcs cs' hr rfl
  intro cs
  induction cs using lines.induct with
  | case1 => exact nil
  | case2 cs ih => exact feed cs ih
  | case3 cs ih => exact returnFeed cs ih
  | case4 c cs hc hcs _ ih => exact hother c cs hc hcs ih
  | case5 c cs hc hcs _ _ _ ih => exact hother c cs hc hcs ih

@[simp] theorem lines_returnFeed (cs : List Char) :
    lines ('\r' :: '\n' :: cs) = [] :: lines cs := by
  rw [lines]

/-- A character that ends no line stands in front of the first line. -/
theorem lines_cons {c : Char} {cs l : List Char} {ls : List (List Char)} (hc : c ≠ '\n')
    (hcs : c = '\r' → cs.head? ≠ some '\n') (h : lines cs = l :: ls) :
    lines (c :: cs) = (c :: l) :: ls := by
  rw [lines, h]
  · exact hc
  · rintro cs' hr rfl
    exact hcs hr rfl

theorem lines_singleton {c : Char} (hc : c ≠ '\n') : lines [c] = [[c]] := by
  rw [lines]
  · rfl
  · exact hc
  · simp

theorem exists_lines_eq_cons {cs : List Char} (h : cs ≠ []) : ∃ l ls, lines cs = l :: ls := by
  refine List.exists_cons_of_ne_nil ?_
  unfold lines
  split
  · exact absurd rfl h
  · simp
  · simp
  · split <;> simp

/-- **Whole lines that come first are read first.** -/
theorem lines_append {a : List Char} (h : IsWhole a) (b : List Char) :
    lines (a ++ b) = lines a ++ lines b := by
  induction a using lines_induct with
  | nil => rfl
  | feed cs ih => simp [ih h.tail]
  | returnFeed cs ih => simp [ih h.tail.tail]
  | other c cs hc hcs ih =>
    have hne := h.ne_nil_of_ne hc
    obtain ⟨l, ls, hlines⟩ := exists_lines_eq_cons hne
    have hrest := ih h.tail
    rw [hlines, List.cons_append] at hrest
    rw [List.cons_append, lines_cons hc hcs hlines, lines_cons hc (by simpa [hne] using hcs) hrest,
      List.cons_append]

/-- There are as many whole lines as line feeds. -/
theorem length_lines {cs : List Char} (h : IsWhole cs) : (lines cs).length = cs.count '\n' := by
  induction cs using lines_induct with
  | nil => rfl
  | feed cs ih => simp [ih h.tail]
  | returnFeed cs ih => simp [ih h.tail.tail]
  | other c cs hc hcs ih =>
    obtain ⟨l, ls, hlines⟩ := exists_lines_eq_cons (h.ne_nil_of_ne hc)
    have hcount := ih h.tail
    rw [hlines] at hcount
    rw [lines_cons hc hcs hlines, List.count_cons_of_ne hc, ← hcount]
    rfl

/-- No line is without a character of the text. -/
theorem length_lines_le (cs : List Char) : (lines cs).length ≤ cs.length := by
  induction cs using lines_induct with
  | nil => exact Nat.le_refl 0
  | feed cs ih => simpa using ih
  | returnFeed cs ih =>
    simp only [lines_returnFeed, List.length_cons]
    omega
  | other c cs hc hcs ih =>
    by_cases hne : cs = []
    · subst hne
      rw [lines_singleton hc]
      exact Nat.le_refl 1
    · obtain ⟨l, ls, hlines⟩ := exists_lines_eq_cons hne
      rw [hlines] at ih
      rw [lines_cons hc hcs hlines]
      exact Nat.le_succ_of_le ih

/-- What has no line feed stands in front of the first line of what follows. -/
theorem lines_append_of_not_mem {line cs l : List Char} {ls : List (List Char)} (h : '\n' ∉ line)
    (hcs : line.getLast? = some '\r' → cs.head? ≠ some '\n') (hlines : lines cs = l :: ls) :
    lines (line ++ cs) = (line ++ l) :: ls := by
  induction line with
  | nil => exact hlines
  | cons c line ih =>
    rw [List.mem_cons, not_or] at h
    rw [List.cons_append]
    refine lines_cons (Ne.symm h.1) ?_ (ih h.2 fun hlast => hcs ?_)
    · cases line with
      | nil =>
        rintro rfl
        exact hcs rfl
      | cons d line =>
        rintro - hhead
        have hd : d = '\n' := Option.some.inj hhead
        exact h.2 (hd ▸ List.mem_cons_self)
    · cases line with
      | nil => exact absurd hlast (by simp)
      | cons d line => exact hlast

/-- **One line is read as one.** -/
theorem OneLine.lines_eq {line text : List Char} (h : OneLine line text) : lines text = [line] := by
  cases h with
  | unended hne h =>
    obtain ⟨front, last, rfl⟩ := (List.eq_nil_or_concat' line).resolve_left hne
    simp only [List.mem_append, List.mem_singleton, not_or] at h
    exact lines_append_of_not_mem h.1 (fun _ hhead => h.2 (Option.some.inj hhead).symm)
      (lines_singleton (Ne.symm h.2))
  | feed hr h =>
    have hend : lines (line ++ ['\n']) = [line ++ []] :=
      lines_append_of_not_mem h (fun hlast => absurd hlast hr) rfl
    rwa [List.append_nil] at hend
  | returnFeed h =>
    have hend : lines (line ++ ['\r', '\n']) = [line ++ []] :=
      lines_append_of_not_mem h (by simp) rfl
    rwa [List.append_nil] at hend

theorem OneLine.cons {c : Char} {line text : List Char} (h : OneLine line text) (hc : c ≠ '\n')
    (htext : c = '\r' → text.head? ≠ some '\n') : OneLine (c :: line) (c :: text) := by
  cases h with
  | unended hne h => exact .unended (by simp) (by simp [h, Ne.symm hc])
  | returnFeed h => exact .returnFeed (by simp [h, Ne.symm hc])
  | feed hr h =>
    refine .feed ?_ (by simp [h, Ne.symm hc])
    cases line with
    | nil => exact fun hlast => htext (Option.some.inj hlast) rfl
    | cons d line => exact hr

/-- **Every text is a row of lines with their ends**, and then what has no line feed. -/
theorem exists_pieces (cs : List Char) :
    ∃ (ended : List (List Char × List Char)) (last : List Char),
    cs = ended.flatMap Prod.snd ++ last ∧
      (∀ e ∈ ended, OneLine e.1 e.2 ∧ e.2.getLast? = some '\n') ∧ '\n' ∉ last := by
  induction cs using lines_induct with
  | nil => exact ⟨[], [], rfl, by simp, by simp⟩
  | feed cs ih =>
    obtain ⟨ended, last, rfl, hended, hlast⟩ := ih
    have hown : OneLine [] ['\n'] := .feed (by simp) (by simp)
    exact ⟨([], ['\n']) :: ended, last, rfl, List.forall_mem_cons.2 ⟨⟨hown, rfl⟩, hended⟩, hlast⟩
  | returnFeed cs ih =>
    obtain ⟨ended, last, rfl, hended, hlast⟩ := ih
    have hown : OneLine [] ['\r', '\n'] := .returnFeed (by simp)
    exact ⟨([], ['\r', '\n']) :: ended, last, rfl,
      List.forall_mem_cons.2 ⟨⟨hown, rfl⟩, hended⟩, hlast⟩
  | other c cs hc hcs ih =>
    obtain ⟨ended, last, rfl, hended, hlast⟩ := ih
    cases ended with
    | nil => exact ⟨[], c :: last, rfl, by simp, by simp [hlast, Ne.symm hc]⟩
    | cons e ended =>
      obtain ⟨⟨hown, hfeed⟩, hrest⟩ := List.forall_mem_cons.1 hended
      have hne : e.2 ≠ [] := fun hnil => by simp [hnil] at hfeed
      refine ⟨(c :: e.1, c :: e.2) :: ended, last, rfl,
        List.forall_mem_cons.2 ⟨⟨hown.cons hc fun hr hhead => hcs hr ?_, ?_⟩, hrest⟩, hlast⟩
      · rw [List.flatMap_cons, List.append_assoc, List.head?_append, hhead, Option.some_or]
      · rw [List.getLast?_cons, hfeed]
        rfl

/-! ## Integers of 64 bits -/

/-- The word is `i` in decimal: a sign or none, and then digits, at least one. -/
def WritesInt (w : List Char) (i : Int) : Prop :=
  ∃ digits : List Char, digits ≠ [] ∧ (∀ c ∈ digits, c.isDigit = true) ∧
    ((w = digits ∨ w = '+' :: digits) ∧ i = Nat.ofDigitChars 10 digits 0 ∨
      w = '-' :: digits ∧ i = -(Nat.ofDigitChars 10 digits 0 : Int))

theorem readNat?_eq_some_iff {cs : List Char} {n : Nat} :
    readNat? cs = some n ↔
      cs ≠ [] ∧ (∀ c ∈ cs, c.isDigit = true) ∧ n = Nat.ofDigitChars 10 cs 0 := by
  rw [readNat?, Option.ite_none_right_eq_some, List.all_eq_true, and_assoc, Option.some.injEq,
    eq_comm (b := n)]

/-- **What is read as an integer.** -/
theorem readInt?_eq_some_iff {w : List Char} {i : Int} : readInt? w = some i ↔ WritesInt w i := by
  unfold readInt? WritesInt
  split
  case h_1 cs =>
    rw [Option.map_eq_some_iff]
    constructor
    · rintro ⟨_, hm, rfl⟩
      obtain ⟨n, hn, hpure⟩ := Option.bind_eq_some_iff.1 hm
      cases hpure
      obtain ⟨hne, hall, rfl⟩ := readNat?_eq_some_iff.1 hn
      exact ⟨cs, hne, hall, Or.inr ⟨rfl, rfl⟩⟩
    · rintro ⟨digits, hne, hall, ⟨rfl | heq, -⟩ | ⟨heq, rfl⟩⟩
      · exact absurd (hall '-' List.mem_cons_self) (by decide)
      · exact absurd (List.cons.inj heq).1 (by decide)
      · obtain ⟨-, rfl⟩ := List.cons.inj heq
        exact ⟨_, Option.bind_eq_some_iff.2 ⟨_, readNat?_eq_some_iff.2 ⟨hne, hall, rfl⟩, rfl⟩, rfl⟩
  case h_2 cs =>
    rw [Option.map_eq_some_iff]
    constructor
    · rintro ⟨n, hn, rfl⟩
      obtain ⟨hne, hall, rfl⟩ := readNat?_eq_some_iff.1 hn
      exact ⟨cs, hne, hall, Or.inl ⟨Or.inr rfl, rfl⟩⟩
    · rintro ⟨digits, hne, hall, ⟨rfl | heq, rfl⟩ | ⟨heq, -⟩⟩
      · exact absurd (hall '+' List.mem_cons_self) (by decide)
      · obtain ⟨-, rfl⟩ := List.cons.inj heq
        exact ⟨_, readNat?_eq_some_iff.2 ⟨hne, hall, rfl⟩, rfl⟩
      · exact absurd (List.cons.inj heq).1 (by decide)
  case h_3 hminus hplus =>
    rw [Option.map_eq_some_iff]
    constructor
    · rintro ⟨n, hn, rfl⟩
      obtain ⟨hne, hall, rfl⟩ := readNat?_eq_some_iff.1 hn
      exact ⟨w, hne, hall, Or.inl ⟨Or.inl rfl, rfl⟩⟩
    · rintro ⟨digits, hne, hall, ⟨rfl | heq, rfl⟩ | ⟨heq, -⟩⟩
      · exact ⟨_, readNat?_eq_some_iff.2 ⟨hne, hall, rfl⟩, rfl⟩
      · exact absurd heq (hplus digits)
      · exact absurd heq (hminus digits)

/-- An integer of 64 bits is one that is as big as some word. -/
theorem int64?_eq_some_iff {i : Int} {x : Int64} : int64? i = some x ↔ x.toInt = i := by
  constructor
  · intro h
    rw [int64?, Option.ite_none_right_eq_some] at h
    obtain ⟨⟨hmin, hmax⟩, h⟩ := h
    cases h
    have hlow : Int64.minValue.toInt = -2 ^ 63 := by decide
    have hhigh : Int64.maxValue.toInt = 2 ^ 63 - 1 := by decide
    exact Int64.toInt_ofInt_of_le (by omega) (by omega)
  · rintro rfl
    exact int64?_toInt x

theorem readInt64?_eq_some_iff {w : List Char} {x : Int64} :
    readInt64? w = some x ↔ WritesInt w x.toInt := by
  simp only [readInt64?, Option.bind_eq_some_iff, readInt?_eq_some_iff, int64?_eq_some_iff]
  constructor
  · rintro ⟨i, hi, rfl⟩
    exact hi
  · exact fun h => ⟨_, h, rfl⟩

end Text

/-- The issue as it is where the text begins `n` lines earlier. -/
def LineIssue.raise (n : Nat) (issue : LineIssue) : LineIssue :=
  { issue with line := issue.line + .ofNat n }

namespace Program

open Text

/-! ## What a line says -/

/-- What a line with the given words says, `text` being the line itself: the statement it makes, and
what there is to report about it. -/
inductive LineReads (text : String) :
    List (List Char) → Option Statement → Option LineProblem → Prop
  /-- A blank line. -/
  | blank : LineReads text [] none none
  | lone {word} : LineReads text [word] none (some (.tooFewTokens text))
  /-- A wire without a target. -/
  | half {keyword source} (hk : upper (.ofList keyword) = wireKeyword) :
    LineReads text [keyword, source] none (some (.tooFewTokens text))
  | implicit {keyword source target} (hk : upper (.ofList keyword) = wireKeyword) :
    LineReads text [keyword, source, target]
      (some (.wire ⟨.ofList source, .ofList target, .implicit⟩)) none
  | ambiguous {keyword source target pin} (hk : upper (.ofList keyword) = wireKeyword) :
    LineReads text [keyword, source, target, pin]
      (some (.wire ⟨.ofList source, .ofList target, .ambiguous (.ofList pin)⟩)) none
  /-- Any words after the two pins are ignored. -/
  | both {keyword source target sourcePin targetPin rest}
    (hk : upper (.ofList keyword) = wireKeyword) :
    LineReads text (keyword :: source :: target :: sourcePin :: targetPin :: rest)
      (some (.wire ⟨.ofList source, .ofList target,
        .both (.ofList sourcePin) (.ofList targetPin)⟩)) none
  /-- An instance without coordinates. -/
  | part {chip id} (hk : upper (.ofList chip) ≠ wireKeyword) :
    LineReads text [chip, id] (some (.part ⟨.ofList id, upper (.ofList chip), none⟩)) none
  /-- Any words after the two coordinates are ignored. -/
  | placed {chip id x y rest} {pos : Position} (hk : upper (.ofList chip) ≠ wireKeyword)
    (hx : WritesInt x pos.x.toInt) (hy : WritesInt y pos.y.toInt) :
    LineReads text (chip :: id :: x :: y :: rest)
      (some (.part ⟨.ofList id, upper (.ofList chip), some pos⟩)) none
  /-- Words where the coordinates should be, and no two integers of 64 bits. -/
  | unplaced {chip id x rest} (hk : upper (.ofList chip) ≠ wireKeyword)
    (h : ∀ (pos : Position) (y : List Char), rest.head? = some y →
      ¬(WritesInt x pos.x.toInt ∧ WritesInt y pos.y.toInt)) :
    LineReads text (chip :: id :: x :: rest)
      (some (.part ⟨.ofList id, upper (.ofList chip), none⟩))
      (some (.invalidCoordinates text))

theorem isWireKeyword_iff {word : List Char} :
    isWireKeyword word = true ↔ upper (.ofList word) = wireKeyword := beq_iff_eq

/-- **There is a position where two integers of 64 bits come first.** -/
theorem position?_cons_eq_some_iff {x : List Char} {rest : List (List Char)} {pos : Position} :
    position? (x :: rest) = some pos ↔
      ∃ y, rest.head? = some y ∧ WritesInt x pos.x.toInt ∧ WritesInt y pos.y.toInt := by
  cases rest with
  | nil => simp [position?]
  | cons y rest =>
    obtain ⟨px, py⟩ := pos
    simp [position?, ← readInt64?_eq_some_iff, Option.bind_eq_some_iff]

/-- **A line says what the rules say**, and nothing else. -/
theorem lineReads_iff {line : List Char} {s : Option Statement} {p : Option LineProblem} :
    LineReads (.ofList line) (words line) s p ↔ statement? line = s ∧ problem? line = p := by
  generalize hws : words line = ws
  constructor
  · intro h
    cases h with
    | blank => simp [statement?, problem?, hws]
    | lone => simp [statement?, problem?, hws]
    | half hk => simp [statement?, problem?, hws, wire?, isWireKeyword_iff.2 hk]
    | implicit hk => simp [statement?, problem?, hws, wire?, isWireKeyword_iff.2 hk]
    | ambiguous hk => simp [statement?, problem?, hws, wire?, isWireKeyword_iff.2 hk]
    | both hk => simp [statement?, problem?, hws, wire?, isWireKeyword_iff.2 hk]
    | part hk => simp [statement?, problem?, hws, position?, mt isWireKeyword_iff.1 hk]
    | @placed _ _ x y rest pos hk hx hy =>
      have hpos : position? (x :: y :: rest) = some pos :=
        position?_cons_eq_some_iff.2 ⟨y, rfl, hx, hy⟩
      simp [statement?, problem?, hws, hpos, mt isWireKeyword_iff.1 hk]
    | unplaced hk hno =>
      have hpos : position? _ = none := Option.eq_none_iff_forall_ne_some.2 fun pos hpos =>
        let ⟨y, hy, hwrites⟩ := position?_cons_eq_some_iff.1 hpos
        hno pos y hy hwrites
      simp [statement?, problem?, hws, hpos, mt isWireKeyword_iff.1 hk]
  · rintro ⟨rfl, rfl⟩
    unfold statement? problem?
    rw [hws]
    rcases ws with _ | ⟨word, _ | ⟨id, rest⟩⟩
    · exact .blank
    · exact .lone
    · by_cases hk : isWireKeyword word = true
      · have hkey := isWireKeyword_iff.1 hk
        simp only [hk, if_true]
        rcases rest with _ | ⟨target, _ | ⟨pin, _ | ⟨targetPin, rest⟩⟩⟩
        · exact .half hkey
        · exact .implicit hkey
        · exact .ambiguous hkey
        · exact .both hkey
      · have hkey := mt isWireKeyword_iff.2 hk
        simp only [hk]
        rcases rest with _ | ⟨x, rest⟩
        · exact .part hkey
        · cases hpos : position? (x :: rest) with
          | none =>
            refine .unplaced hkey fun pos y hy hwrites => ?_
            have := position?_cons_eq_some_iff.2 ⟨y, hy, hwrites⟩
            simp [hpos] at this
          | some pos =>
            obtain ⟨y, hy, hx, hy'⟩ := position?_cons_eq_some_iff.1 hpos
            obtain ⟨rest, rfl⟩ := List.head?_eq_some_iff.1 hy
            exact .placed hkey hx hy'

/-! ## The issues and their lines -/

/-- The numbers of the lines with something to report, the first line being number `n`. -/
def reportedLines (n : Nat) (ls : List (List Char)) : List Nat :=
  ((ls.zipIdx n).filter fun l => (problem? l.1).isSome).map Prod.snd

/-- **The issues, line by line.** -/
theorem lineIssues_eq_filterMap (ls : List (List Char)) (n : Nat) :
    lineIssues n ls =
      (ls.zipIdx n).filterMap fun l => (problem? l.1).map (⟨.ofNat l.2, ·, .info⟩) := by
  induction ls generalizing n with
  | nil => rfl
  | cons line ls ih =>
    rw [lineIssues, List.zipIdx_cons, List.filterMap_cons, ← ih (n + 1)]
    cases problem? line <;> rfl

theorem lineIssues_append (a b : List (List Char)) (n : Nat) :
    lineIssues n (a ++ b) = lineIssues n a ++ lineIssues (n + a.length) b := by
  simp only [lineIssues_eq_filterMap, List.zipIdx_append, List.filterMap_append]

/-- Lines that come later have the same issues, with later numbers. -/
theorem lineIssues_add (ls : List (List Char)) (n m : Nat) :
    lineIssues (n + m) ls = (lineIssues n ls).map (LineIssue.raise m) := by
  induction ls generalizing n with
  | nil => rfl
  | cons line ls ih =>
    have hrest := ih (n + 1)
    rw [Nat.add_right_comm] at hrest
    rw [lineIssues, lineIssues, hrest]
    cases problem? line with
    | none => rfl
    | some cause => simp [LineIssue.raise, UInt64.ofNat_add]

theorem map_line_lineIssues (ls : List (List Char)) (n : Nat) :
    (lineIssues n ls).map LineIssue.line = (reportedLines n ls).map UInt64.ofNat := by
  induction ls generalizing n with
  | nil => rfl
  | cons line ls ih =>
    have hrest := ih (n + 1)
    rw [reportedLines] at hrest
    rw [lineIssues, reportedLines, List.zipIdx_cons, List.filter_cons]
    cases problem? line with
    | none => exact hrest
    | some cause => exact congrArg (UInt64.ofNat n :: ·) hrest

theorem reportedLines_sublist (ls : List (List Char)) (n : Nat) :
    (reportedLines n ls).Sublist (List.range' n ls.length) := by
  rw [← List.zipIdx_map_snd n ls]
  exact List.filter_sublist.map Prod.snd

/-- **No line is reported twice**, and lines are reported in their order. -/
theorem reportedLines_pairwise (ls : List (List Char)) (n : Nat) :
    (reportedLines n ls).Pairwise (· < ·) := by
  have hall : (List.range' n ls.length).Pairwise (· < ·) := List.pairwise_lt_range'
  exact hall.sublist (reportedLines_sublist ls n)

theorem bounds_of_mem_reportedLines {ls : List (List Char)} {n k : Nat}
    (h : k ∈ reportedLines n ls) : n ≤ k ∧ k < n + ls.length :=
  List.mem_range'_1.1 ((reportedLines_sublist ls n).mem h)

/-- Line numbers increase as 64-bit numbers, too, where the lines are not more than these. -/
theorem lineIssues_pairwise {ls : List (List Char)} {n : Nat} (h : n + ls.length ≤ UInt64.size) :
    (lineIssues n ls).Pairwise (·.line < ·.line) := by
  rw [← List.pairwise_map, map_line_lineIssues, List.pairwise_map]
  refine (reportedLines_pairwise ls n).imp_of_mem fun {j k} _ hk hlt => ?_
  have hbound := (bounds_of_mem_reportedLines hk).2
  rw [UInt64.lt_iff_toNat_lt, UInt64.toNat_ofNat_of_lt' (by omega),
    UInt64.toNat_ofNat_of_lt' (by omega)]
  exact hlt

/-! ## The reader -/

/-- **A program is read line by line.** Of a text that begins with whole lines, these are read by
themselves first, and then the rest, as if it began the text, except that its lines have later
numbers. Every text is a row of lines, each with its end, and then what has no line feed. A text of
one line makes the statement and has the issue that the rules say for the words of that line. What
is reported, is reported with the numbers of ever later lines. -/
theorem reads_line_by_line :
    (∀ a b : String, IsWhole a.toList →
      (parse (a ++ b)).program.statements =
          (parse a).program.statements ++ (parse b).program.statements ∧
        (parse (a ++ b)).issues.issues = (parse a).issues.issues ++
          (parse b).issues.issues.map (LineIssue.raise (a.toList.count '\n'))) ∧
    (∀ text : String, ∃ (ended : List (List Char × List Char)) (last : List Char),
      text.toList = ended.flatMap Prod.snd ++ last ∧
        (∀ e ∈ ended, OneLine e.1 e.2 ∧ e.2.getLast? = some '\n') ∧ '\n' ∉ last) ∧
    (∀ line text : List Char, OneLine line text → ∃ s p,
      LineReads (.ofList line) (words line) s p ∧
        (parse (.ofList text)).program.statements = s.toList ∧
        (parse (.ofList text)).issues.issues = p.toList.map (⟨1, ·, .info⟩)) ∧
    (∀ text : String, ∃ numbers : List Nat,
      (parse text).issues.issues.map LineIssue.line = numbers.map UInt64.ofNat ∧
        numbers.Pairwise (· < ·) ∧ ∀ k ∈ numbers, 1 ≤ k ∧ k ≤ (lines text.toList).length) ∧
    ∀ text : String, text.length < UInt64.size →
      (parse text).issues.issues.Pairwise (·.line < ·.line) := by
  refine ⟨fun a b ha => ?_, fun text => exists_pieces text.toList, fun line text h => ?_,
    fun text => ?_, fun text h => ?_⟩
  · simp only [parse, IssueSet.issues_ofList, String.toList_append, lines_append ha,
      List.filterMap_append, lineIssues_append, true_and]
    rw [length_lines ha, lineIssues_add]
  · refine ⟨statement? line, problem? line, lineReads_iff.2 ⟨rfl, rfl⟩, ?_, ?_⟩
    · simp only [parse, String.toList_ofList, h.lines_eq]
      cases hs : statement? line <;> simp [hs]
    · simp only [parse, String.toList_ofList, h.lines_eq, IssueSet.issues_ofList]
      cases hp : problem? line <;> simp [hp, lineIssues]
  · refine ⟨reportedLines 1 (lines text.toList), ?_, reportedLines_pairwise _ _, fun k hk => ?_⟩
    · rw [parse, IssueSet.issues_ofList, map_line_lineIssues]
    · have hbounds := bounds_of_mem_reportedLines hk
      omega
  · have hlength := length_lines_le text.toList
    rw [String.length_toList] at hlength
    rw [parse, IssueSet.issues_ofList]
    exact lineIssues_pairwise (by omega)

/-- Of four lines, one ends with a carriage return, one is a wire without a target, and one has a
coordinate that is too big. -/
theorem reads_line_by_line_mixedEnds :
    let a := "INPUT a 3 -4\r\nwire a\n"
    let b := "Wire a n OUT In extra\nnot n 9223372036854775808 0"
    IsWhole a.toList ∧ (a ++ b).length < UInt64.size ∧
    (parse (a ++ b)).program.statements =
      [.part ⟨"a", "INPUT", some ⟨3, -4⟩⟩, .wire ⟨"a", "n", .both "OUT" "In"⟩,
        .part ⟨"n", "NOT", none⟩] ∧
    (parse (a ++ b)).issues.issues.map LineIssue.line = [2, 4] ∧
    (parse (a ++ b)).issues.issues.Pairwise (·.line < ·.line) ∧
    ∃ s p, LineReads "wire a" (words "wire a".toList) s p ∧
      (parse "wire a\n").program.statements = s.toList ∧
      (parse "wire a\n").issues.issues = p.toList.map (⟨1, ·, .info⟩) := by
  intro a b
  have ha : IsWhole a.toList := by decide +kernel
  have hlength : (a ++ b).length < UInt64.size := by decide +kernel
  have hone : OneLine "wire a".toList "wire a\n".toList := .feed (by decide) (by decide)
  obtain ⟨hstatements, hissues⟩ := reads_line_by_line.1 a b ha
  obtain ⟨s, p, hreads, hs, hp⟩ := reads_line_by_line.2.2.1 _ _ hone
  refine ⟨ha, hlength, hstatements.trans (by decide +kernel), ?_,
    reads_line_by_line.2.2.2.2 _ hlength, s, p, ?_, ?_, ?_⟩
  · rw [hissues]
    decide +kernel
  · simpa using hreads
  · simpa using hs
  · simpa using hp

end Program

end Breadboard
