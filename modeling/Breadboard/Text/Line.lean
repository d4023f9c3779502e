/-!
# Lines

A line ends at a line feed, and a carriage return directly before the line feed belongs to the
line's end. Text after the last line feed is a line of its own if there is any; a carriage return
at its end is part of that line.
-/

namespace Breadboard.Text

/-- The lines of a text, without their ends. -/
def lines : List Char → List (List Char)
  | [] => []
  | '\n' :: cs => [] :: lines cs
  | '\r' :: '\n' :: cs => [] :: lines cs
  | c :: cs =>
    match lines cs with
    | [] => [[c]]
    | l :: ls => (c :: l) :: ls

/-! ## Lemmas -/

@[simp] theorem lines_nil : lines [] = [] := rfl

@[simp] theorem lines_newline (cs : List Char) : lines ('\n' :: cs) = [] :: lines cs := by
  rw [lines]

/-- **A text without a line feed or carriage return, in front of a line feed, is one line.** -/
theorem lines_append_newline {l : List Char} (h : ∀ c ∈ l, c ≠ '\n' ∧ c ≠ '\r')
    (cs : List Char) : lines (l ++ '\n' :: cs) = l :: lines cs := by
  induction l with
  | nil => simp
  | cons c l ih =>
    have hc := h c List.mem_cons_self
    have hl := ih fun d hd => h d (List.mem_cons_of_mem _ hd)
    rw [List.cons_append, lines, hl]
    · exact hc.1
    · rintro _ rfl
      exact absurd rfl hc.2

/-- **Lines are read back**, each in front of its line feed. -/
theorem lines_flatMap_newline {ls : List (List Char)}
    (h : ∀ l ∈ ls, ∀ c ∈ l, c ≠ '\n' ∧ c ≠ '\r') : lines (ls.flatMap (· ++ ['\n'])) = ls := by
  induction ls with
  | nil => rfl
  | cons l rest ih =>
    rw [List.flatMap_cons, List.append_assoc, List.singleton_append,
      lines_append_newline (h l List.mem_cons_self),
      ih fun l' hl => h l' (List.mem_cons_of_mem l hl)]

end Breadboard.Text
