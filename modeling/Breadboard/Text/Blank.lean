/-!
# Blanks and words

`isBlank` is the Unicode property White_Space: 25 code points. `words` cuts a text into its
maximal runs of characters that are not blank.

Results:
* `words_append_blank`: a word in front of a blank is the first word, and the others are those of
  the rest;
* `words_of_forall_not_blank`: a text without a blank is one word;
* `not_blank_of_mem_words`, `ne_nil_of_mem_words`: no word is empty or holds a blank;
* `words_intercalate`: words with single spaces between them are read back.
-/

namespace Breadboard.Text

/-- The Unicode property White_Space. -/
def isBlank (c : Char) : Bool :=
  let n := c.toNat
  (0x09 ≤ n && n ≤ 0x0D) || n == 0x20 || n == 0x85 || n == 0xA0 || n == 0x1680 ||
    (0x2000 ≤ n && n ≤ 0x200A) || n == 0x2028 || n == 0x2029 || n == 0x202F || n == 0x205F ||
    n == 0x3000

/-- The word the text begins with (empty if it begins with a blank) and the words after it. -/
def splitWords : List Char → List Char × List (List Char)
  | [] => ([], [])
  | c :: cs =>
    let (w, ws) := splitWords cs
    if isBlank c then ([], if w.isEmpty then ws else w :: ws) else (c :: w, ws)

/-- The maximal runs of characters that are not blank, in order. -/
def words (cs : List Char) : List (List Char) :=
  let (w, ws) := splitWords cs
  if w.isEmpty then ws else w :: ws

/-- At least one character, and none of them blank. -/
def IsWord (w : List Char) : Prop := w ≠ [] ∧ ∀ c ∈ w, isBlank c = false

-- the characters are checked one by one; that there are finitely many is no way to decide it
instance (w : List Char) : Decidable (IsWord w) :=
  have : Decidable (∀ c ∈ w, isBlank c = false) := w.decidableBAll _
  inferInstanceAs (Decidable (w ≠ [] ∧ _))

/-! ## Lemmas -/

@[simp] theorem words_nil : words [] = [] := rfl

theorem splitWords_append {w : List Char} (h : ∀ c ∈ w, isBlank c = false) (cs : List Char) :
    splitWords (w ++ cs) = (w ++ (splitWords cs).1, (splitWords cs).2) := by
  induction w with
  | nil => rfl
  | cons c w ih =>
    have hw := ih fun d hd => h d (List.mem_cons_of_mem _ hd)
    simp [splitWords, h c List.mem_cons_self, hw]

/-- **The first word ends at the first blank.** -/
theorem words_append_blank {w : List Char} (hw : w ≠ []) (h : ∀ c ∈ w, isBlank c = false)
    {b : Char} (hb : isBlank b = true) (cs : List Char) :
    words (w ++ b :: cs) = w :: words cs := by
  simp [words, splitWords_append h, splitWords, hb, hw]

theorem words_of_forall_not_blank {w : List Char} (hw : w ≠ [])
    (h : ∀ c ∈ w, isBlank c = false) : words w = [w] := by
  have := splitWords_append h []
  rw [List.append_nil] at this
  simp [words, this, splitWords, hw]

theorem splitWords_spec (cs : List Char) :
    (∀ c ∈ (splitWords cs).1, isBlank c = false) ∧
      ∀ w ∈ (splitWords cs).2, w ≠ [] ∧ ∀ c ∈ w, isBlank c = false := by
  induction cs with
  | nil => simp [splitWords]
  | cons c cs ih =>
    by_cases hc : isBlank c = true
    · by_cases hw : (splitWords cs).1 = []
      · simpa [splitWords, hc, hw] using ih.2
      · have := ih.1
        simpa [splitWords, hc, hw] using ⟨this, ih.2⟩
    · simpa [splitWords, hc] using ih

theorem ne_nil_of_mem_words {cs w : List Char} (h : w ∈ words cs) : w ≠ [] := by
  have hs := splitWords_spec cs
  simp only [words] at h
  split at h
  · exact (hs.2 w h).1
  · rename_i hw
    rcases List.mem_cons.1 h with rfl | h
    · simpa using hw
    · exact (hs.2 w h).1

theorem not_blank_of_mem_words {cs w : List Char} (h : w ∈ words cs) :
    ∀ c ∈ w, isBlank c = false := by
  have hs := splitWords_spec cs
  simp only [words] at h
  split at h
  · exact (hs.2 w h).2
  · rcases List.mem_cons.1 h with rfl | h
    · exact hs.1
    · exact (hs.2 w h).2

theorem isWord_of_mem_words {cs w : List Char} (h : w ∈ words cs) : IsWord w :=
  ⟨ne_nil_of_mem_words h, not_blank_of_mem_words h⟩

/-- **Words with single spaces between them are the words of the text.** -/
theorem words_intercalate {ws : List (List Char)} (h : ∀ w ∈ ws, IsWord w) :
    words ([' '].intercalate ws) = ws := by
  induction ws with
  | nil => rfl
  | cons w rest ih =>
    obtain ⟨hne, hfull⟩ := h w List.mem_cons_self
    have hrest := ih fun v hv => h v (List.mem_cons_of_mem w hv)
    cases rest with
    | nil =>
      rw [List.intercalate_singleton]
      exact words_of_forall_not_blank hne hfull
    | cons v rest =>
      rw [List.intercalate_cons_cons, List.append_assoc, List.singleton_append,
        words_append_blank hne hfull (by decide), hrest]

/-- Between words there is nothing but spaces. -/
theorem eq_space_of_mem_intercalate {ws : List (List Char)} {c : Char}
    (hc : c ∈ [' '].intercalate ws) : c = ' ' ∨ ∃ w ∈ ws, c ∈ w := by
  induction ws with
  | nil => exact absurd hc List.not_mem_nil
  | cons w rest ih =>
    cases rest with
    | nil =>
      rw [List.intercalate_singleton] at hc
      exact Or.inr ⟨w, List.mem_cons_self, hc⟩
    | cons v rest =>
      rw [List.intercalate_cons_cons, List.mem_append, List.mem_append, List.mem_singleton] at hc
      rcases hc with (hc | rfl) | hc
      · exact Or.inr ⟨w, List.mem_cons_self, hc⟩
      · exact Or.inl rfl
      · rcases ih hc with rfl | ⟨u, hu, hc⟩
        · exact Or.inl rfl
        · exact Or.inr ⟨u, List.mem_cons_of_mem w hu, hc⟩

/-- The upper case of what is no blank is none. -/
theorem isBlank_toUpper {c : Char} (h : isBlank c = false) : isBlank c.toUpper = false := by
  delta Char.toUpper
  split
  · rename_i hlower
    simp only [UInt32.le_iff_toNat_le] at hlower
    simp only [isBlank, Char.toNat, UInt32.toNat_add]
    simp at hlower ⊢
    omega
  · exact h

end Breadboard.Text
