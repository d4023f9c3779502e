/-!
# Upper case

Chip types and the keyword of a wire are compared without regard to the case of the letters `a` to
`z`. No other letter has a case here, so `upper` never changes the length of a name.
-/

namespace Breadboard.Text

/-- The text with the letters `a` to `z` in upper case. -/
def upper (s : String) : String := String.ofList (s.toList.map Char.toUpper)

/-! ## Lemmas -/

theorem toUpper_toUpper (c : Char) : c.toUpper.toUpper = c.toUpper := by
  delta Char.toUpper
  split
  · rename_i h
    split
    · rename_i h'
      exfalso
      simp only [UInt32.le_iff_toNat_le, UInt32.toNat_sub, UInt32.toNat_add] at h h'
      simp at h h'
      omega
    · rfl
  · rfl

/-- **Folding twice is folding once.** -/
@[simp] theorem upper_upper (s : String) : upper (upper s) = upper s := by
  rw [upper, upper, String.toList_ofList, List.map_map]
  exact congrArg String.ofList (List.map_congr_left fun c _ => toUpper_toUpper c)

theorem isLower_toUpper (c : Char) : c.toUpper.isLower = false := by
  delta Char.isLower Char.toUpper
  split <;> grind [UInt32.toNat_add]

theorem toUpper_of_isLower {c : Char} (h : c.isLower = false) : c.toUpper = c := by
  delta Char.isLower at h
  simp only [Bool.and_eq_false_iff, decide_eq_false_iff_not] at h
  delta Char.toUpper
  rw [dif_neg fun hlower => h.elim (fun hl => hl hlower.1) fun hr => hr hlower.2]

/-- **A text is in upper case when it has no letter from `a` to `z`.** -/
theorem upper_eq_self_iff (s : String) : upper s = s ↔ ∀ c ∈ s.toList, c.isLower = false := by
  rw [upper, ← String.toList_inj, String.toList_ofList]
  constructor
  · intro h c hc
    have hc : c.toUpper = c := List.map_inj_left.1 (h.trans (List.map_id _).symm) c hc
    exact hc ▸ isLower_toUpper c
  · intro h
    have hsame : ∀ c ∈ s.toList, c.toUpper = id c := fun c hc => toUpper_of_isLower (h c hc)
    rw [List.map_congr_left hsame, List.map_id]

end Breadboard.Text
