import CourseQuery.Text.Blank

/-!
# What is not blank

No digit is blank, and a text without a blank is kept whole when the blanks at its ends are dropped.
-/

set_option autoImplicit false

namespace CourseQuery.Text

/-- A digit is not blank. -/
theorem isBlank_of_isDigit {c : Char} (h : c.isDigit = true) : isBlank c = false := by
  have hrange : 48 ≤ c.toNat ∧ c.toNat ≤ 57 := by
    simpa [Char.isDigit, UInt32.le_iff_toNat_le] using h
  refine Bool.eq_false_iff.2 fun hblank => ?_
  simp only [isBlank, blankRanges, List.any_cons, List.any_nil, Bool.or_eq_true,
    Bool.and_eq_true, decide_eq_true_eq, Bool.or_false] at hblank
  omega

/-- Characters of which none is blank are not trimmed. -/
theorem trimChars_of_not_blank {s : List Char} (h : ∀ c ∈ s, isBlank c = false) :
    trimChars s = s := by
  have hdrop : ∀ l : List Char, (∀ c ∈ l, isBlank c = false) → l.dropWhile isBlank = l := by
    intro l hl
    cases l with
    | nil => rfl
    | cons c l => simp [hl c List.mem_cons_self]
  rw [trimChars, hdrop s h, hdrop s.reverse (by simpa using h), List.reverse_reverse]

/-- A text without blanks is not trimmed. -/
theorem trim_of_not_blank {s : List Char} (h : ∀ c ∈ s, isBlank c = false) :
    trim (String.ofList s) = String.ofList s := by
  rw [trim, String.toList_ofList, trimChars_of_not_blank h]

end CourseQuery.Text
