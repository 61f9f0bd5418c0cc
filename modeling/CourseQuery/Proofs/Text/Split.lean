import CourseQuery.Text.Split

/-!
# Splitting undoes joining

The parts of a list are its one division into parts without the mark that are joined by the mark
(`split_eq_iff`). So what is read column by column or line by line can be told from what was written
there, and the other way round.
-/

set_option autoImplicit false

namespace CourseQuery.Text

variable {α : Type} [DecidableEq α] {mark : α} {s front rest : List α} {parts : List (List α)}

/-- Splitting from within a part gives at least one part. -/
theorem splitFrom_ne_nil (mark : α) (part s : List α) : splitFrom mark part s ≠ [] := by
  fun_induction splitFrom mark part s with
  | case1 => exact List.cons_ne_nil _ _
  | case2 => exact List.cons_ne_nil _ _
  | case3 _ _ _ _ ih => exact ih

/-- Splitting gives at least one part. -/
theorem split_ne_nil (mark : α) (s : List α) : split mark s ≠ [] :=
  splitFrom_ne_nil mark [] s

/-- Without a mark there is one part. -/
theorem split_of_not_mem (part s : List α) (h : mark ∉ s) :
    splitFrom mark part s = [part.reverse ++ s] := by
  induction s generalizing part with
  | nil => rw [splitFrom, List.append_nil]
  | cons c s ih =>
    rw [List.mem_cons, not_or] at h
    rw [splitFrom, if_neg (Ne.symm h.1), ih (c :: part) h.2, List.reverse_cons,
      List.append_assoc, List.singleton_append]

/-- The part at hand goes up to the first mark. -/
theorem splitFrom_append_cons (part rest : List α) (h : mark ∉ front) :
    splitFrom mark part (front ++ mark :: rest) =
      (part.reverse ++ front) :: splitFrom mark [] rest := by
  induction front generalizing part with
  | nil => rw [List.nil_append, splitFrom, if_pos rfl, List.append_nil]
  | cons c front ih =>
    rw [List.mem_cons, not_or] at h
    rw [List.cons_append, splitFrom, if_neg (Ne.symm h.1), ih (c :: part) h.2, List.reverse_cons,
      List.append_assoc, List.singleton_append]

/-- A text without marks in front of one is the first part. -/
theorem split_append_cons (rest : List α) (h : mark ∉ front) :
    split mark (front ++ mark :: rest) = front :: split mark rest :=
  splitFrom_append_cons [] rest h

/-- A mark ends the parts in front of it, however many these are. -/
theorem split_append_mark (mark : α) (s rest : List α) :
    split mark (s ++ mark :: rest) = split mark s ++ split mark rest := by
  have hfrom : ∀ part, splitFrom mark part (s ++ mark :: rest) =
      splitFrom mark part s ++ split mark rest := by
    induction s with
    | nil =>
      intro part
      rw [List.nil_append, splitFrom, splitFrom, if_pos rfl]
      rfl
    | cons c s ih =>
      intro part
      rw [List.cons_append, splitFrom, splitFrom]
      split
      · rw [ih, List.cons_append]
      · rw [ih]
  exact hfrom []

/-- No part holds a mark. -/
theorem not_mem_of_mem_splitFrom {part p : List α} (hpart : mark ∉ part)
    (hp : p ∈ splitFrom mark part s) : mark ∉ p := by
  induction s generalizing part with
  | nil =>
    rw [splitFrom, List.mem_singleton] at hp
    rw [hp, List.mem_reverse]
    exact hpart
  | cons c s ih =>
    rw [splitFrom] at hp
    split at hp
    · rcases List.mem_cons.1 hp with rfl | hp
      · rwa [List.mem_reverse]
      · exact ih List.not_mem_nil hp
    · rename_i hc
      exact ih (List.not_mem_cons_of_ne_of_not_mem (Ne.symm hc) hpart) hp

omit [DecidableEq α] in
/-- A part in front of others is joined to them by a mark. -/
theorem intercalate_cons (p : List α) (hne : parts ≠ []) :
    List.intercalate [mark] (p :: parts) = p ++ mark :: List.intercalate [mark] parts := by
  cases parts with
  | nil => contradiction
  | cons q parts => simp [List.intercalate]

omit [DecidableEq α] in
/-- What is joined holds nothing but its parts and the mark. -/
theorem not_mem_intercalate {c : α} (hmark : c ≠ mark) (hparts : ∀ p ∈ parts, c ∉ p) :
    c ∉ List.intercalate [mark] parts := by
  induction parts with
  | nil => simp [List.intercalate]
  | cons p parts ih =>
    rw [List.forall_mem_cons] at hparts
    by_cases hnil : parts = []
    · subst hnil
      simpa [List.intercalate] using hparts.1
    · rw [intercalate_cons p hnil, List.mem_append, List.mem_cons]
      exact not_or.2 ⟨hparts.1, not_or.2 ⟨hmark, ih hparts.2⟩⟩

/-- The parts joined by marks are the text, with the part that was begun in front. -/
theorem intercalate_splitFrom (mark : α) (part s : List α) :
    List.intercalate [mark] (splitFrom mark part s) = part.reverse ++ s := by
  induction s generalizing part with
  | nil => simp [splitFrom, List.intercalate]
  | cons c s ih =>
    rw [splitFrom]
    split
    · rename_i hc
      rw [intercalate_cons _ (splitFrom_ne_nil mark [] s), ih, hc, List.reverse_nil,
        List.nil_append]
    · rw [ih, List.reverse_cons, List.append_assoc, List.singleton_append]

/-- Parts that were joined are found again by splitting. -/
theorem split_intercalate (hne : parts ≠ []) (hparts : ∀ p ∈ parts, mark ∉ p) :
    split mark (List.intercalate [mark] parts) = parts := by
  induction parts with
  | nil => contradiction
  | cons p parts ih =>
    rw [List.forall_mem_cons] at hparts
    by_cases hnil : parts = []
    · subst hnil
      have hone : List.intercalate [mark] [p] = p := by simp [List.intercalate]
      rw [hone]
      exact split_of_not_mem [] p hparts.1
    · rw [intercalate_cons p hnil, split_append_cons _ hparts.1, ih hnil hparts.2]

/-- Some parts are those of a list exactly when the list is these parts joined by the mark, and the
mark is in none of them. -/
theorem split_eq_iff :
    split mark s = parts ↔
      parts ≠ [] ∧ (∀ p ∈ parts, mark ∉ p) ∧ List.intercalate [mark] parts = s := by
  constructor
  · rintro rfl
    exact ⟨split_ne_nil mark s, fun p hp => not_mem_of_mem_splitFrom List.not_mem_nil hp,
      intercalate_splitFrom mark [] s⟩
  · rintro ⟨hne, hparts, rfl⟩
    exact split_intercalate hne hparts

/-- What is in front of the first mark makes no difference to the parts behind it. -/
theorem drop_one_split_append (hfront : mark ∉ front) (rest : List α) :
    (split mark (front ++ rest)).drop 1 = (split mark rest).drop 1 := by
  obtain ⟨first, more, hsplit⟩ := List.exists_cons_of_ne_nil (split_ne_nil mark rest)
  obtain ⟨-, hparts, hjoined⟩ := split_eq_iff.1 hsplit
  rw [List.forall_mem_cons] at hparts
  have happend : split mark (front ++ rest) = (front ++ first) :: more := by
    refine split_eq_iff.2 ⟨List.cons_ne_nil _ _, List.forall_mem_cons.2 ⟨?_, hparts.2⟩, ?_⟩
    · rw [List.mem_append]
      exact not_or.2 ⟨hfront, hparts.1⟩
    · rw [← hjoined]
      by_cases hnil : more = []
      · subst hnil
        simp [List.intercalate]
      · rw [intercalate_cons _ hnil, intercalate_cons _ hnil, List.append_assoc]
  rw [happend, hsplit]
  rfl

end CourseQuery.Text
