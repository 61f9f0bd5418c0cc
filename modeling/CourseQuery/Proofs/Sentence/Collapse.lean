import CourseQuery.Proofs.Sentence.Quotes

/-!
# Runs of blanks as one space

Two texts are the same up to their runs of blanks when they are the same with each run collapsed to
one space. A literal can be read before or after its runs are collapsed: a backslash may escape the
first blank of a run, but it stays in the text and so does the blank.
-/

set_option autoImplicit false

namespace CourseQuery.Text

open Sentence (Gap Boundary boundary_cons gap_cons)

/-- A text with each run of blanks as one space; `inGap` says that a space stands before it. -/
def collapseFrom (inGap : Bool) : List Char → List Char
  | [] => []
  | c :: rest =>
    if isBlank c then
      if inGap then collapseFrom true rest else ' ' :: collapseFrom true rest
    else c :: collapseFrom false rest

/-- A text with each run of blanks as one space. -/
def collapse (s : String) : String :=
  String.ofList (collapseFrom false s.toList)

variable {inGap : Bool} {c : Char} {s t gap w : List Char}

/-- A character of a word is kept. -/
theorem collapseFrom_word (hc : isBlank c = false) :
    collapseFrom inGap (c :: s) = c :: collapseFrom false s := by
  rw [collapseFrom, if_neg (by rw [hc]; exact Bool.false_ne_true)]

/-- A blank becomes a space, unless it stands behind another. -/
theorem collapseFrom_blank (hc : isBlank c = true) :
    collapseFrom inGap (c :: s) =
      if inGap then collapseFrom true s else ' ' :: collapseFrom true s := by
  rw [collapseFrom, if_pos hc]

/-- Blanks behind a blank vanish. -/
theorem collapseFrom_gap_append (hgap : Gap gap) :
    collapseFrom true (gap ++ s) = collapseFrom true s := by
  induction gap with
  | nil => rfl
  | cons c gap ih =>
    obtain ⟨hc, hgap⟩ := gap_cons.1 hgap
    rw [List.cons_append, collapseFrom_blank hc, if_pos rfl, ih hgap]

/-- Behind a word there may be the first blank of a run again. -/
theorem collapseFrom_word_append (hw : ∀ c ∈ w, isBlank c = false) (hne : w ≠ []) :
    collapseFrom inGap (w ++ s) = w ++ collapseFrom false s := by
  induction w generalizing inGap with
  | nil => exact absurd rfl hne
  | cons c w ih =>
    obtain ⟨hc, hw⟩ := List.forall_mem_cons.1 hw
    rw [List.cons_append, collapseFrom_word hc, List.cons_append]
    by_cases hnil : w = []
    · rw [hnil, List.nil_append, List.nil_append]
    · rw [ih hw hnil]

/-- Where a word has ended a single space stands. -/
theorem collapseFrom_boundary (hs : Boundary s) (hne : s ≠ []) :
    collapseFrom false s = ' ' :: collapseFrom true s := by
  cases s with
  | nil => exact absurd rfl hne
  | cons c s =>
    have hc := boundary_cons.1 hs
    rw [collapseFrom_blank hc, collapseFrom_blank hc, if_neg Bool.false_ne_true, if_pos rfl]

/-- A text without blanks is kept as it is. -/
theorem collapseFrom_eq_self (hs : ∀ c ∈ s, isBlank c = false) : collapseFrom inGap s = s := by
  induction s generalizing inGap with
  | nil => rfl
  | cons c s ih =>
    obtain ⟨hc, hs⟩ := List.forall_mem_cons.1 hs
    rw [collapseFrom_word hc, ih hs]

/-- Collapsing leaves a space for every run of blanks. -/
theorem not_blank_of_collapseFrom (h : ∀ c ∈ collapseFrom false s, isBlank c = false) :
    ∀ c ∈ s, isBlank c = false := by
  induction s with
  | nil => exact h
  | cons c s ih =>
    cases hc : isBlank c with
    | true =>
      rw [collapseFrom_blank hc, if_neg Bool.false_ne_true] at h
      exact absurd (h ' ' List.mem_cons_self) (by decide)
    | false =>
      rw [collapseFrom_word hc] at h
      exact List.forall_mem_cons.2 ⟨hc, ih (List.forall_mem_cons.1 h).2⟩

/-- Texts that differ in their runs of blanks only are the same if one of them has no blank. -/
theorem eq_of_collapse {a b : String} (h : collapse a = collapse b)
    (ha : ∀ c ∈ a.toList, isBlank c = false) : a = b := by
  have hchars : collapseFrom false a.toList = collapseFrom false b.toList :=
    String.ofList_injective h
  rw [collapseFrom_eq_self ha] at hchars
  have hb := not_blank_of_collapseFrom (s := b.toList) fun c hc => ha c (hchars ▸ hc)
  rw [collapseFrom_eq_self hb] at hchars
  exact String.toList_inj.1 hchars

end CourseQuery.Text

namespace CourseQuery.Literal

open Text (isBlank collapseFrom collapseFrom_word collapseFrom_blank)

section

variable {c : Char} {rest : List Char}
  (ih : ∀ inGap, unescape (collapseFrom inGap rest) = (unescape rest).map (collapseFrom inGap))
include ih

/-- A pair of a backslash and a character is collapsed before or after it is read. -/
theorem unescape_collapseFrom_pair (inGap : Bool) :
    unescape (collapseFrom inGap ('\\' :: c :: rest)) =
      (unescape ('\\' :: c :: rest)).map (collapseFrom inGap) := by
  have hslash : isBlank '\\' = false := by decide
  rw [collapseFrom_word hslash]
  cases hc : isBlank c with
  | true =>
    -- the backslash takes the space of the run
    have hplain : ¬(c = '"' ∨ c = '\\') :=
      not_or.2 ⟨ne_of_isBlank (by decide) hc, ne_of_isBlank (by decide) hc⟩
    rw [collapseFrom_blank hc, if_neg Bool.false_ne_true, unescape, unescape, ih]
    cases unescape rest with
    | error cause => rfl
    | ok text =>
      simp only [Except.map, if_neg hplain, collapseFrom_word hslash, collapseFrom_blank hc]
      rfl
  | false =>
    rw [collapseFrom_word hc, unescape, unescape, ih]
    cases unescape rest with
    | error cause => rfl
    | ok text =>
      simp only [Except.map]
      split
      · rw [collapseFrom_word hc]
      · rw [collapseFrom_word hslash, collapseFrom_word hc]

/-- A character that stands for itself is collapsed before or after it is read. -/
theorem unescape_collapseFrom_plain (hslash : c ≠ '\\') (hquote : c ≠ '"') (hstar : c ≠ '*')
    (inGap : Bool) :
    unescape (collapseFrom inGap (c :: rest)) =
      (unescape (c :: rest)).map (collapseFrom inGap) := by
  rw [unescape_cons hslash, if_neg hquote, if_neg hstar]
  cases hc : isBlank c with
  | true =>
    rw [collapseFrom_blank hc]
    cases inGap with
    | true =>
      rw [if_pos rfl, ih]
      cases unescape rest with
      | error cause => rfl
      | ok text => simp only [Except.map, collapseFrom_blank hc, if_pos]
    | false =>
      rw [if_neg Bool.false_ne_true, unescape_cons (by decide), if_neg (by decide),
        if_neg (by decide), ih]
      cases unescape rest with
      | error cause => rfl
      | ok text =>
        simp only [Except.map, collapseFrom_blank hc]
        rfl
  | false =>
    rw [collapseFrom_word hc, unescape_cons hslash, if_neg hquote, if_neg hstar, ih]
    cases unescape rest with
    | error cause => rfl
    | ok text => simp only [Except.map, collapseFrom_word hc]

end

/-- The runs of blanks in a body are those in its text. -/
theorem unescape_collapseFrom (inGap : Bool) (body : List Char) :
    unescape (collapseFrom inGap body) = (unescape body).map (collapseFrom inGap) := by
  fun_induction unescape body generalizing inGap with
  | case1 => rfl
  | case2 =>
    rw [collapseFrom_word (by decide), Except.map, collapseFrom_word (by decide)]
    rfl
  | case3 c rest ih => exact unescape_collapseFrom_pair ih inGap
  | case4 rest =>
    rw [collapseFrom_word (by decide), unescape_cons (by decide), if_pos rfl]
    rfl
  | case5 rest =>
    rw [collapseFrom_word (by decide), unescape_cons (by decide), if_neg (by decide), if_pos rfl]
    rfl
  | case6 c rest hlone hpair hquote hstar ih =>
    have hslash := ne_slash hlone hpair
    have hplain := unescape_collapseFrom_plain ih hslash hquote hstar inGap
    rwa [unescape_cons hslash, if_neg hquote, if_neg hstar] at hplain

/-- Bodies that differ in their runs of blanks only are both refused for the same cause or denote
texts that differ in theirs. -/
theorem unescape_alike {body body' : List Char}
    (h : collapseFrom false body = collapseFrom false body') :
    (∃ cause, unescape body = .error cause ∧ unescape body' = .error cause) ∨
      ∃ text text', unescape body = .ok text ∧ unescape body' = .ok text' ∧
        Text.collapse (String.ofList text) = Text.collapse (String.ofList text') := by
  have hmap : (unescape body).map (collapseFrom false) =
      (unescape body').map (collapseFrom false) := by
    rw [← unescape_collapseFrom, h, unescape_collapseFrom]
  cases hbody : unescape body with
  | error cause =>
    cases hbody' : unescape body' with
    | error cause' =>
      rw [hbody, hbody'] at hmap
      rw [Except.error.inj hmap]
      exact .inl ⟨cause', rfl, rfl⟩
    | ok text' =>
      rw [hbody, hbody'] at hmap
      contradiction
  | ok text =>
    cases hbody' : unescape body' with
    | error cause' =>
      rw [hbody, hbody'] at hmap
      contradiction
    | ok text' =>
      rw [hbody, hbody'] at hmap
      refine .inr ⟨text, text', rfl, rfl, ?_⟩
      rw [Text.collapse, Text.collapse, String.toList_ofList, String.toList_ofList,
        Except.ok.inj hmap]

end CourseQuery.Literal
