import CourseQuery.Proofs.Sentence.Grammar
import CourseQuery.Sentence.Literal

/-!
# The three scans of a quoted literal

The reader looks at quotes three times: it counts those that are not escaped, asks whether a word
ends with one, and takes the escapes out of a body. All three follow one state, `escapedAfter`,
and a blank brings it back to where it began, so a scan of one word agrees with a scan of the
whole text. `unescape_eq_ok_iff` says that the third scan accepts exactly the bodies of the
grammar, apart from a backslash at the very end, which is where the second one fails.
-/

set_option autoImplicit false

namespace CourseQuery.Literal

open Text (isBlank)
open Sentence (Body Gap Boundary quoted)

/-- Whether a backslash escapes what follows a text. -/
def escapedAfter (escaped : Bool) : List Char → Bool
  | [] => escaped
  | c :: rest => escapedAfter (!escaped && c == '\\') rest

section Scans

variable {escaped : Bool} {c : Char} {s t : List Char}

/-- Whether a backslash is pending behind two texts is told from the first and then the second. -/
theorem escapedAfter_append :
    escapedAfter escaped (s ++ t) = escapedAfter (escapedAfter escaped s) t := by
  induction s generalizing escaped with
  | nil => rfl
  | cons c s ih => exact ih

/-- The open quotes of two texts are those of the first and then the second. -/
theorem openQuotes_append :
    openQuotes escaped (s ++ t) = openQuotes escaped s + openQuotes (escapedAfter escaped s) t := by
  induction s generalizing escaped with
  | nil => simp [openQuotes, escapedAfter]
  | cons c s ih =>
    rw [List.cons_append, openQuotes, openQuotes, escapedAfter]
    cases escaped with
    | true => simpa using ih
    | false =>
      by_cases hslash : c = '\\'
      · simpa [hslash] using ih
      · by_cases hquote : c = '"'
        · have := @ih false
          simp only [hquote] at this ⊢
          simp [this]
          omega
        · have hfalse : (c == '\\') = false := by simpa using hslash
          simpa [hslash, hquote, hfalse] using ih

/-- A blank is neither a quote nor a backslash nor a mark. -/
theorem ne_of_isBlank {d : Char} (hd : isBlank d = false) (hc : isBlank c = true) : c ≠ d := by
  rintro rfl
  rw [hc] at hd
  contradiction

/-- A blank ends what a backslash before it began. -/
theorem escapedAfter_boundary (hs : Boundary s) (hne : s ≠ []) :
    escapedAfter escaped s = escapedAfter false s := by
  cases s with
  | nil => contradiction
  | cons c s =>
    have hslash : (c == '\\') = false := by
      simpa using ne_of_isBlank (by decide) (Sentence.boundary_cons.1 hs)
    simp [escapedAfter, hslash]

/-- In front of a blank or of nothing it does not matter whether a backslash is pending. -/
theorem openQuotes_boundary (hs : Boundary s) :
    openQuotes escaped s = openQuotes false s := by
  cases s with
  | nil => rfl
  | cons c s =>
    have hblank := Sentence.boundary_cons.1 hs
    have hslash : c ≠ '\\' := ne_of_isBlank (by decide) hblank
    have hquote : c ≠ '"' := ne_of_isBlank (by decide) hblank
    cases escaped <;> simp [openQuotes, hslash, hquote]

/-- A text without quotes and backslashes changes nothing. -/
theorem openQuotes_eq_zero (h : ∀ c ∈ s, c ≠ '"' ∧ c ≠ '\\') : openQuotes false s = 0 := by
  induction s with
  | nil => rfl
  | cons c s ih =>
    have hc := h c List.mem_cons_self
    rw [openQuotes, if_neg (by simp), if_neg hc.2, if_neg hc.1]
    exact ih fun d hd => h d (List.mem_cons_of_mem c hd)

/-- Without a backslash none is pending. -/
theorem escapedAfter_eq_false (h : ∀ c ∈ s, c ≠ '\\') : escapedAfter false s = false := by
  induction s with
  | nil => rfl
  | cons c s ih =>
    have hslash : (c == '\\') = false := by simpa using h c List.mem_cons_self
    rw [escapedAfter, hslash]
    exact ih fun d hd => h d (List.mem_cons_of_mem c hd)

/-- Blanks hold no quotes. -/
theorem openQuotes_gap (h : Gap s) : openQuotes false s = 0 :=
  openQuotes_eq_zero fun c hc =>
    ⟨ne_of_isBlank (by decide) (h c hc), ne_of_isBlank (by decide) (h c hc)⟩

/-- Behind blanks no backslash is pending. -/
theorem escapedAfter_gap (h : Gap s) : escapedAfter false s = false :=
  escapedAfter_eq_false fun c hc => ne_of_isBlank (by decide) (h c hc)

end Scans

section Closing

variable {escaped closing : Bool} {c : Char} {s w : List Char}

/-- A word closes a literal if it ends with a quote behind which no backslash was pending. -/
theorem closesFrom_append_singleton :
    closesFrom escaped closing (s ++ [c]) = (!escapedAfter escaped s && c == '"') := by
  induction s generalizing escaped closing with
  | nil => rfl
  | cons d s ih => exact ih

/-- A word closes a literal exactly when it ends with a quote that nothing before it escapes. -/
theorem closes_iff :
    closes w = true ↔ ∃ front, w = front ++ ['"'] ∧ escapedAfter false front = false := by
  constructor
  · intro h
    rcases List.eq_nil_or_concat w with rfl | ⟨front, c, rfl⟩
    · contradiction
    · rw [List.concat_eq_append] at h ⊢
      rw [closes, closesFrom_append_singleton, Bool.and_eq_true, Bool.not_eq_true',
        beq_iff_eq] at h
      exact ⟨front, by rw [h.2], h.1⟩
  · rintro ⟨front, rfl, h⟩
    simp [closes, closesFrom_append_singleton, h]

end Closing

section Bodies

variable {body text : List Char}

/-- No quote in the body of a literal is open, and no backslash is left over at its end. -/
theorem closed_of_body (h : Body body text) :
    openQuotes false body = 0 ∧ escapedAfter false body = false := by
  induction h with
  | nil => exact ⟨rfl, rfl⟩
  | escaped _ _ ih => simpa [openQuotes, escapedAfter] using ih
  | kept _ _ ih => simpa [openQuotes, escapedAfter] using ih
  | @plain c body text hquote hslash _ _ ih =>
    have hbeq : (c == '\\') = false := by simpa using hslash
    simpa [openQuotes, escapedAfter, hquote, hslash, hbeq] using ih

/-- A character that no case of the backslash fits is none. -/
theorem ne_slash {c : Char} {rest : List Char} (hlone : c = '\\' → rest = [] → False)
    (hpair : ∀ d more, c = '\\' → rest = d :: more → False) : c ≠ '\\' := by
  rintro rfl
  cases rest with
  | nil => exact hlone rfl rfl
  | cons d rest => exact hpair d rest rfl rfl

/-- A character that is no backslash stands for itself, unless it is a quote or a star. -/
theorem unescape_cons {c : Char} {rest : List Char} (hslash : c ≠ '\\') :
    unescape (c :: rest) =
      if c = '"' then .error .strayQuote
      else if c = '*' then .error .wildcard
      else (unescape rest).map (c :: ·) :=
  unescape.eq_4 c rest (by simp [hslash]) (by simp [hslash])

/-- The bodies of the grammar are those that have a text and whose last backslash is not left
over. -/
theorem unescape_eq_ok_iff :
    unescape body = .ok text ∧ escapedAfter false body = false ↔ Body body text := by
  constructor
  · rintro ⟨h, hend⟩
    fun_induction unescape body generalizing text with
    | case1 =>
      rw [← Except.ok.inj h]
      exact .nil
    | case2 => contradiction
    | case3 c rest ih =>
      cases hrest : unescape rest with
      | error cause =>
        rw [hrest] at h
        contradiction
      | ok t =>
        rw [hrest] at h
        have hbody := ih hrest (by simpa [escapedAfter] using hend)
        rw [← Except.ok.inj h]
        split
        · exact .escaped ‹_› hbody
        · exact .kept ‹_› hbody
    | case4 => contradiction
    | case5 => contradiction
    | case6 c rest hlone hpair hquote hstar ih =>
      have hslash := ne_slash hlone hpair
      cases hrest : unescape rest with
      | error cause =>
        rw [hrest] at h
        contradiction
      | ok t =>
        rw [hrest] at h
        rw [← Except.ok.inj h]
        have hbeq : (c == '\\') = false := by simpa using hslash
        exact .plain hquote hslash hstar (ih hrest (by simpa [escapedAfter, hbeq] using hend))
  · intro h
    refine ⟨?_, (closed_of_body h).2⟩
    induction h with
    | nil => rfl
    | escaped hc _ ih => simp [unescape, ih, Except.map, hc]
    | kept hc _ ih => simp [unescape, ih, Except.map, hc]
    | @plain c body text hquote hslash hstar _ ih =>
      rw [unescape_cons hslash, if_neg hquote, if_neg hstar, ih]
      rfl

end Bodies

end CourseQuery.Literal
