import CourseQuery.Proofs.Sentence.Quotes
import Mathlib.Algebra.GroupWithZero.Nat

/-!
# The scans of a quoted literal agree

The scan that counts quotes is the measure of the other two. A word closes a literal when its last
character is a quote that adds one to the count. The tokens of a text have together as many open
quotes as the text, although each is counted from the beginning, because what stands behind a token
begins with a blank. And a body is a literal only if no quote in it is counted.
-/

set_option autoImplicit false

namespace CourseQuery.Literal

open Sentence (tokensTo tokensTo_gap tokensTo_word tokenize_eq words_induction)
open Text.Utf8 (size size_append)

/-- A quote at the end is counted unless it is escaped. -/
theorem unescapedQuotes_concat_quote (front : List Char) :
    unescapedQuotes (front ++ ['"']) =
      unescapedQuotes front + if escapedAfter false front then 0 else 1 := by
  unfold unescapedQuotes
  rw [openQuotes_append]
  cases escapedAfter false front with
  | true => rfl
  | false => rfl

/-- A text closes a literal exactly when its last character is a quote that is counted. -/
theorem closes_iff_counts {s : List Char} :
    closes s = true ↔
      s.getLast? = some '"' ∧ unescapedQuotes s = unescapedQuotes s.dropLast + 1 := by
  rw [closes_iff]
  constructor
  · rintro ⟨front, rfl, hfront⟩
    rw [List.dropLast_concat, unescapedQuotes_concat_quote, hfront]
    exact ⟨List.getLast?_concat, rfl⟩
  · rintro ⟨hlast, hcount⟩
    obtain ⟨front, rfl⟩ := List.getLast?_eq_some_iff.1 hlast
    refine ⟨front, rfl, ?_⟩
    rw [List.dropLast_concat, unescapedQuotes_concat_quote] at hcount
    cases hfront : escapedAfter false front with
    | false => rfl
    | true =>
      rw [hfront, if_pos rfl] at hcount
      omega

/-- The tokens of a text have together as many open quotes as the text. -/
theorem sum_unescapedQuotes {e : Nat} {s : List Char} (hs : size s ≤ e) :
    ((tokensTo e s).map fun t => unescapedQuotes t.chars).sum = unescapedQuotes s := by
  induction s using words_induction with
  | gap s hgap =>
    rw [tokensTo_gap hgap, unescapedQuotes, openQuotes_gap hgap]
    rfl
  | word gap w rest hgap hw hrest ih =>
    have hsize : size rest ≤ e := by
      simp only [size_append] at hs
      omega
    have hcount : unescapedQuotes (gap ++ (w ++ rest)) =
        unescapedQuotes w + unescapedQuotes rest := by
      unfold unescapedQuotes
      rw [openQuotes_append, openQuotes_gap hgap, escapedAfter_gap hgap, openQuotes_append,
        openQuotes_boundary hrest, Nat.zero_add]
    rw [tokensTo_word hs hgap hw hrest, List.map_cons, List.sum_cons, ih hsize,
      hcount, Token.chars, String.toList_ofList]

/-- No quote is counted in a body that denotes a text, and one is in a body that is blamed for a
stray quote. -/
theorem unescapedQuotes_of_unescape (body : List Char) :
    (∀ text, unescape body = .ok text → unescapedQuotes body = 0) ∧
      (unescape body = .error .strayQuote → 0 < unescapedQuotes body) := by
  unfold unescapedQuotes
  fun_induction unescape body with
  | case1 => simp [openQuotes]
  | case2 => simp [openQuotes]
  | case3 c rest ih =>
    have hcount : openQuotes false ('\\' :: c :: rest) = openQuotes false rest := by
      simp [openQuotes]
    rw [hcount]
    constructor
    · intro text h
      obtain ⟨t, ht, -⟩ := map_eq_ok_iff.1 h
      exact ih.1 t ht
    · intro h
      exact ih.2 (map_eq_error_iff.1 h)
  | case4 => simp [openQuotes]
  | case5 => simp
  | case6 c rest hlone hpair hquote hstar ih =>
    have hcount : openQuotes false (c :: rest) = openQuotes false rest := by
      simp [openQuotes, ne_slash hlone hpair, hquote]
    rw [hcount]
    constructor
    · intro text h
      obtain ⟨t, ht, -⟩ := map_eq_ok_iff.1 h
      exact ih.1 t ht
    · intro h
      exact ih.2 (map_eq_error_iff.1 h)

/-- The three scans agree on which quotes are open. -/
theorem scans_agree (s : List Char) :
    (closes s = true ↔
        s.getLast? = some '"' ∧ unescapedQuotes s = unescapedQuotes s.dropLast + 1) ∧
      ((tokenize (String.ofList s)).map fun t => unescapedQuotes t.chars).sum =
        unescapedQuotes s ∧
      (unescape s = .error .strayQuote → 0 < unescapedQuotes s) ∧
      ∀ text, unescape s = .ok text → unescapedQuotes s = 0 := by
  obtain ⟨hok, hstray⟩ := unescapedQuotes_of_unescape s
  refine ⟨closes_iff_counts, ?_, hstray, hok⟩
  rw [tokenize_eq, String.toList_ofList]
  exact sum_unescapedQuotes (Nat.le_refl _)

/-- A quote inside a body is counted unless it is escaped. -/
theorem scans_agree_inside :
    (unescape ['a', '"', 'b'] = .error .strayQuote ∧ 0 < unescapedQuotes ['a', '"', 'b']) ∧
      unescape ['a', '\\', '"', 'b'] = .ok ['a', '"', 'b'] ∧
      unescapedQuotes ['a', '\\', '"', 'b'] = 0 := by
  have hstray : unescape ['a', '"', 'b'] = .error .strayQuote := by decide
  have hok : unescape ['a', '\\', '"', 'b'] = .ok ['a', '"', 'b'] := by decide
  exact ⟨⟨hstray, (scans_agree _).2.2.1 hstray⟩, hok, (scans_agree _).2.2.2 _ hok⟩

end CourseQuery.Literal
