import CourseQuery.Proofs.Sentence.Quotes
import CourseQuery.Sentence.FilterClause

/-!
# Reading a literal

A literal begins with a word that begins with a quote and ends with the first word that ends with an
open one. `literal_eq_ok_iff` says that the reader takes exactly a quoted body of the grammar, with
blanks or nothing before it and a boundary after it.
-/

set_option autoImplicit false

namespace CourseQuery.FilterClause

open Literal (closes closes_iff escapedAfter openQuotes)
open Sentence
open Text.Utf8 (size size_nil size_cons size_append)

variable {source : String} {e : Nat} {s body rest : List Char} {ts : List Token}

/-- Where the literal ends that the tokens close, and the tokens after it. -/
def closing? (ts : List Token) : Option (Nat × List Token) :=
  (closingToken? ts).map fun (last, rest) => (last.stop, rest)

/-- A literal is closed by the first token that ends with a quote of its own. -/
theorem closing?_cons (t : Token) (ts : List Token) :
    closing? (t :: ts) = if closes t.chars then some (t.stop, ts) else closing? ts := by
  unfold closing?
  rw [closingToken?]
  split <;> rfl

/-- The tokens of a text are closed at a quote of the text that is open and has a boundary after
it. -/
theorem closing?_eq_some {stop : Nat} (hs : size s ≤ e)
    (h : closing? (tokensTo e s) = some (stop, ts)) :
    ∃ body rest, s = body ++ '"' :: rest ∧ Boundary rest ∧ escapedAfter false body = false ∧
      stop = e - size rest ∧ ts = tokensTo e rest := by
  induction s using words_induction with
  | gap s hgap =>
    rw [tokensTo_gap hgap] at h
    contradiction
  | word gap w mid hgap hw hmid ih =>
    have hchars : (Token.mk (String.ofList w) (e - size (w ++ mid)) (e - size mid)).chars = w :=
      String.toList_ofList
    rw [tokensTo_word hs hgap hw hmid, closing?_cons, hchars] at h
    split at h
    · rename_i hcloses
      obtain ⟨front, rfl, hfront⟩ := closes_iff.1 hcloses
      obtain ⟨rfl, rfl⟩ := Prod.mk.inj (Option.some.inj h)
      refine ⟨gap ++ front, mid, by simp, hmid, ?_, rfl, rfl⟩
      rw [Literal.escapedAfter_append, Literal.escapedAfter_gap hgap, hfront]
    · have hsize : size mid ≤ e := by
        simp only [size_append] at hs
        omega
      obtain ⟨body, rest, rfl, hrest, hbody, hstop, hts⟩ := ih hsize h
      have hne : body ≠ [] := by
        rintro rfl
        exact absurd (boundary_cons.1 hmid) (by decide)
      refine ⟨gap ++ (w ++ body), rest, by simp, hrest, ?_, hstop, hts⟩
      rw [Literal.escapedAfter_append, Literal.escapedAfter_append,
        Literal.escapedAfter_boundary hmid.of_append hne, hbody]

/-- A quote closes the tokens of a text when there is a boundary after it and no quote before it is
open. -/
theorem closing?_of_body (hs : size (body ++ '"' :: rest) ≤ e)
    (hquotes : openQuotes false body = 0) (hend : escapedAfter false body = false)
    (hrest : Boundary rest) :
    closing? (tokensTo e (body ++ '"' :: rest)) = some (e - size rest, tokensTo e rest) := by
  have hquote : Text.isBlank '"' = false := by decide
  -- the first word is the one that closes when all that stands before its end is in the body
  have hlast : ∀ gap w, Gap gap → (∀ c ∈ w, Text.isBlank c = false) →
      size (gap ++ w ++ '"' :: rest) ≤ e → escapedAfter false (gap ++ w) = false →
      closing? (tokensTo e (gap ++ w ++ '"' :: rest)) = some (e - size rest, tokensTo e rest) := by
    intro gap w hgap hw hs hend
    have hword : IsWord (w ++ ['"']) := by
      refine ⟨by simp, fun c hc => ?_⟩
      rcases List.mem_append.1 hc with hc | hc
      · exact hw c hc
      · rwa [List.mem_singleton.1 hc]
    have hfirst : word? (gap ++ w ++ '"' :: rest) = some (w ++ ['"'], rest) := by
      simpa using word?_gap_append hgap hword hrest
    have hcloses : closes (w ++ ['"']) = true := by
      refine closes_iff.2 ⟨w, rfl, ?_⟩
      rwa [Literal.escapedAfter_append, Literal.escapedAfter_gap hgap] at hend
    rw [tokensTo_some hs hfirst]
    simp [closing?_cons, Token.chars, hcloses]
  induction body using words_induction with
  | gap body hgap =>
    simpa using hlast body [] hgap (by simp) (by simpa using hs) (by simpa using hend)
  | word gap w mid hgap hw hmid ih =>
    by_cases hne : mid = []
    · rw [hne, List.append_nil] at hs hend ⊢
      exact hlast gap w hgap hw.2 hs hend
    · have hfirst : word? (gap ++ (w ++ mid) ++ '"' :: rest) = some (w, mid ++ '"' :: rest) := by
        simpa using word?_gap_append hgap hw (hmid.append hne)
      rw [Literal.openQuotes_append, Literal.escapedAfter_gap hgap,
        Literal.openQuotes_append, Literal.openQuotes_boundary hmid] at hquotes
      rw [Literal.escapedAfter_append, Literal.escapedAfter_append,
        Literal.escapedAfter_boundary hmid hne] at hend
      have hopen : closes w = false := by
        refine Bool.eq_false_iff.2 fun hcloses => ?_
        obtain ⟨front, rfl, hfront⟩ := closes_iff.1 hcloses
        have hone : openQuotes false (front ++ ['"']) = openQuotes false front + 1 := by
          rw [Literal.openQuotes_append, hfront]
          rfl
        omega
      have hsize : size (mid ++ '"' :: rest) ≤ e := by
        simp only [size_append] at hs ⊢
        omega
      rw [tokensTo_some hs hfirst, closing?_cons]
      simp only [Token.chars, String.toList_ofList, hopen]
      exact ih hsize (by omega) hend

/-- Every text begins with characters that are not blank, perhaps none, in front of a boundary. -/
theorem exists_front (x : List Char) :
    ∃ w rest, x = w ++ rest ∧ (∀ c ∈ w, Text.isBlank c = false) ∧ Boundary rest := by
  induction x with
  | nil => exact ⟨[], [], rfl, by simp, boundary_nil⟩
  | cons c x ih =>
    by_cases hc : Text.isBlank c = true
    · exact ⟨[], c :: x, rfl, by simp, boundary_cons.2 hc⟩
    · obtain ⟨w, rest, rfl, hw, hrest⟩ := ih
      exact ⟨c :: w, rest, rfl, by simpa [hc] using hw, hrest⟩

/-- The end of a literal is where the tokens of the text after its first quote are closed. -/
theorem literalEnd?_eq {w : List Char} {start : Nat} (hs : size (w ++ rest) ≤ e)
    (hw : ∀ c ∈ w, Text.isBlank c = false) (hrest : Boundary rest) :
    (literalEnd? ⟨String.ofList ('"' :: w), start, e - size rest⟩ (tokensTo e rest)).map
        (fun (last, ts) => (last.stop, ts)) =
      closing? (tokensTo e (w ++ rest)) := by
  have hdrop : (Token.mk (String.ofList ('"' :: w)) start (e - size rest)).chars.drop 1 = w := by
    simp [Token.chars]
  rw [literalEnd?, hdrop]
  cases w with
  | nil =>
    have hcloses : closes [] = false := rfl
    rw [hcloses]
    rfl
  | cons c w =>
    have hword : word? (c :: w ++ rest) = some (c :: w, rest) := by
      simpa using word?_gap_append gap_nil ⟨by simp, hw⟩ hrest
    rw [tokensTo_eq hs, hword]
    dsimp only
    rw [closing?_cons]
    simp only [Token.chars, String.toList_ofList]
    split <;> rfl

/-- Behind a quote, the reader of literals looks for what closes the rest of the text and takes the
body up to there. -/
theorem literal_quote_eq {gap w : List Char} (hs : size (gap ++ '"' :: (w ++ rest)) ≤ e)
    (hgap : Gap gap) (hw : ∀ c ∈ w, Text.isBlank c = false) (hrest : Boundary rest) :
    literal source (tokensTo e (gap ++ '"' :: (w ++ rest))) =
      match closing? (tokensTo e (w ++ rest)) with
      | none => .error (.invalidFilter .literalUnclosed (some (String.ofList ('"' :: w))))
      | some (stop, ts) =>
        match slice source (e - size (w ++ rest)) (stop - 1) with
        | none => .error (.invalidFilter .literalOutside none)
        | some body =>
          match Literal.unescape body with
          | .ok text => .ok (String.ofList text, ts)
          | .error cause => .error (.invalidFilter cause none) := by
  have hquote : Char.utf8Size '"' = 1 := by decide
  have hfirst : word? (gap ++ '"' :: (w ++ rest)) = some ('"' :: w, rest) := by
    have hword : IsWord ('"' :: w) := ⟨by simp, by simpa using ⟨by decide, hw⟩⟩
    simpa using word?_gap_append hgap hword hrest
  have hstart : e - size ('"' :: w ++ rest) + 1 = e - size (w ++ rest) := by
    simp only [size_append, size_cons, List.cons_append, hquote] at hs ⊢
    omega
  have hsize : size (w ++ rest) ≤ e := by
    simp only [size_append, size_cons] at hs ⊢
    omega
  rw [tokensTo_eq hs, hfirst, ← literalEnd?_eq hsize hw hrest]
  dsimp only
  rw [literal, if_pos (by simp [Token.chars]), hstart]
  cases literalEnd? ⟨String.ofList ('"' :: w), e - size ('"' :: w ++ rest), e - size rest⟩
      (tokensTo e rest) with
  | none => rfl
  | some found => rfl

/-- Behind a quote the literal goes on to the token that closes it. -/
theorem literal_quote {gap x : List Char} {text : String} (hs : size (gap ++ '"' :: x) ≤ e)
    (hgap : Gap gap) :
    literal source (tokensTo e (gap ++ '"' :: x)) = .ok (text, ts) ↔
      ∃ stop body t, closing? (tokensTo e x) = some (stop, ts) ∧
        slice source (e - size x) (stop - 1) = some body ∧ Literal.unescape body = .ok t ∧
        String.ofList t = text := by
  obtain ⟨w, rest, rfl, hw, hrest⟩ := exists_front x
  rw [literal_quote_eq hs hgap hw hrest]
  generalize e - size (w ++ rest) = start
  cases closing? (tokensTo e (w ++ rest)) with
  | none => simp
  | some found =>
    obtain ⟨stop, rest'⟩ := found
    dsimp only
    cases hslice : slice source start (stop - 1) with
    | none => simp [hslice]
    | some body =>
      cases hbody : Literal.unescape body with
      | error cause => simp [hslice, hbody]
      | ok t => simp [hslice, hbody, and_comm, and_assoc]

/-- The body of a literal is what stands between the end of its first quote and the start of its
last. -/
theorem slice_body {gap : List Char}
    (hs : Within source e (gap ++ '"' :: (body ++ '"' :: rest))) :
    slice source (e - size (body ++ '"' :: rest)) (e - size rest - 1) = some body := by
  have hquote : Char.utf8Size '"' = 1 := by decide
  obtain ⟨pre, post, hsource, rfl⟩ := hs
  have hpart : source.toList = (pre ++ gap ++ ['"']) ++ (body ++ ('"' :: rest ++ post)) := by
    simp [hsource]
  rw [← slice_eq hpart]
  congr 1 <;> simp only [size_append, size_cons, size_nil, hquote] <;> omega

/-- A literal that is read begins with a quote. -/
theorem quote_of_literal {r : String × List Token} (hs : size s ≤ e)
    (h : literal source (tokensTo e s) = .ok r) : ∃ gap x, s = gap ++ '"' :: x ∧ Gap gap := by
  rw [tokensTo_eq hs] at h
  cases hword : word? s with
  | none =>
    rw [hword] at h
    contradiction
  | some found =>
    obtain ⟨w, rest⟩ := found
    obtain ⟨gap, rfl, hgap, -, -⟩ := word?_eq_some_iff.1 hword
    rw [hword] at h
    dsimp only at h
    rw [literal] at h
    split at h
    · rename_i hquote
      simp only [Token.chars, String.toList_ofList] at hquote
      obtain ⟨w, rfl⟩ := List.head?_eq_some_iff.1 hquote
      exact ⟨gap, w ++ rest, rfl, hgap⟩
    · contradiction

/-- A literal is read exactly when a quoted body comes next. -/
theorem literal_eq_ok_iff {text : String} (hs : Within source e s) :
    literal source (tokensTo e s) = .ok (text, ts) ↔
      ∃ body t rest, Body body t ∧ String.ofList t = text ∧ Takes [quoted body] s rest ∧
        ts = tokensTo e rest := by
  constructor
  · intro h
    obtain ⟨gap, x, rfl, hgap⟩ := quote_of_literal hs.size_le h
    have hx : size x ≤ e := by
      have := hs.size_le
      simp only [size_append, size_cons] at this
      omega
    obtain ⟨stop, body', t, hclosing, hbody', ht, htext⟩ := (literal_quote hs.size_le hgap).1 h
    obtain ⟨body, rest, rfl, hrest, hend, rfl, rfl⟩ := closing?_eq_some hx hclosing
    rw [slice_body hs] at hbody'
    obtain rfl := Option.some.inj hbody'
    refine ⟨body, t, rest, Literal.unescape_eq_ok_iff.1 ⟨ht, hend⟩, htext, ?_, rfl⟩
    exact takes_cons.2 ⟨gap, rest, by simp [quoted], hgap, hrest, .nil rest⟩
  · rintro ⟨body, t, rest, hbody, htext, htakes, rfl⟩
    obtain ⟨gap, mid, rfl, hgap, hmid, hnil⟩ := takes_cons.1 htakes
    obtain rfl := takes_nil.1 hnil
    have hs' : gap ++ (quoted body ++ rest) = gap ++ '"' :: (body ++ '"' :: rest) := by
      simp [quoted]
    rw [hs'] at hs ⊢
    have hsize := hs.size_le
    obtain ⟨hquotes, hend⟩ := Literal.closed_of_body hbody
    have hx : size (body ++ '"' :: rest) ≤ e := by
      simp only [size_append, size_cons] at hsize ⊢
      omega
    exact (literal_quote hsize hgap).2 ⟨_, body, t, closing?_of_body hx hquotes hend hmid,
      slice_body hs, (Literal.unescape_eq_ok_iff.2 hbody).1, htext⟩

end CourseQuery.FilterClause
