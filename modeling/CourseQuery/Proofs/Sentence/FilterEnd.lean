import CourseQuery.Proofs.Sentence.FilterReading
import CourseQuery.Sentence.Reader

/-!
# Where a filter ends

The reader ends a filter at the first word that ends with `;` while the number of open quotes so far
is even. The grammar knows nothing of this: it puts a `;` after the conditions. `Clean` joins the
two. A text is clean when its quotes are even and every earlier word in it that ends with `;` stands
inside a literal; it is what `filterTokens` keeps true from word to word, and conditions of the
grammar are clean because every lexeme of theirs is.
-/

set_option autoImplicit false

namespace CourseQuery.Sentence

open Text (isBlank)
open Text.Utf8 (size size_nil size_cons size_append)
open Literal (openQuotes)

variable {source : String} {e : Nat} {inside : Bool} {s t gap w rest : List Char}
  {ts : List Token}

/-- Whether a place is inside a literal, `s` after a place of which `inside` says it. -/
def insideAfter (inside : Bool) (s : List Char) : Bool :=
  inside != (openQuotes false s % 2 == 1)

/-- A text without quotes neither opens a literal nor closes one. -/
theorem insideAfter_eq (h : openQuotes false s = 0) : insideAfter inside s = inside := by
  simp [insideAfter, h]

/-- Whether a literal is open behind two texts is told from the first and then the second. -/
theorem insideAfter_append (ht : Boundary t) :
    insideAfter inside (s ++ t) = insideAfter (insideAfter inside s) t := by
  unfold insideAfter
  rw [Literal.openQuotes_append, Literal.openQuotes_boundary ht]
  rcases Nat.mod_two_eq_zero_or_one (openQuotes false s) with hs | hs <;>
    rcases Nat.mod_two_eq_zero_or_one (openQuotes false t) with ht | ht <;>
    cases inside <;> simp [Nat.add_mod, hs, ht]

/-- Blanks neither open a literal nor close one. -/
theorem insideAfter_gap_append (hgap : Gap gap) :
    insideAfter inside (gap ++ s) = insideAfter inside s := by
  unfold insideAfter
  rw [Literal.openQuotes_append, Literal.openQuotes_gap hgap, Literal.escapedAfter_gap hgap,
    Nat.zero_add]

/-- The end of a text is outside the literals, and every word before it that ends with `;` ends
inside one. -/
structure Clean (inside : Bool) (s : List Char) : Prop where
  outside : insideAfter inside s = false
  marks : ∀ front back, s = front ++ back → back ≠ [] → Boundary back →
    front.getLast? = some ';' → insideAfter inside front = true

section Clean

/-- The last character of two texts is that of the second. -/
theorem getLast?_append_of_some {c : Char} (h : t.getLast? = some c) :
    (s ++ t).getLast? = some c := by
  rw [List.getLast?_append, h]
  rfl

/-- No gap ends with a mark. -/
theorem Gap.getLast?_ne (hgap : Gap gap) {c : Char} (hc : isBlank c = false) :
    gap.getLast? ≠ some c := by
  intro h
  rw [hgap c (List.mem_of_getLast? h)] at hc
  contradiction

/-- Blanks are clean. -/
theorem clean_gap (hgap : Gap gap) : Clean false gap := by
  refine ⟨insideAfter_eq (Literal.openQuotes_gap hgap), ?_⟩
  rintro front back rfl - - hlast
  exact absurd hlast ((gap_append.1 hgap).1.getLast?_ne (by decide))

/-- Behind blanks the last character is that of what follows. -/
theorem Gap.getLast?_of_append (hgap : Gap gap) {c : Char} (hc : isBlank c = false)
    (h : (gap ++ s).getLast? = some c) : s.getLast? = some c := by
  rw [List.getLast?_append] at h
  cases hs : s.getLast? with
  | none =>
    rw [hs] at h
    exact absurd h (hgap.getLast?_ne hc)
  | some d => rwa [hs] at h

/-- Behind the first word of a clean text the rest is clean, and no semicolon ends the word outside
a literal. -/
theorem Clean.of_word (h : Clean inside (gap ++ (w ++ s))) (hgap : Gap gap) (hs : Boundary s)
    (hne : s ≠ []) :
    Clean (insideAfter inside w) s ∧ (w.getLast? = some ';' → insideAfter inside w = true) := by
  have hinside : ∀ {x}, Boundary x →
      insideAfter inside (gap ++ (w ++ x)) = insideAfter (insideAfter inside w) x := by
    intro x hx
    rw [insideAfter_gap_append hgap, insideAfter_append hx]
  refine ⟨⟨hinside hs ▸ h.outside, ?_⟩, fun hlast => ?_⟩
  · rintro front back rfl hback hboundary hlast
    rw [← hinside hs.of_append]
    exact h.marks (gap ++ (w ++ front)) back (by simp) hback hboundary
      (getLast?_append_of_some (getLast?_append_of_some hlast))
  · rw [← insideAfter_gap_append hgap]
    exact h.marks (gap ++ w) s (by simp) hne hs (getLast?_append_of_some hlast)

/-- A lexeme that is clean and does not end with `;` keeps a text clean. -/
theorem Clean.append {l mid : List Char} (hl : Clean false l) (hlast : l.getLast? ≠ some ';')
    (hgap : Gap gap) (hmid : Boundary mid) (h : Clean false mid) :
    Clean false (gap ++ (l ++ mid)) := by
  have hinside : ∀ {x}, Boundary x → insideAfter false (gap ++ (l ++ x)) = insideAfter false x := by
    intro x hx
    rw [insideAfter_gap_append hgap, insideAfter_append hx, hl.outside]
  refine ⟨hinside hmid ▸ h.outside, fun front back hsplit hback hboundary hmark => ?_⟩
  -- the place lies in the gap, in the lexeme or behind it
  rcases List.append_eq_append_iff.1 hsplit with ⟨front', rfl, hsplit'⟩ | ⟨back', rfl, -⟩
  · have hmark' := hgap.getLast?_of_append (by decide) hmark
    rcases List.append_eq_append_iff.1 hsplit' with ⟨front'', rfl, rfl⟩ | ⟨back', rfl, rfl⟩
    · rw [List.getLast?_append] at hmark'
      cases hfront'' : front''.getLast? with
      | none =>
        rw [hfront''] at hmark'
        contradiction
      | some c =>
        rw [hfront''] at hmark'
        rw [hinside hmid.of_append]
        exact h.marks front'' back rfl hback hboundary (hfront''.trans hmark')
    · by_cases hne : back' = []
      · rw [hne, List.append_nil] at hlast
        contradiction
      · rw [insideAfter_gap_append hgap]
        exact hl.marks front' back' rfl hne hboundary.of_append hmark'
  · exact absurd hmark ((gap_append.1 hgap).1.getLast?_ne (by decide))

/-- A text made of clean lexemes that do not end with `;` is clean. -/
theorem clean_of_takes {ls : List (List Char)} (h : Takes ls s rest) (hrest : Gap rest)
    (hls : ∀ l ∈ ls, Clean false l ∧ l.getLast? ≠ some ';') : Clean false s := by
  induction h with
  | nil s => exact clean_gap hrest
  | cons hgap hmid h ih =>
    obtain ⟨hl, hlast⟩ := hls _ List.mem_cons_self
    exact hl.append hlast hgap hmid (ih hrest fun l hl => hls l (List.mem_cons_of_mem _ hl))

/-- A word without quotes and backslashes is clean. -/
theorem clean_word (hw : ∀ c ∈ w, isBlank c = false ∧ c ≠ '"' ∧ c ≠ '\\') : Clean false w := by
  refine ⟨insideAfter_eq (Literal.openQuotes_eq_zero fun c hc => (hw c hc).2), ?_⟩
  rintro front back rfl hback hboundary -
  cases back with
  | nil => contradiction
  | cons c back =>
    have := (hw c (by simp)).1
    rw [boundary_cons.1 hboundary] at this
    contradiction

/-- A literal is clean, since only its last quote ends it. -/
theorem clean_quoted {body text : List Char} (h : Body body text) : Clean false (quoted body) := by
  obtain ⟨hquotes, hend⟩ := Literal.closed_of_body h
  have hopen : ∀ x, openQuotes false ('"' :: x) = openQuotes false x + 1 := fun x => by
    simp [openQuotes]
  constructor
  · have htwo : openQuotes false (quoted body) = 2 := by
      rw [quoted, hopen, Literal.openQuotes_append, hquotes, hend]
      rfl
    simp [insideAfter, htwo]
  · rintro front back hsplit hback - hmark
    cases front with
    | nil => contradiction
    | cons c front =>
      obtain ⟨rfl, htail⟩ := List.cons.inj hsplit
      have hfront : openQuotes false front = 0 := by
        rcases List.eq_nil_or_concat back with rfl | ⟨back', d, rfl⟩
        · contradiction
        · have hbody : body ++ ['"'] = front ++ back' ++ [d] := by simpa using htail
          rw [(List.append_inj' hbody rfl).1, Literal.openQuotes_append] at hquotes
          omega
      simp [insideAfter, hopen, hfront]

end Clean

/-! ## Cutting off the filter -/

/-- A word with a `;` at its end, outside the literals, ends the filter; the `;` is dropped, and
with it a word that is nothing else. -/
theorem filterTokens_mark {x : List Char} (start stop : Nat) (ts : List Token)
    (h : insideAfter inside x = false) :
    filterTokens inside (⟨String.ofList (x ++ [';']), start, stop⟩ :: ts) =
      .ok (if x = [] then [] else [⟨String.ofList x, start, stop - 1⟩], ts) := by
  have hinside : insideAfter inside (x ++ [';']) = false := by
    have hmark : ∀ escaped, openQuotes escaped [';'] = 0 := by decide
    rw [← h, insideAfter, Literal.openQuotes_append, hmark]
    rfl
  have hchars : (Token.mk (String.ofList (x ++ [';'])) start stop).chars = x ++ [';'] :=
    String.toList_ofList
  have hsize : Char.utf8Size ';' = 1 := by decide
  rw [filterTokens, hchars, Literal.unescapedQuotes]
  rw [insideAfter] at hinside
  simp only [hinside, Token.strip?, hchars, hsize, List.getLast?_append, List.getLast?_singleton,
    Option.some_or, List.dropLast_concat, if_true, Bool.false_eq_true, if_false]
  cases x with
  | nil => simp
  | cons c x => simp [String.isEmpty_iff, ofList_eq_iff]

/-- A word that does not end the filter belongs to it. -/
theorem filterTokens_word {start stop : Nat}
    (h : w.getLast? = some ';' → insideAfter inside w = true) :
    filterTokens inside (⟨String.ofList w, start, stop⟩ :: ts) =
      (filterTokens (insideAfter inside w) ts).map
        fun (taken, rest) => (⟨String.ofList w, start, stop⟩ :: taken, rest) := by
  have hchars : (Token.mk (String.ofList w) start stop).chars = w := String.toList_ofList
  rw [filterTokens, hchars, Literal.unescapedQuotes]
  have hnone : (if insideAfter inside w = true then none
      else (Token.mk (String.ofList w) start stop).strip? ';') = none := by
    rw [Token.strip?, hchars]
    by_cases hw : w.getLast? = some ';'
    · rw [if_pos (h hw)]
    · simp [hw]
  rw [insideAfter] at hnone
  simp only [hnone]
  rw [← insideAfter]
  cases filterTokens (insideAfter inside w) ts with
  | error rejection => rfl
  | ok found => rfl

/-- A filter that does not end is rejected. -/
theorem filterTokens_none (h : word? s = none) :
    filterTokens inside (tokensTo e s) = .error (.malformed .filter .filterUnclosed none) := by
  rw [tokensTo_none h]
  rfl

/-- The tokens up to a `;` are those of the text in front of it, if the text is clean. -/
theorem filterTokens_of_clean {s₁ s₂ : List Char} (hs : size (s₁ ++ ';' :: s₂) ≤ e)
    (hs₂ : Boundary s₂) (h : Clean inside s₁) :
    filterTokens inside (tokensTo e (s₁ ++ ';' :: s₂)) =
      .ok (tokensTo (e - size (';' :: s₂)) s₁, tokensTo e s₂) := by
  have hmark : Char.utf8Size ';' = 1 := by decide
  have hcut : ∀ {x}, size (x ++ ';' :: s₂) ≤ e → size x ≤ e - size (';' :: s₂) := by
    intro x hx
    rw [size_append] at hx
    omega
  induction s₁ using words_induction generalizing inside with
  | gap s₁ hgap =>
    have hfirst : word? (s₁ ++ ';' :: s₂) = some ([';'], s₂) :=
      word?_gap_append hgap (w := [';']) (by decide) hs₂
    have hinside : insideAfter inside [] = false := by
      rw [← h.outside, insideAfter_eq (Literal.openQuotes_gap hgap)]
      exact insideAfter_eq rfl
    have hend := filterTokens_mark (e - size ([';'] ++ s₂)) (e - size s₂) (tokensTo e s₂) hinside
    rw [List.nil_append, if_pos rfl] at hend
    rw [tokensTo_some hs hfirst, tokensTo_gap hgap, hend]
  | word gap w mid hgap hw hmid ih =>
    rw [tokensTo_word (hcut hs) hgap hw hmid]
    by_cases hne : mid = []
    · subst hne
      have hfirst : word? (gap ++ (w ++ []) ++ ';' :: s₂) = some (w ++ [';'], s₂) := by
        have hw' : IsWord (w ++ [';']) := by
          refine ⟨by simp, fun c hc => ?_⟩
          rcases List.mem_append.1 hc with hc | hc
          · exact hw.2 c hc
          · rw [List.mem_singleton.1 hc]
            decide
        simpa using word?_gap_append hgap hw' hs₂
      have hinside : insideAfter inside w = false := by
        rw [← h.outside, insideAfter_gap_append hgap, List.append_nil]
      rw [tokensTo_some hs hfirst, filterTokens_mark _ _ _ hinside, if_neg hw.1,
        tokensTo_gap gap_nil]
      simp only [size_append, size_cons, size_nil, hmark, Nat.add_zero, Nat.sub_zero]
      congr 4 <;> omega
    · have hfirst : word? (gap ++ (w ++ mid) ++ ';' :: s₂) = some (w, mid ++ ';' :: s₂) := by
        simpa using word?_gap_append hgap hw (hmid.append hne)
      obtain ⟨hclean, hlast⟩ := h.of_word hgap hmid hne
      rw [tokensTo_some hs hfirst, filterTokens_word hlast, ih (word?_size_le hfirst hs) hclean]
      simp only [Except.map, size_append]
      congr 4 <;> omega

/-- The tokens that are cut off are those of the text in front of a `;` that has a boundary after
it. -/
theorem eq_of_filterTokens {taken : List Token} (hs : size s ≤ e)
    (h : filterTokens inside (tokensTo e s) = .ok (taken, ts)) :
    ∃ s₁ s₂, s = s₁ ++ ';' :: s₂ ∧ Boundary s₂ ∧ taken = tokensTo (e - size (';' :: s₂)) s₁ ∧
      ts = tokensTo e s₂ := by
  have hmark : Char.utf8Size ';' = 1 := by decide
  induction s using words_induction generalizing inside taken with
  | gap s hgap =>
    rw [filterTokens_none (word?_eq_none_iff.2 hgap)] at h
    contradiction
  | word gap w mid hgap hw hmid ih =>
    have hmidSize := word?_size_le (word?_gap_append hgap hw hmid) hs
    rw [tokensTo_word hs hgap hw hmid] at h
    by_cases hlast : w.getLast? = some ';' → insideAfter inside w = true
    · rw [filterTokens_word hlast] at h
      obtain ⟨⟨taken', _⟩, hrest, h⟩ := map_eq_ok_iff.1 h
      obtain ⟨rfl, rfl⟩ := Prod.mk.inj h
      obtain ⟨s₁, s₂, rfl, hs₂, rfl, rfl⟩ := ih hmidSize hrest
      have hne : s₁ ≠ [] := by
        rintro rfl
        exact absurd (boundary_cons.1 hmid) (by decide)
      refine ⟨gap ++ (w ++ s₁), s₂, by simp, hs₂, ?_, rfl⟩
      have hsize : size (gap ++ (w ++ s₁)) ≤ e - size (';' :: s₂) := by
        simp only [size_append] at hs ⊢
        omega
      rw [tokensTo_word hsize hgap hw hmid.of_append]
      simp only [size_append]
      congr 2 <;> omega
    · obtain ⟨hmarked, hinside⟩ := Classical.not_imp.1 hlast
      rw [Bool.not_eq_true] at hinside
      obtain ⟨x, rfl⟩ := List.getLast?_eq_some_iff.1 hmarked
      have hx : insideAfter inside x = false := by
        have hzero : ∀ escaped, openQuotes escaped [';'] = 0 := by decide
        rw [← hinside]
        simp only [insideAfter, Literal.openQuotes_append, hzero, Nat.add_zero]
      rw [filterTokens_mark _ _ _ hx] at h
      obtain ⟨rfl, rfl⟩ := Prod.mk.inj (Except.ok.inj h)
      refine ⟨gap ++ x, mid, by simp, hmid, ?_, rfl⟩
      have hsize : size (gap ++ x) ≤ e - size (';' :: mid) := by
        simp only [size_append, size_cons, size_nil] at hs ⊢
        omega
      split
      · rename_i hnil
        rw [hnil, List.append_nil, tokensTo_gap hgap]
      · rename_i hne
        have hx : IsWord x := ⟨hne, fun c hc => hw.2 c (List.mem_append_left _ hc)⟩
        have hfirst : word? (gap ++ x) = some (x, []) := by
          simpa using word?_gap_append hgap hx boundary_nil
        rw [tokensTo_some hsize hfirst, tokensTo_gap gap_nil]
        simp only [size_append, size_cons, size_nil, hmark, Nat.add_zero, Nat.sub_zero]
        congr 2 <;> omega

/-- Lexemes with a `;` after them are lexemes of a text with a `;` after it. -/
theorem takes_of_closed {ls ms : List (List Char)} {s₂ : List Char} (h : Closed ls ms)
    (htakes : Takes ms s s₂) :
    ∃ s₁ rest, s = s₁ ++ ';' :: s₂ ∧ Boundary s₂ ∧ Takes ls s₁ rest ∧ Gap rest := by
  cases h with
  | alone =>
    obtain ⟨mid, hls, hmark⟩ := takes_append.1 htakes
    obtain ⟨gap, mid', rfl, hgap, hmid, hnil⟩ := takes_cons.1 hmark
    obtain rfl := takes_nil.1 hnil
    obtain ⟨front, rfl⟩ := hls.suffix
    refine ⟨front ++ gap, gap, by simp, hmid, ?_, hgap⟩
    exact Takes.of_append_right (t := ';' :: s₂) (by simpa using hls)
  | attached ls last =>
    obtain ⟨mid, hls, hlast⟩ := takes_append.1 htakes
    obtain ⟨gap, mid', rfl, hgap, hmid, hnil⟩ := takes_cons.1 hlast
    obtain rfl := takes_nil.1 hnil
    obtain ⟨front, rfl⟩ := hls.suffix
    refine ⟨front ++ (gap ++ last), [], by simp, hmid, ?_, gap_nil⟩
    refine takes_append.2 ⟨gap ++ last, ?_, ?_⟩
    · exact Takes.of_append_right (t := ';' :: s₂) (by simpa using hls)
    · exact takes_cons.2 ⟨gap, [], by simp, hgap, boundary_nil, .nil []⟩

/-- A `;` after a text closes its lexemes: it stands alone behind a blank and is attached to the
last lexeme otherwise. -/
theorem closed_of_takes {ls : List (List Char)} {s₁ s₂ : List Char} (htakes : Takes ls s₁ rest)
    (hrest : Gap rest) (hs₂ : Boundary s₂) (hne : ls ≠ []) (hls : ∀ l ∈ ls, l ≠ []) :
    ∃ ms, Closed ls ms ∧ Takes ms (s₁ ++ ';' :: s₂) s₂ := by
  by_cases hnil : rest = []
  · subst hnil
    rcases List.eq_nil_or_concat ls with rfl | ⟨init, last, rfl⟩
    · contradiction
    · rw [List.concat_eq_append] at htakes hls ⊢
      refine ⟨_, .attached init last, ?_⟩
      obtain ⟨mid, hinit, hlast⟩ := takes_append.1 htakes
      obtain ⟨gap, mid', rfl, hgap, -, hnil⟩ := takes_cons.1 hlast
      obtain rfl := takes_nil.1 hnil
      have hlast := hls last (by simp)
      have hinit' := hinit.append_right (t := ';' :: s₂) (by simp [hlast])
      refine takes_append.2 ⟨_, hinit', ?_⟩
      exact takes_cons.2 ⟨gap, s₂, by simp, hgap, hs₂, .nil s₂⟩
  · refine ⟨_, .alone ls, takes_append.2 ⟨_, htakes.append_right hnil, ?_⟩⟩
    exact takes_cons.2 ⟨rest, s₂, by simp, hrest, hs₂, .nil s₂⟩

/-! ## The lexemes of conditions -/

/-- A lexeme that can stand in a filter: it is not empty, holds no open literal and does not end
with a `;`. -/
def Neat (l : List Char) : Prop :=
  l ≠ [] ∧ Clean false l ∧ l.getLast? ≠ some ';'

/-- A word without quotes, backslashes and `;`. -/
def Bare (w : List Char) : Prop :=
  IsWord w ∧ ∀ c ∈ w, c ≠ '"' ∧ c ≠ '\\' ∧ c ≠ ';'

instance (w : List Char) : Decidable (Bare w) :=
  @instDecidableAnd _ _ inferInstance
    (List.decidableBAll (fun c => c ≠ '"' ∧ c ≠ '\\' ∧ c ≠ ';') w)

/-- A bare word is neat. -/
theorem neat_word (h : Bare w) : Neat w := by
  obtain ⟨hw, h⟩ := h
  refine ⟨hw.1, clean_word fun c hc => ⟨hw.2 c hc, (h c hc).1, (h c hc).2.1⟩, fun hlast => ?_⟩
  exact (h ';' (List.mem_of_getLast? hlast)).2.2 rfl

/-- A quoted literal is neat. -/
theorem neat_quoted {body text : List Char} (h : Body body text) : Neat (quoted body) := by
  refine ⟨by simp [quoted], clean_quoted h, ?_⟩
  rw [quoted, ← List.cons_append, List.getLast?_append, List.getLast?_singleton, Option.some_or]
  decide

/-- A plain numeral is neat. -/
theorem neat_plain {x : Binary64} (h : Numeral.Plain w x) : Neat w := by
  refine neat_word ⟨h.isWord, fun c hc => ?_⟩
  rcases h.mem c hc with rfl | rfl | hdigit
  · decide
  · decide
  · have hne : ∀ d : Char, d.isDigit = false → c ≠ d := fun d hd =>
      Numeral.ne_of_isDigit hd hdigit
    exact ⟨hne _ (by decide), hne _ (by decide), hne _ (by decide)⟩

/-- The lexemes of a predicate are neat. -/
theorem neat_states {p : Predicate} {ls : List (List Char)} (h : States p ls) :
    ∀ l ∈ ls, Neat l := by
  cases h with
  | @mk field condition lexemes hcomparison =>
    have hname : Bare field.name.toList := by
      cases field <;> decide
    have hnumber : ∀ relation negated,
        ∀ w ∈ wordsOf (NumberRelation.phrase relation negated), Bare w := by
      intro relation negated
      cases relation <;> cases negated <;> decide
    have htext : ∀ relation negated,
        ∀ w ∈ wordsOf (TextRelation.phrase relation negated), Bare w := by
      intro relation negated
      cases relation <;> cases negated <;> decide
    intro l hl
    rcases List.mem_cons.1 hl with rfl | hl
    · exact neat_word hname
    · generalize field.kind = kind at hcomparison
      cases hcomparison with
      | number relation negated hplain =>
        rcases List.mem_append.1 hl with hl | hl
        · exact neat_word (hnumber relation negated l hl)
        · rw [List.mem_singleton.1 hl]
          exact neat_plain hplain
      | text relation negated hbody =>
        rcases List.mem_append.1 hl with hl | hl
        · exact neat_word (htext relation negated l hl)
        · rw [List.mem_singleton.1 hl]
          exact neat_quoted hbody

/-- The lexemes of conditions are neat, and there are some. -/
theorem neat_conditions {gs : List (List Predicate)} {ls : List (List Char)}
    (h : Conditions gs ls) : ls ≠ [] ∧ ∀ l ∈ ls, Neat l := by
  have hand : Neat "and".toList := neat_word (by decide)
  have hor : Neat "or".toList := neat_word (by decide)
  induction h with
  | atom hatom =>
    refine ⟨?_, neat_states hatom⟩
    cases hatom
    simp
  | and hatom _ ih =>
    refine ⟨by simp, fun l hl => ?_⟩
    simp only [List.mem_append, List.mem_cons] at hl
    rcases hl with hl | rfl | hl
    · exact neat_states hatom l hl
    · exact hand
    · exact ih.2 l hl
  | or hatom _ ih =>
    refine ⟨by simp, fun l hl => ?_⟩
    simp only [List.mem_append, List.mem_cons] at hl
    rcases hl with hl | rfl | hl
    · exact neat_states hatom l hl
    · exact hor
    · exact ih.2 l hl

/-! ## The filter clause -/

/-- A word is taken if it stands at the front of the text. -/
theorem takeWord_eq_ok_iff {clause : Clause} {word : String} (hs : size s ≤ e)
    (hword : IsWord word.toList) :
    takeWord clause word (tokensTo e s) = .ok ts ↔
      ∃ rest, Takes [word.toList] s rest ∧ ts = tokensTo e rest := by
  simp only [takes_word hword, takes_nil]
  cases h : word? s with
  | none => simp [tokensTo_none h, takeWord]
  | some found =>
    obtain ⟨w, mid⟩ := found
    rw [tokensTo_some hs h, takeWord]
    simp only [ofList_eq_iff]
    split
    · rename_i hw
      simp [hw, eq_comm]
    · rename_i hw
      simp [hw]

/-- The tokens up to the end of a filter are read as groups exactly when they are the closed
conditions of the grammar. -/
theorem filterTokens_groups_iff (hs : Within source e s) {f : Filter} :
    (∃ taken, filterTokens false (tokensTo e s) = .ok (taken, ts) ∧
        FilterClause.filter source taken = .ok f) ↔
      ∃ gs ls closed rest, f = .ofGroups gs ∧ Conditions gs ls ∧ Closed ls closed ∧
        Takes closed s rest ∧ ts = tokensTo e rest := by
  constructor
  · rintro ⟨taken, htokens, hfilter⟩
    obtain ⟨s₁, s₂, rfl, hs₂, rfl, rfl⟩ := eq_of_filterTokens hs.size_le htokens
    obtain ⟨gs, hgs, rfl⟩ := map_eq_ok_iff.1 hfilter
    obtain ⟨ls, rest, hconditions, htakes, hrest⟩ :=
      (FilterClause.groups_eq_ok_iff hs.of_append).1 hgs
    obtain ⟨hne, hneat⟩ := neat_conditions hconditions
    obtain ⟨closed, hclosed, htakes⟩ :=
      closed_of_takes htakes hrest hs₂ hne fun l hl => (hneat l hl).1
    exact ⟨gs, ls, closed, s₂, rfl, hconditions, hclosed, htakes, rfl⟩
  · rintro ⟨gs, ls, closed, s₂, rfl, hconditions, hclosed, htakes, rfl⟩
    obtain ⟨s₁, rest, rfl, hs₂, htakes, hrest⟩ := takes_of_closed hclosed htakes
    have hclean := clean_of_takes htakes hrest fun l hl => ((neat_conditions hconditions).2 l hl).2
    refine ⟨_, filterTokens_of_clean hs.size_le hs₂ hclean, map_eq_ok_iff.2 ⟨gs, ?_, rfl⟩⟩
    exact (FilterClause.groups_eq_ok_iff hs.of_append).2 ⟨ls, rest, hconditions, htakes, hrest⟩

end CourseQuery.Sentence
