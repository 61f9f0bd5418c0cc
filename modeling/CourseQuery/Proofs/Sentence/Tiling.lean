import CourseQuery.Proofs.Sentence.WellFormed
import Mathlib.Data.List.Chain

/-!
# Tokens tile a text

The tokens of a text are its longest runs of characters that are not blank. `IsRun` says this of one
token and its positions, without the tokenizer; `Tiles` says what a list of tokens has to be: these
runs, in the order of the text, with blanks between them, so that every other character lies in
exactly one of them. The texts of the tokens are all that blanks of another kind or number keep.
-/

set_option autoImplicit false

namespace CourseQuery.Sentence

open Text (isBlank)
open Text.Utf8 (size size_nil size_cons size_append size_pos)

/-- A token is a longest run of characters of a text that are not blank, at its byte positions. -/
structure IsRun (source : String) (t : Token) : Prop where
  isWord : IsWord t.chars
  place : ∃ pre post, source.toList = pre ++ (t.chars ++ post) ∧ Boundary pre.reverse ∧
    Boundary post ∧ t.start = size pre ∧ t.stop = size pre + size t.chars

/-- Tokens are the words of a text, each at its place. -/
structure Tiles (source : String) (ts : List Token) : Prop where
  /-- The tokens are the longest runs of characters that are not blank. -/
  runs : ∀ t, t ∈ ts ↔ IsRun source t
  /-- A token is not empty, holds no blank and is the text at its positions. -/
  texts : ∀ t ∈ ts, IsWord t.chars ∧ t.start < t.stop ∧ slice source t.start t.stop = some t.chars
  /-- Each token ends before those behind it begin. -/
  ordered : ts.Pairwise fun t u => t.stop < u.start
  /-- Between a token and the next one there are blanks, and at least one. -/
  apart : ts.IsChain fun t u =>
    ∃ gap, slice source t.stop u.start = some gap ∧ gap ≠ [] ∧ Gap gap
  /-- A character that is not blank lies in a token, and no other token touches it. -/
  covered : ∀ pre c post, source.toList = pre ++ c :: post → isBlank c = false →
    ∃ t ∈ ts, t.start ≤ size pre ∧ size pre + c.utf8Size ≤ t.stop ∧
      ∀ u ∈ ts, u.start < size pre + c.utf8Size → size pre < u.stop → u = t

/-- Words joined by blanks, at least one in each place between two of them. -/
inductive Joined : List (List Char) → List Char → Prop
  | nil : Joined [] []
  | one (w : List Char) : Joined [w] w
  | cons {w gap s : List Char} {ws : List (List Char)} :
      Gap gap → gap ≠ [] → ws ≠ [] → Joined ws s → Joined (w :: ws) (w ++ (gap ++ s))

section Runs

variable {source : String} {t u : Token} {gap w x y pre post : List Char}

/-- No word begins where only a blank may stand. -/
theorem IsWord.not_boundary (hw : IsWord w) : ¬ Boundary (w ++ x) := by
  intro h
  obtain ⟨hne, hw⟩ := hw
  cases w with
  | nil => contradiction
  | cons c w =>
    have hc := hw c List.mem_cons_self
    rw [boundary_cons.1 h] at hc
    contradiction

/-- No word ends where only a blank may stand. -/
theorem IsWord.not_boundary_reverse (hw : IsWord w) : ¬ Boundary (x ++ w).reverse := by
  have hreverse : IsWord w.reverse := by
    refine ⟨List.reverse_ne_nil_iff.2 hw.1, ?_⟩
    intro c hc
    exact hw.2 c (List.mem_reverse.1 hc)
  rw [List.reverse_append]
  exact hreverse.not_boundary

/-- Before blanks a word may end. -/
theorem Gap.boundary_reverse (h : Gap gap) : Boundary gap.reverse := by
  intro c hc
  exact h c (List.mem_reverse.1 (List.mem_of_mem_head? hc))

/-- Behind a gap and before a word there is a boundary, unless the gap is empty. -/
theorem boundary_reverse_append (hpre : Boundary pre.reverse ∨ Boundary (gap ++ (w ++ x)))
    (hgap : Gap gap) (hw : IsWord w) : Boundary (pre ++ gap).reverse := by
  rw [List.reverse_append]
  by_cases hne : gap = []
  · subst hne
    exact hpre.resolve_right hw.not_boundary
  · exact hgap.boundary_reverse.append (List.reverse_ne_nil_iff.2 hne)

/-- A run is cut out of the text at its place. -/
theorem IsRun.slice_eq (h : IsRun source t) : slice source t.start t.stop = some t.chars := by
  obtain ⟨-, pre, post, hsource, -, -, hstart, hstop⟩ := h
  rw [hstart, hstop]
  exact Sentence.slice_eq hsource

/-- A run is not empty. -/
theorem IsRun.start_lt_stop (h : IsRun source t) : t.start < t.stop := by
  obtain ⟨hword, pre, post, -, -, -, hstart, hstop⟩ := h
  have := size_pos hword.1
  omega

/-- A word that begins inside another one is that word, since only a blank may stand before it. -/
theorem eq_of_inside {v post' : List Char} (hw : IsWord w) (hv : IsWord v)
    (h : w ++ post = x ++ (v ++ post')) (hx : Boundary (pre ++ x).reverse) (hpost : Boundary post)
    (hpost' : Boundary post') (hinside : size x < size w) : x = [] ∧ w = v := by
  have hnil : x = [] := by
    by_contra hne
    rcases List.append_eq_append_iff.1 h with ⟨m, rfl, -⟩ | ⟨m, rfl, -⟩
    · rw [size_append] at hinside
      omega
    · have hword : IsWord x := ⟨hne, fun c hc => hw.2 c (List.mem_append_left m hc)⟩
      exact hword.not_boundary_reverse hx
  subst hnil
  have hfirst : word? (w ++ post) = some (w, post) := word?_gap_append gap_nil hw hpost
  have hfirst' : word? (v ++ post') = some (v, post') := word?_gap_append gap_nil hv hpost'
  rw [List.nil_append] at h
  rw [h, hfirst'] at hfirst
  exact ⟨rfl, (Prod.mk.inj (Option.some.inj hfirst)).1.symm⟩

/-- A token is told from its characters and its place. -/
theorem token_eq (hchars : t.chars = u.chars) (hstart : t.start = u.start)
    (hstop : t.stop = u.stop) : t = u := by
  obtain ⟨text, start, stop⟩ := t
  obtain ⟨text', start', stop'⟩ := u
  obtain rfl : text = text' := String.toList_inj.1 hchars
  obtain rfl : start = start' := hstart
  obtain rfl : stop = stop' := hstop
  rfl

/-- Runs that share a character are the same. -/
theorem IsRun.eq_of_touch (ht : IsRun source t) (hu : IsRun source u) (htu : t.start < u.stop)
    (hut : u.start < t.stop) : t = u := by
  obtain ⟨hw, pre, post, hsource, hpre, hpost, hstart, hstop⟩ := ht
  obtain ⟨hv, pre', post', hsource', hpre', hpost', hstart', hstop'⟩ := hu
  rw [hsource] at hsource'
  rcases List.append_eq_append_iff.1 hsource' with ⟨x, rfl, hx⟩ | ⟨x, rfl, hx⟩
  · rw [size_append] at hstart'
    obtain ⟨rfl, hchars⟩ := eq_of_inside hw hv hx hpre' hpost hpost' (by omega)
    rw [size_append, hchars.symm] at hstop'
    rw [size_nil] at hstart' hstop'
    exact token_eq hchars (by omega) (by omega)
  · rw [size_append] at hstart
    obtain ⟨rfl, hchars⟩ := eq_of_inside hv hw hx hpre hpost' hpost (by omega)
    rw [size_append, hchars.symm] at hstop
    rw [size_nil] at hstart hstop
    exact token_eq hchars.symm (by omega) (by omega)

end Runs

/-! ## The tokens of a text -/

section Tokens

variable {source : String} {e : Nat} {pre s t gap w rest : List Char}

/-- The tokens of the end of a text, cut off outside its words, are runs of the text. -/
theorem isRun_of_mem (hsource : source.toList = pre ++ s)
    (hcut : Boundary pre.reverse ∨ Boundary s) :
    ∀ t ∈ tokensTo (size source.toList) s, IsRun source t := by
  induction s using words_induction generalizing pre with
  | gap s hs =>
    rw [tokensTo_gap hs]
    simp
  | word gap w rest hgap hw hrest ih =>
    have hsize : size source.toList = size pre + (size gap + (size w + size rest)) := by
      simp only [hsource, size_append]
    have hle : size (gap ++ (w ++ rest)) ≤ size source.toList := by
      simp only [hsize, size_append]
      omega
    have hmore : source.toList = (pre ++ (gap ++ w)) ++ rest := by
      simp only [hsource, List.append_assoc]
    rw [tokensTo_word hle hgap hw hrest, List.forall_mem_cons]
    refine ⟨?_, ih hmore (.inr hrest)⟩
    have hchars : (Token.mk (String.ofList w) (size source.toList - size (w ++ rest))
        (size source.toList - size rest)).chars = w := String.toList_ofList
    refine ⟨by rwa [hchars], pre ++ gap, rest, ?_, boundary_reverse_append hcut hgap hw, hrest, ?_,
      ?_⟩
    · rw [hchars, hsource, List.append_assoc]
    · simp only [hsize, size_append]
      omega
    · rw [hchars]
      simp only [hsize, size_append]
      omega

/-- A character that is not blank stands behind the gap that a text begins with. -/
theorem exists_behind_gap {c : Char} {post : List Char} (hgap : Gap gap) (hc : isBlank c = false)
    (h : gap ++ s = pre ++ c :: post) : ∃ y, pre = gap ++ y ∧ s = y ++ c :: post := by
  rcases List.append_eq_append_iff.1 h with ⟨y, rfl, hy⟩ | ⟨y, rfl, hy⟩
  · exact ⟨y, rfl, hy⟩
  · cases y with
    | nil => exact ⟨[], by simp, hy.symm⟩
    | cons d y =>
      obtain ⟨rfl, -⟩ := List.cons.inj hy
      have hblank := (gap_cons.1 (gap_append.1 hgap).2).1
      rw [hc] at hblank
      contradiction

/-- A character that is not blank lies in a token. -/
theorem exists_token_of_char {c : Char} {post : List Char} (hc : isBlank c = false)
    (hs : size s ≤ e) (htext : s = pre ++ c :: post) :
    ∃ t ∈ tokensTo e s, t.start ≤ e - size (c :: post) ∧ e - size post ≤ t.stop := by
  induction s using words_induction generalizing pre with
  | gap s hgap =>
    rw [htext, gap_append, gap_cons, hc] at hgap
    obtain ⟨-, hblank, -⟩ := hgap
    contradiction
  | word gap w rest hgap hw hrest ih =>
    obtain ⟨y, rfl, hy⟩ := exists_behind_gap hgap hc htext
    rw [tokensTo_word hs hgap hw hrest]
    simp only [size_append] at hs
    rcases List.append_eq_append_iff.1 hy with ⟨x, rfl, hx⟩ | ⟨x, rfl, hx⟩
    · obtain ⟨t, ht, hplace⟩ := ih (by omega) hx
      exact ⟨t, List.mem_cons_of_mem _ ht, hplace⟩
    · cases x with
      | nil =>
        rw [List.nil_append] at hx
        rw [← hx, boundary_cons, hc] at hrest
        contradiction
      | cons d x =>
        rw [List.cons_append] at hx
        obtain ⟨rfl, rfl⟩ := List.cons.inj hx
        refine ⟨_, List.mem_cons_self, ?_, ?_⟩
        · simp only [size_append, size_cons]
          omega
        · simp only [size_append]
          omega

/-- What stands before the tokens of a text is before their positions. -/
theorem le_start_of_mem (hs : size s ≤ e) : ∀ t ∈ tokensTo e s, e - size s ≤ t.start := by
  induction s using words_induction with
  | gap s hgap =>
    rw [tokensTo_gap hgap]
    simp
  | word gap w rest hgap hw hrest ih =>
    rw [tokensTo_word hs hgap hw hrest, List.forall_mem_cons]
    simp only [size_append] at hs ⊢
    refine ⟨by omega, ?_⟩
    intro t ht
    have := ih (by omega) t ht
    omega

/-- What a text begins with has no part in its tokens. -/
theorem tokensTo_gap_append (hs : size (gap ++ s) ≤ e) (hgap : Gap gap) :
    tokensTo e (gap ++ s) = tokensTo e s := by
  have hsize : size s ≤ e := by
    rw [size_append] at hs
    omega
  rw [tokensTo_eq hs, tokensTo_eq hsize, word?_behind_gap hgap]

/-- The tokens behind a boundary begin behind a blank. -/
theorem lt_start_of_mem (hs : size s ≤ e) (hboundary : Boundary s) :
    ∀ t ∈ tokensTo e s, e - size s < t.start := by
  cases s with
  | nil =>
    rw [tokensTo_gap gap_nil]
    simp
  | cons c s =>
    have hc := c.utf8Size_pos
    have hgap : Gap [c] := gap_cons.2 ⟨boundary_cons.1 hboundary, gap_nil⟩
    have htokens : tokensTo e ([c] ++ s) = tokensTo e s := tokensTo_gap_append hs hgap
    rw [size_cons] at hs
    rw [List.singleton_append] at htokens
    rw [htokens]
    intro t ht
    have := le_start_of_mem (by omega) t ht
    rw [size_cons]
    omega

/-- Each token ends before the tokens behind it begin. -/
theorem tokensTo_pairwise (hs : size s ≤ e) :
    (tokensTo e s).Pairwise fun t u => t.stop < u.start := by
  induction s using words_induction with
  | gap s hgap =>
    rw [tokensTo_gap hgap]
    exact .nil
  | word gap w rest hgap hw hrest ih =>
    rw [tokensTo_word hs hgap hw hrest]
    have hsize : size rest ≤ e := by
      simp only [size_append] at hs
      omega
    exact List.pairwise_cons.2 ⟨lt_start_of_mem hsize hrest, ih hsize⟩

/-- Between a token and the next one there are blanks. -/
theorem tokensTo_apart (hsource : source.toList = pre ++ s) :
    (tokensTo (size source.toList) s).IsChain fun t u =>
      ∃ gap, slice source t.stop u.start = some gap ∧ gap ≠ [] ∧ Gap gap := by
  induction s using words_induction generalizing pre with
  | gap s hgap =>
    rw [tokensTo_gap hgap]
    exact .nil
  | word gap w rest hgap hw hrest ih =>
    have hsize : size source.toList = size pre + (size gap + (size w + size rest)) := by
      simp only [hsource, size_append]
    have hle : size (gap ++ (w ++ rest)) ≤ size source.toList := by
      simp only [hsize, size_append]
      omega
    have hmore : source.toList = (pre ++ (gap ++ w)) ++ rest := by
      simp only [hsource, List.append_assoc]
    rw [tokensTo_word hle hgap hw hrest]
    refine (ih hmore).cons ?_
    intro u hu
    have hrestSize : size rest ≤ size source.toList := by omega
    cases hword : word? rest with
    | none =>
      rw [tokensTo_none hword] at hu
      contradiction
    | some found =>
      obtain ⟨v, later⟩ := found
      rw [tokensTo_some hrestSize hword] at hu
      obtain rfl := Option.some.inj hu
      obtain ⟨gap', rfl, hgap', hv, -⟩ := word?_eq_some_iff.1 hword
      refine ⟨gap', ?_, ?_, hgap'⟩
      · rw [← slice_eq (hmore)]
        congr 1 <;> simp only [hsize, size_append] <;> omega
      · rintro rfl
        exact hv.not_boundary hrest

end Tokens

/-! ## The tokens of a whole text -/

section Whole

variable {source : String} {t : Token} {pre post : List Char}

/-- Every token is a maximal run. -/
theorem isRun_of_mem_tokenize (h : t ∈ tokenize source) : IsRun source t := by
  rw [tokenize_eq] at h
  exact isRun_of_mem (List.nil_append _).symm (.inl boundary_nil) t h

/-- Every character that is no blank lies in a token. -/
theorem exists_token_at {c : Char} (htext : source.toList = pre ++ c :: post)
    (hc : isBlank c = false) :
    ∃ t ∈ tokenize source, t.start ≤ size pre ∧ size pre + c.utf8Size ≤ t.stop := by
  obtain ⟨t, ht, hstart, hstop⟩ := exists_token_of_char hc (Nat.le_refl _) htext
  rw [← tokenize_eq] at ht
  simp only [htext, size_append, size_cons] at hstart hstop
  exact ⟨t, ht, by omega, by omega⟩

/-- The tokens are the longest runs of characters that are not blank. -/
theorem mem_tokenize_iff : t ∈ tokenize source ↔ IsRun source t := by
  refine ⟨isRun_of_mem_tokenize, ?_⟩
  intro h
  obtain ⟨hword, pre, post, hsource, -, -, hstart, hstop⟩ := id h
  obtain ⟨c, w, hchars⟩ := List.exists_cons_of_ne_nil hword.1
  have hsize := size_pos hword.1
  have hc := hword.2 c (by simp [hchars])
  have htext : source.toList = pre ++ c :: (w ++ post) := by
    rw [hsource, hchars, List.cons_append]
  -- the token with the first character of the run is the run
  obtain ⟨u, hu, hustart, hustop⟩ := exists_token_at htext hc
  have hcsize := c.utf8Size_pos
  rwa [h.eq_of_touch (isRun_of_mem_tokenize hu) (by omega) (by omega)]

/-- The tokens of a text tile it. -/
theorem tiles_tokenize (source : String) : Tiles source (tokenize source) where
  runs _ := mem_tokenize_iff
  texts t ht := by
    have hrun := isRun_of_mem_tokenize ht
    exact ⟨hrun.isWord, hrun.start_lt_stop, hrun.slice_eq⟩
  ordered := by
    rw [tokenize_eq]
    exact tokensTo_pairwise (Nat.le_refl _)
  apart := by
    rw [tokenize_eq]
    exact tokensTo_apart (List.nil_append _).symm
  covered pre c post htext hc := by
    obtain ⟨t, ht, hstart, hstop⟩ := exists_token_at htext hc
    have hcsize := c.utf8Size_pos
    refine ⟨t, ht, hstart, hstop, ?_⟩
    intro u hu hbegins hends
    exact (isRun_of_mem_tokenize hu).eq_of_touch (isRun_of_mem_tokenize ht) (by omega) (by omega)

end Whole

/-! ## Words joined again -/

/-- Words that are joined by blanks are laid out in the text. -/
theorem Joined.laidOut {ws : List (List Char)} {s : List Char} (h : Joined ws s) :
    LaidOut ws s := by
  induction h with
  | nil => exact ⟨[], .nil [], gap_nil⟩
  | one w =>
    refine ⟨[], ?_, gap_nil⟩
    have hword : Takes [w] ([] ++ (w ++ [])) [] := .cons gap_nil boundary_nil (.nil [])
    rwa [List.nil_append, List.append_nil] at hword
  | @cons w gap s ws hgap hne hws _ ih =>
    obtain ⟨rest, htakes, hrest⟩ := ih
    have hboundary : Boundary (gap ++ s) := by
      cases gap with
      | nil => contradiction
      | cons c gap => exact boundary_cons.2 (gap_cons.1 hgap).1
    have hmore : Takes (w :: ws) ([] ++ (w ++ (gap ++ s))) rest :=
      .cons gap_nil hboundary (htakes.gap_append hws hgap)
    exact ⟨rest, hmore, hrest⟩

/-- Words that are joined by blanks are the tokens of the text. -/
theorem map_text_tokenize_of_joined {source joined : String}
    (h : Joined ((tokenize source).map Token.chars) joined.toList) :
    (tokenize joined).map Token.text = (tokenize source).map Token.text := by
  have hwords : ∀ w ∈ (tokenize source).map Token.chars, IsWord w := by
    intro w hw
    obtain ⟨t, ht, rfl⟩ := List.mem_map.1 hw
    exact (isRun_of_mem_tokenize ht).isWord
  have hchars := (laidOut_words_iff (Nat.le_refl _) hwords).1 h.laidOut
  rw [← tokenize_eq] at hchars
  have htext : Token.text = String.ofList ∘ Token.chars := funext fun t => (ofList_chars t).symm
  rw [htext, ← List.map_map, ← List.map_map, hchars]

/-- The tokens of a text tile it, and their texts are the tokens of every text in which they are
joined by blanks. -/
theorem tokens_tile_and_rejoin (source : String) :
    Tiles source (tokenize source) ∧
      ∀ joined : String, Joined ((tokenize source).map Token.chars) joined.toList →
        (tokenize joined).map Token.text = (tokenize source).map Token.text :=
  ⟨tiles_tokenize source, fun _ => map_text_tokenize_of_joined⟩

/-- Two words that were two blanks apart are found again behind a tab. -/
theorem tokens_tile_and_rejoin_tab :
    Joined ((tokenize "is  \"é\",").map Token.chars) "is\t\"é\",".toList ∧
      (tokenize "is\t\"é\",").map Token.text = (tokenize "is  \"é\",").map Token.text := by
  have hwords : (tokenize "is  \"é\",").map Token.chars = [['i', 's'], ['"', 'é', '"', ',']] := by
    decide +kernel
  have hgap : Gap ['\t'] := gap_cons.2 ⟨by decide, gap_nil⟩
  have hjoined : Joined ((tokenize "is  \"é\",").map Token.chars) "is\t\"é\",".toList := by
    rw [hwords]
    exact .cons hgap (List.cons_ne_nil _ _) (List.cons_ne_nil _ _) (.one _)
  exact ⟨hjoined, (tokens_tile_and_rejoin _).2 _ hjoined⟩

end CourseQuery.Sentence
