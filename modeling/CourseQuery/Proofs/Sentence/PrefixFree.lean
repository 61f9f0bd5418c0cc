import CourseQuery.Proofs.Sentence.Blame

/-!
# No sentence begins with another

A sentence ends with a full stop at the end of a word. Text behind it either begins another word,
and is blamed as text after the full stop, or becomes part of the last word, which is then no field
any more. In both cases the clauses before the last word are read as they were: nothing behind them
moves their ends, not even a `;` or a quote.
-/

set_option autoImplicit false

namespace CourseQuery.Sentence

open Text.Utf8 (size size_append)

variable {source : String} {e : Nat} {s t w mid rest : List Char} {ls : List (List Char)}

/-! ## Texts that go on -/

/-- A text does not touch the word before a rest of another. -/
def Apart (rest t : List Char) : Prop :=
  rest ≠ [] ∨ Boundary t

/-- What stays apart behind a tail stays apart behind the whole. -/
theorem Apart.of_suffix {front : List Char} (h : Apart rest t) (hsuffix : rest <:+ front) :
    Apart front t := by
  apply h.imp_left
  rintro hrest rfl
  exact hrest (List.suffix_nil.1 hsuffix)

/-- Lexemes stand in a text also when something follows that stays apart. -/
theorem Takes.append_apart (h : Takes ls s rest) (hapart : Apart rest t) :
    Takes ls (s ++ t) (rest ++ t) := by
  rcases hapart with hrest | ht
  · exact h.append_right hrest
  · exact h.append_boundary ht

/-- The first word of a text is the same when something follows that stays apart. -/
theorem word?_append (h : word? s = some (w, rest)) (hapart : Apart rest t) :
    word? (s ++ t) = some (w, rest ++ t) := by
  obtain ⟨gap, rfl, hgap, hw, hrest⟩ := word?_eq_some_iff.1 h
  have hmore : Boundary (rest ++ t) := hapart.elim hrest.append hrest.append_boundary
  rw [List.append_assoc, List.append_assoc]
  exact word?_gap_append hgap hw hmore

/-- A text with a word is not empty. -/
theorem ne_nil_of_word? (h : word? s = some (w, rest)) : s ≠ [] := by
  rintro rfl
  contradiction

/-! ## The last word with more characters -/

/-- No name of a field holds a full stop. -/
theorem dot_not_mem_name (f : Field) : '.' ∉ f.name.toList := by
  cases f <;> decide

/-- A word with a full stop inside names no field, whatever mark is split off. -/
theorem fieldOf_splitMark (clause : Clause) {token word : Token} {mark : Option Char}
    (hdot : '.' ∈ token.chars.dropLast) (hsplit : token.splitMark = (word, mark)) :
    fieldOf clause word.text = .error (.unknownField clause word.text) := by
  have hword : '.' ∈ word.chars := by
    cases mark with
    | none =>
      rw [(eq_of_splitMark_none hsplit).1]
      exact (List.dropLast_sublist _).subset hdot
    | some mark =>
      rw [(chars_of_splitMark hsplit).2, List.dropLast_concat] at hdot
      exact hdot
  have hnone : Field.ofName? word.text = none := by
    apply Option.eq_none_iff_forall_ne_some.2
    intro f hf
    apply dot_not_mem_name f
    rw [← Field.ofName?_eq_some_iff.1 hf]
    exact hword
  rw [fieldOf, hnone]

/-- More characters behind the word that ends a sentence become a part of it. -/
theorem word?_glued {f : Field} (h : Takes [f.name.toList ++ ['.']] s []) (ht : ¬ Boundary t) :
    ∃ w mid, word? (s ++ t) = some (w, mid) ∧ '.' ∈ w.dropLast := by
  have hlast := (name_mark_isWord f (show '.' ∈ Token.marks by decide)).1
  obtain ⟨mid, hword, hnil⟩ := (takes_word hlast).1 h
  obtain rfl := takes_nil.1 hnil
  obtain ⟨gap, rfl, hgap, hw, -⟩ := word?_eq_some_iff.1 hword
  obtain ⟨u, t', rfl, hu, ht'⟩ := FilterClause.exists_front t
  have hne : u ≠ [] := by
    rintro rfl
    exact ht ht'
  have hglued : IsWord (f.name.toList ++ ['.'] ++ u) := by
    refine ⟨by simp, ?_⟩
    intro c hc
    rcases List.mem_append.1 hc with hc | hc
    · exact hw.2 c hc
    · exact hu c hc
  refine ⟨f.name.toList ++ ['.'] ++ u, t', ?_, ?_⟩
  · rw [← word?_gap_append hgap hglued ht']
    simp
  · rw [List.dropLast_append_of_ne_nil hne]
    simp

/-- A word with a full stop inside is no shown field. -/
theorem displayFields_inside {first sawAnd : Bool} (hsize : size s ≤ e)
    (hword : word? s = some (w, mid)) (hinside : '.' ∈ w.dropLast) :
    ∃ word, displayFields first sawAnd (tokensTo e s) = .error (.unknownField .display word) := by
  have hand : String.ofList w ≠ "and" := by
    intro hand
    rw [ofList_eq_iff] at hand
    rw [hand] at hinside
    contradiction
  rw [tokensTo_some hsize hword, displayFields, if_neg hand]
  cases hsplit : (Token.mk (String.ofList w) (e - size (w ++ mid)) (e - size mid)).splitMark with
  | mk word mark =>
    have hchars : '.' ∈ (Token.mk (String.ofList w) (e - size (w ++ mid))
        (e - size mid)).chars.dropLast := by
      rw [Token.chars, String.toList_ofList]
      exact hinside
    refine ⟨word.text, ?_⟩
    simp only [fieldOf_splitMark .display hchars hsplit]
    rfl

/-- The fields of a sentence whose last word has more characters are not read. -/
theorem displayFields_glued {first sawAnd : Bool} {fields : List Field}
    (hls : FieldsAt (first || sawAnd) '.' fields ls) (htakes : Takes ls s []) (ht : ¬ Boundary t)
    (hsize : size (s ++ t) ≤ e) :
    ∃ word, displayFields first sawAnd (tokensTo e (s ++ t)) =
      .error (.unknownField .display word) := by
  have hdot : '.' ∈ Token.marks := by decide
  have hcomma : ',' ∈ Token.marks := by decide
  -- the fields after a word are not empty, so only the last word is touched
  have hapart : ∀ {mayEnd fields more mid}, FieldsAt mayEnd '.' fields more →
      Takes more mid [] → Apart mid t := by
    intro mayEnd fields more mid hmore hmid
    obtain ⟨w, rest, hword, -⟩ := (shows_iff hdot).1 ⟨more, hmore, hmid⟩
    exact .inl (ne_nil_of_word? hword)
  induction ls generalizing s first sawAnd fields with
  | nil =>
    rcases fieldsAt_iff.1 hls with ⟨-, more, heq, -⟩ | ⟨f, later, more, -, heq, -⟩ | ⟨-, f, -, heq⟩
    · contradiction
    · contradiction
    · contradiction
  | cons l ls ih =>
    rcases fieldsAt_iff.1 hls with ⟨hmay, more, heq, hmore⟩ | ⟨f, later, more, rfl, heq, hmore⟩ |
      ⟨hmay, f, rfl, heq⟩
    · obtain ⟨rfl, rfl⟩ := List.cons.inj heq
      obtain ⟨mid, hword, hmid⟩ := (takes_word (by decide)).1 htakes
      have hword := word?_append hword (hapart hmore hmid)
      rw [displayFields_and hsize hword, hmay, if_neg Bool.false_ne_true]
      have hmore' : FieldsAt (first || true) '.' fields ls := by
        rwa [Bool.or_true]
      exact ih hmore' hmid (word?_size_le hword hsize)
    · obtain ⟨rfl, rfl⟩ := List.cons.inj heq
      obtain ⟨mid, hword, hmid⟩ := (takes_word (name_mark_isWord f hcomma).1).1 htakes
      have hword := word?_append hword (hapart hmore hmid)
      obtain ⟨word, herror⟩ := @ih mid false false later hmore hmid (word?_size_le hword hsize)
      refine ⟨word, ?_⟩
      rw [displayFields_name hsize hcomma hword, if_pos rfl, herror]
      rfl
    · obtain ⟨rfl, rfl⟩ := List.cons.inj heq
      obtain ⟨w, mid, hword, hinside⟩ := word?_glued htakes ht
      exact displayFields_inside hsize hword hinside

/-- A display clause whose full stop runs on into a word names an unknown field. -/
theorem displayClause_glued {fields : List Field} (hls : ShownFields '.' fields ls)
    (htakes : Takes (wordsOf "show" ++ ls) s []) (ht : ¬ Boundary t) (hsize : size (s ++ t) ≤ e) :
    ∃ word, displayClause (tokensTo e (s ++ t)) = .error (.unknownField .display word) := by
  obtain ⟨mid, hshow, hmid⟩ := takes_append.1 htakes
  have hfields : FieldsAt (true || false) '.' fields ls := hls
  have hapart : Apart mid t := by
    obtain ⟨w, rest, hword, -⟩ := (shows_iff (by decide)).1 ⟨ls, hfields, hmid⟩
    exact .inl (ne_nil_of_word? hword)
  have hshow := hshow.append_apart hapart
  obtain ⟨word, herror⟩ := displayFields_glued hfields hmid ht (hshow.size_le hsize)
  have htaken : takeWord .display "show" (tokensTo e (s ++ t)) = .ok (tokensTo e (mid ++ t)) :=
    (takeWord_eq_ok_iff hsize (by decide)).2 ⟨_, hshow, rfl⟩
  exact ⟨word, bind_eq_error_iff.2 (.inr ⟨_, htaken, herror⟩)⟩

/-- An order clause whose full stop runs on into a word names an unknown field. -/
theorem orderClause_glued {f : Field}
    (htakes : Takes (wordsOf "sort in ascending order by" ++ [f.name.toList ++ ['.']]) s [])
    (ht : ¬ Boundary t) (hsize : size (s ++ t) ≤ e) :
    ∃ word, orderClause (tokensTo e (s ++ t)) = .error (.unknownField .order word) := by
  have hwords : ∀ w ∈ ["sort", "in", "ascending", "order", "by"], IsWord w.toList := by decide
  obtain ⟨mid, hfront, hlast⟩ := takes_append.1 htakes
  have hapart : Apart mid t := by
    obtain ⟨rest, hword, -⟩ := (takes_word (name_mark_isWord f (by decide)).1).1 hlast
    exact .inl (ne_nil_of_word? hword)
  have hfront := hfront.append_apart hapart
  obtain ⟨w, rest, hword, hinside⟩ := word?_glued hlast ht
  have htaken : takeWords .order ["sort", "in", "ascending", "order", "by"] (tokensTo e (s ++ t)) =
      .ok (tokensTo e (mid ++ t)) := (takeWords_eq_ok_iff hsize hwords).2 ⟨_, hfront, rfl⟩
  rw [orderClause, htaken, tokensTo_some (hfront.size_le hsize) hword]
  cases hsplit : (Token.mk (String.ofList w) (e - size (w ++ rest)) (e - size rest)).splitMark with
  | mk word mark =>
    have hchars : '.' ∈ (Token.mk (String.ofList w) (e - size (w ++ rest))
        (e - size rest)).chars.dropLast := by
      rw [Token.chars, String.toList_ofList]
      exact hinside
    refine ⟨word.text, ?_⟩
    simp only [bind, Except.bind, hsplit, fieldOf_splitMark .order hchars hsplit]

/-! ## Sentences that go on -/

/-- The dataset and filter clauses of a query stand in front of the rest of a text. -/
structure Front (q : Query) (s rest : List Char) : Prop where
  valid : DatasetId.Valid q.dataset
  clauses : ∃ finds, Finds q.filter finds ∧
    Takes (wordsOf "In courses dataset" ++ [q.dataset.toList ++ [',']] ++ finds) s rest

/-- The clauses of a query stand in a text: the filter clause ends at `s₂`, the shown fields end at
`s₃` and the order at `s₄`. -/
structure Clauses (q : Query) (order : Bool) (s s₂ s₃ s₄ : List Char) : Prop where
  front : Front q s s₂
  display : ∃ fields shows, ShownFields (endMark order) fields shows ∧
    Takes (wordsOf "show" ++ shows) s₂ s₃
  ending : ∃ words, Ending (endMark order) q.sort words ∧ Takes words s₃ s₄

section Clauses

variable {q : Query} {order : Bool} {s₂ s₃ s₄ : List Char}

/-- A sentence that is read is made of its clauses and blanks behind them. -/
theorem exists_clauses (h : read source = .ok q) :
    ∃ order s₂ s₃ s₄, Clauses q order source.toList s₂ s₃ s₄ ∧ Gap s₄ := by
  obtain ⟨hvalid, finds, fields, mark, shows, ending, hfinds, hshows, -, hending, s₄, htakes,
    hgap⟩ := asks_of_read h
  obtain ⟨order, rfl⟩ := exists_endMark hending
  obtain ⟨s₃, htakes, hsort⟩ := takes_append.1 htakes
  rw [List.append_assoc] at htakes
  obtain ⟨s₂, hfront, hdisplay⟩ := takes_append.1 htakes
  exact ⟨order, s₂, s₃, s₄, ⟨⟨hvalid, finds, hfinds, hfront⟩, ⟨fields, shows, hshows, hdisplay⟩,
    ending, hending, hsort⟩, hgap⟩

/-- The clauses in front stand in a text also when something follows that stays apart. -/
theorem Front.append_apart (h : Front q s rest) (hapart : Apart rest t) :
    Front q (s ++ t) (rest ++ t) := by
  obtain ⟨hvalid, finds, hfinds, htakes⟩ := h
  exact ⟨hvalid, finds, hfinds, htakes.append_apart hapart⟩

/-- The clauses in front leave no more than there was. -/
theorem Front.size_le (h : Front q s rest) : size rest ≤ size s := by
  obtain ⟨finds, -, htakes⟩ := h.clauses
  exact htakes.size_le (Nat.le_refl _)

/-- Behind its first two clauses a sentence is read from the shown fields on. -/
theorem Front.read_eq (h : Front q source.toList rest) :
    read source = (do
      let ((display, order), ts) ← displayClause (tokensTo (size source.toList) rest)
      let (sort, ts) ← sortClause order ts
      terminator ts
      (Query.ofParts q.dataset q.filter display sort).mapError Rejection.ofQueryFault) := by
  obtain ⟨hvalid, finds, hfinds, htakes⟩ := h
  obtain ⟨mid, hdataset, hfilter⟩ := takes_append.1 htakes
  have hs := within_source source
  have hdataset' : datasetClause (tokenize source) =
      .ok (q.dataset, tokensTo (size source.toList) mid) := by
    rw [tokenize_eq]
    exact (datasetClause_eq_ok_iff hs.size_le).2 ⟨hvalid, mid, hdataset, rfl⟩
  have hfilter' := (filterClause_eq_ok_iff (hs.of_suffix hdataset.suffix)).2
    ⟨finds, rest, hfinds, hfilter, rfl⟩
  rw [Sentence.read_eq, hdataset']
  simp only [bind, Except.bind, hfilter']

/-- Words behind a sentence that do not touch it are text after the full stop. -/
theorem Clauses.read_append_apart {more : String} (h : Clauses q order source.toList s₂ s₃ s₄)
    (hgap : Gap s₄) (hapart : Apart s₄ more.toList) (hmore : ¬ Gap more.toList) :
    ∃ first later, tokenize more = first :: later ∧
      read (source ++ more) =
        .error (.malformed .terminator .textAfterFullStop (some first.text)) := by
  obtain ⟨hfront, ⟨fields, shows, hshows, hdisplay⟩, ending, hending, hsort⟩ := h
  obtain ⟨⟨w, mid⟩, hword⟩ : ∃ found, word? more.toList = some found := by
    apply Option.ne_none_iff_exists'.1
    intro hnone
    exact hmore (word?_eq_none_iff.1 hnone)
  have hlast : word? (s₄ ++ more.toList) = some (w, mid) := by
    obtain ⟨gap, htext, hgap', hw, hmid⟩ := word?_eq_some_iff.1 hword
    rw [htext, ← List.append_assoc]
    exact word?_gap_append (gap_append.2 ⟨hgap, hgap'⟩) hw hmid
  have hapart₃ := hapart.of_suffix hsort.suffix
  have hfront := hfront.append_apart (hapart₃.of_suffix hdisplay.suffix)
  rw [← String.toList_append] at hfront
  have hdisplay := hdisplay.append_apart hapart₃
  have hsort := hsort.append_apart hapart
  have hsize := hdisplay.size_le hfront.size_le
  have hdisplay' := (displayClause_eq_ok_iff hfront.size_le).2 ⟨shows, _, hshows, hdisplay, rfl⟩
  have hsort' := (sortClause_eq_ok_iff hsize).2 ⟨ending, _, hending, hsort, rfl⟩
  have htokens := tokensTo_some (Nat.le_refl (size more.toList)) hword
  rw [← tokenize_eq] at htokens
  refine ⟨_, _, htokens, ?_⟩
  rw [hfront.read_eq, hdisplay']
  simp only [bind, Except.bind, hsort', tokensTo_some (hsort.size_le hsize) hlast, terminator]

/-- A sentence whose last word has more characters names an unknown field. -/
theorem Clauses.read_append_glued {more : String} (h : Clauses q order source.toList s₂ s₃ [])
    (hmore : ¬ Boundary more.toList) :
    ∃ clause word, read (source ++ more) = .error (.unknownField clause word) := by
  obtain ⟨hfront, ⟨fields, shows, hshows, hdisplay⟩, ending, hending, hsort⟩ := h
  have hapart : Apart s₂ more.toList := by
    obtain ⟨rest, hword, -⟩ := (takes_word (by decide)).1 hdisplay
    exact .inl (ne_nil_of_word? hword)
  have hfront := hfront.append_apart hapart
  rw [← String.toList_append] at hfront
  rw [hfront.read_eq]
  generalize q.sort = sort at hending
  cases order with
  | false =>
    cases hending with
    | stop =>
      obtain rfl := takes_nil.1 hsort
      obtain ⟨word, herror⟩ := displayClause_glued hshows hdisplay hmore hfront.size_le
      refine ⟨.display, word, ?_⟩
      rw [herror]
      rfl
  | true =>
    cases hending with
    | order f =>
      have hapart₃ : Apart s₃ more.toList := by
        obtain ⟨rest, hword, -⟩ := (takes_word (by decide)).1 hsort
        exact .inl (ne_nil_of_word? hword)
      have hdisplay := hdisplay.append_apart hapart₃
      have hdisplay' := (displayClause_eq_ok_iff hfront.size_le).2
        ⟨shows, _, hshows, hdisplay, rfl⟩
      obtain ⟨word, herror⟩ := orderClause_glued hsort hmore (hdisplay.size_le hfront.size_le)
      refine ⟨.order, word, ?_⟩
      rw [hdisplay']
      simp only [bind, Except.bind, sortClause, if_pos, herror, Except.map]

end Clauses

/-- A sentence that is accepted is rejected with any word behind it. With a blank before the word,
what is blamed is this word, as text after the full stop. -/
theorem read_append_rejected {q : Query} {more : String} (hread : read source = .ok q)
    (hmore : ∃ c ∈ more.toList, Text.isBlank c = false) :
    (∃ r, read (source ++ more) = .error r) ∧
      ((∃ c ∈ more.toList.head?, Text.isBlank c = true) →
        ∃ first later, tokenize more = first :: later ∧
          read (source ++ more) =
            .error (.malformed .terminator .textAfterFullStop (some first.text))) := by
  obtain ⟨order, s₂, s₃, s₄, hclauses, hgap⟩ := exists_clauses hread
  have hword : ¬ Gap more.toList := by
    intro hblank
    obtain ⟨c, hc, hnot⟩ := hmore
    rw [hblank c hc] at hnot
    contradiction
  constructor
  · by_cases hapart : Apart s₄ more.toList
    · obtain ⟨first, later, -, herror⟩ := hclauses.read_append_apart hgap hapart hword
      exact ⟨_, herror⟩
    · obtain ⟨hnil, hglued⟩ := not_or.1 hapart
      rw [ne_eq, not_not] at hnil
      subst hnil
      obtain ⟨clause, word, herror⟩ := hclauses.read_append_glued hglued
      exact ⟨_, herror⟩
  · rintro ⟨c, hhead, hblank⟩
    have hboundary : Boundary more.toList := by
      intro d hd
      rwa [← Option.mem_unique hhead hd]
    exact hclauses.read_append_apart hgap (.inr hboundary) hword

/-- A short sentence. -/
def titlesSentence : String := "In courses dataset abc, find all entries; show Title."

/-- A sentence that is written twice is rejected, with a blank between or without. -/
theorem read_titlesSentence_twice :
    (∃ r, read (titlesSentence ++ titlesSentence) = .error r) ∧
      read (titlesSentence ++ " " ++ titlesSentence) =
        .error (.malformed .terminator .textAfterFullStop (some "In")) := by
  have hread : ∃ q, read titlesSentence = .ok q := by
    have hsome : (read titlesSentence).toOption.isSome = true := by decide +kernel
    obtain ⟨q, hq⟩ := Option.isSome_iff_exists.1 hsome
    exact ⟨q, eq_ok_of_toOption hq⟩
  obtain ⟨q, hread⟩ := hread
  obtain ⟨hglued, -⟩ := read_append_rejected hread
    (⟨'I', by decide, by decide⟩ : ∃ c ∈ titlesSentence.toList, Text.isBlank c = false)
  obtain ⟨-, hapart⟩ := read_append_rejected hread
    (⟨'I', by decide, by decide⟩ : ∃ c ∈ (" " ++ titlesSentence).toList, Text.isBlank c = false)
  obtain ⟨first, later, htokens, herror⟩ := hapart ⟨' ', by decide, by decide⟩
  have hfirst : (tokenize (" " ++ titlesSentence)).head?.map Token.text = some "In" := by
    decide +kernel
  rw [htokens] at hfirst
  rw [← String.append_assoc] at herror
  rw [herror, Option.some.inj hfirst]
  exact ⟨hglued, rfl⟩

end CourseQuery.Sentence
