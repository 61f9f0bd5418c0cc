import CourseQuery.Proofs.Sentence.WellFormed
import CourseQuery.Proofs.Sentence.Writing

/-!
# A filter inside a sentence

A filter can be read from a text of its own, or from a sentence in which the text stands between
`whose` and a `;`. In the sentence the end of the filter has to be found first, and the text may
hold marks, quotes, and words that look like the rest of a sentence. Still both readings agree.
Conditions that are all of the text are conditions in the sentence as well, behind a blank. The
other way round, some `;` of the sentence ends its filter: there is none behind the text, and if it
were one inside the text, the words behind it would have `show` twice, though what follows the first
`show` are names, marks and the words of an order.
-/

set_option autoImplicit false

namespace CourseQuery.Sentence

open Text (isBlank)

/-! ## Behind the filter -/

section Behind

variable {mark : Char} {fields : List Field} {sort : Option Field}
  {ls shows ending : List (List Char)}

/-- A name with a mark after it is one word, and not `show`. -/
theorem name_mark_ne_show (f : Field) (hmark : mark ∈ Token.marks) :
    IsWord (f.name.toList ++ [mark]) ∧ f.name.toList ++ [mark] ≠ "show".toList := by
  refine ⟨(name_mark_isWord f hmark).1, ?_⟩
  simp only [Token.marks, List.mem_cons, List.not_mem_nil, or_false] at hmark
  rcases hmark with rfl | rfl | rfl <;> cases f <;> decide

/-- No word of the fields behind the first is `show`. -/
theorem laterFields_ne_show (hmark : mark ∈ Token.marks) (h : LaterFields mark fields ls) :
    ∀ w ∈ ls, IsWord w ∧ w ≠ "show".toList := by
  have hand : IsWord "and".toList ∧ "and".toList ≠ "show".toList := by decide
  have hname := fun f : Field => name_mark_ne_show f (show ',' ∈ Token.marks by decide)
  induction h with
  | last f =>
    exact List.forall_mem_cons.2 ⟨hand, List.forall_mem_singleton.2 (name_mark_ne_show f hmark)⟩
  | plain f _ ih => exact List.forall_mem_cons.2 ⟨hname f, ih⟩
  | and f _ ih => exact List.forall_mem_cons.2 ⟨hand, List.forall_mem_cons.2 ⟨hname f, ih⟩⟩

/-- No word of the shown fields is `show`. -/
theorem shownFields_ne_show (hmark : mark ∈ Token.marks) (h : ShownFields mark fields shows) :
    ∀ w ∈ shows, IsWord w ∧ w ≠ "show".toList := by
  cases h with
  | one f => exact List.forall_mem_singleton.2 (name_mark_ne_show f hmark)
  | several f hlater =>
    exact List.forall_mem_cons.2
      ⟨name_mark_ne_show f (by decide), laterFields_ne_show hmark hlater⟩

/-- No word behind the shown fields is `show`. -/
theorem ending_ne_show (h : Ending mark sort ending) :
    mark ∈ Token.marks ∧ ∀ w ∈ ending, IsWord w ∧ w ≠ "show".toList := by
  cases h with
  | stop => exact ⟨by decide, by simp⟩
  | order f =>
    refine ⟨by decide, List.forall_mem_append.2 ⟨by decide, ?_⟩⟩
    exact List.forall_mem_singleton.2 (name_mark_ne_show f (by decide))

/-- What a sentence has behind its filter has no second `show`. -/
theorem not_laidOut_show_again {s : List Char} (hshows : ShownFields mark fields shows)
    (hending : Ending mark sort ending) (hs : ¬ Gap s) :
    ¬ LaidOut (wordsOf "show" ++ (shows ++ ending)) (s ++ ' ' :: "show Title.".toList) := by
  intro h
  obtain ⟨hmark, hending⟩ := ending_ne_show hending
  have hrest := List.forall_mem_append.2 ⟨shownFields_ne_show hmark hshows, hending⟩
  have hfirst : wordsOf "show" = ["show".toList] := by decide
  rw [hfirst, List.singleton_append] at h
  obtain ⟨us, vs, heq, hus, hvs⟩ := h.split
    (List.forall_mem_cons.2 ⟨by decide, fun w hw => (hrest w hw).1⟩)
  cases us with
  | nil =>
    obtain ⟨rest, htakes, hgap⟩ := hus
    exact hs (takes_nil.1 htakes ▸ hgap)
  | cons u us =>
    have hwords : (tokensTo 11 "show Title.".toList).map Token.chars =
        ["show".toList, "Title.".toList] := by decide +kernel
    obtain ⟨-, heq⟩ := List.cons.inj heq
    have hmem : ∀ w ∈ vs, w ∈ shows ++ ending := by
      intro w hw
      rw [heq]
      exact List.mem_append_right _ hw
    have hvs := (laidOut_words_iff (e := 11) (by decide) fun w hw => (hrest w (hmem w hw)).1).1 hvs
    refine (hrest "show".toList (hmem _ ?_)).2 rfl
    rw [← hvs, hwords]
    exact List.mem_cons_self

end Behind

/-- A mark with none of its kind behind it is the mark that a text is cut at, or a later one. -/
theorem eq_or_longer_of_cut {c : Char} {s t s' t' : List Char} (h : s ++ c :: t = s' ++ c :: t')
    (hc : c ∉ t) : s' = s ∨ ∃ m, t' = m ++ c :: t := by
  rcases List.append_eq_append_iff.1 h with ⟨m, rfl, hm⟩ | ⟨m, rfl, hm⟩
  · cases m with
    | nil => exact .inl (List.append_nil s)
    | cons d m =>
      rw [(List.cons.inj hm).2] at hc
      exact absurd (List.mem_append_right m List.mem_cons_self) hc
  · cases m with
    | nil => exact .inl (List.append_nil s').symm
    | cons d m => exact .inr ⟨m, (List.cons.inj hm).2⟩

/-! ## The embedding -/

/-- A sentence with a text as its filter. -/
def withFilter (filter : String) : String :=
  "In courses dataset abc, find entries whose " ++ filter ++ "; show Title."

/-- A sentence with a filter is the filter between two fixed texts. -/
theorem toList_withFilter (filter : String) :
    (withFilter filter).toList =
      "In courses dataset abc, find entries whose".toList ++
        ([' '] ++ (filter.toList ++ ';' :: ([' '] ++ "show Title.".toList))) := by
  have hfront : "In courses dataset abc, find entries whose ".toList =
      "In courses dataset abc, find entries whose".toList ++ [' '] := by decide +kernel
  have hback : "; show Title.".toList = ';' :: ([' '] ++ "show Title.".toList) := by decide +kernel
  have hparts : (withFilter filter).toList =
      "In courses dataset abc, find entries whose ".toList ++
        (filter.toList ++ "; show Title.".toList) := by
    unfold withFilter
    rw [String.toList_append, String.toList_append, List.append_assoc]
  refine hparts.trans ?_
  exact (congrArg₂ (· ++ ·) hfront (congrArg (filter.toList ++ ·) hback)).trans
    (List.append_assoc _ _ _)

variable {filter : String} {stated : List (List Predicate)} {ls : List (List Char)} {q : Query}

/-- Conditions begin with the name of a field. -/
theorem head_of_conditions (h : Conditions stated ls) :
    ∃ (f : Field) (more : List (List Char)), ls = f.name.toList :: more := by
  obtain ⟨p, group, groups, first, more, rfl, hstates, -, rfl⟩ := FilterClause.conditions_iff.1 h
  cases hstates with
  | mk f _ => exact ⟨f, _, rfl⟩

/-- The words before the filter, and what they leave. -/
theorem takes_withFilter (filter : String) :
    Takes
      (wordsOf "In courses dataset" ++ (["abc".toList ++ [',']] ++ wordsOf "find entries whose"))
      (withFilter filter).toList
      ([' '] ++ (filter.toList ++ ';' :: ([' '] ++ "show Title.".toList))) := by
  have hwords : wordsOf "In courses dataset abc, find entries whose" =
      wordsOf "In courses dataset" ++
        (["abc".toList ++ [',']] ++ wordsOf "find entries whose") := by
    decide +kernel
  have hopening := (spells_wordsOf "In courses dataset abc, find entries whose").takes gap_nil
  rw [toList_withFilter, ← hwords]
  exact hopening.append_boundary (boundary_cons.2 (by decide))

/-- Conditions that are all of a text are the filter of the sentence. -/
theorem asks_withFilter (hconditions : Conditions stated ls) (hlaid : LaidOut ls filter.toList) :
    ∃ q, Asks (withFilter filter) q ∧ q.filter = .ofGroups stated := by
  obtain ⟨rest, htakes, hrest⟩ := hlaid
  obtain ⟨hne, hneat⟩ := neat_conditions hconditions
  have hblank : Gap [' '] := by decide
  have hboundary : Boundary ([' '] ++ "show Title.".toList) := boundary_cons.2 (by decide)
  obtain ⟨closed, hclosed, hfilter⟩ :=
    closed_of_takes htakes hrest hboundary hne fun l hl => (hneat l hl).1
  have hclosedNe : closed ≠ [] := by
    cases hclosed <;> simp
  have hshow : Takes (wordsOf "show Title.") ([' '] ++ "show Title.".toList) [] :=
    (spells_wordsOf "show Title.").takes hblank
  have hlaid := takes_append.2 ⟨_, takes_withFilter filter,
    takes_append.2 ⟨_, hfilter.gap_append hclosedNe hblank, hshow⟩⟩
  obtain ⟨q, hq⟩ : ∃ q, Query.ofParts "abc" (.ofGroups stated) [.title] none = .ok q :=
    Query.exists_ofParts _ _ (List.cons_ne_nil _ _) (by simp)
  obtain ⟨hdataset, hqfilter, hdisplay, hsort⟩ := Query.ofParts_eq_ok_iff.1 hq
  have hfinds : Finds q.filter (wordsOf "find entries whose" ++ closed) := by
    rw [hqfilter]
    exact .conditions hconditions hclosed
  have hending : Ending '.' q.sort [] := by
    rw [hsort]
    exact .stop
  have hshowWords : wordsOf "show Title." =
      wordsOf "show" ++ [Field.title.name.toList ++ ['.']] := by
    decide
  refine ⟨q, ⟨?_, _, [.title], '.', _, [], hfinds, .one .title,
    fun f => Query.mem_display_iff hdisplay, hending, [], ?_, gap_nil⟩, hqfilter⟩
  · rw [hdataset]
    decide
  · rw [hdataset]
    rw [hshowWords] at hlaid
    simpa only [List.append_assoc, List.append_nil] using hlaid

/-- The first seven words of the sentence are those before the text. -/
theorem eq_of_takes_withFilter {id rest : List Char} {more : List (List Char)}
    (head : List (List Char)) (hid : IsWord id) (hhead : ∀ w ∈ head, IsWord w)
    (hlength : head.length = 3)
    (h : Takes (wordsOf "In courses dataset" ++ ([id] ++ head) ++ more)
      (withFilter filter).toList rest) :
    head = wordsOf "find entries whose" ∧
      Takes more ([' '] ++ (filter.toList ++ ';' :: ([' '] ++ "show Title.".toList))) rest := by
  have hwords : ∀ w ∈ wordsOf "In courses dataset" ++ ([id] ++ head), IsWord w :=
    List.forall_mem_append.2 ⟨by decide, List.forall_mem_cons.2 ⟨hid, hhead⟩⟩
  have hseven : (wordsOf "In courses dataset" ++ ([id] ++ head)).length =
      (wordsOf "In courses dataset" ++
        (["abc".toList ++ [',']] ++ wordsOf "find entries whose")).length := by
    rw [List.length_append, List.length_append, hlength]
    rfl
  obtain ⟨heq, hmore⟩ := h.words_eq hwords (by decide) hseven (takes_withFilter filter)
  exact ⟨(List.append_inj' (List.append_cancel_left heq) hlength).2, hmore⟩

/-- If the sentence asks a query, the text is nothing but the conditions of its filter. -/
theorem conditions_of_asks (h : Asks (withFilter filter) q) :
    ∃ stated ls, q.filter = .ofGroups stated ∧ Conditions stated ls ∧
      LaidOut ls filter.toList := by
  obtain ⟨hvalid, finds, fields, mark, shows, ending, hfinds, hshows, -, hending, rest, htakes,
    hrest⟩ := h
  have hid := (isWord_of_valid hvalid).append_mark (show isBlank ',' = false by decide)
  simp only [List.append_assoc] at htakes
  generalize q.filter = e at hfinds ⊢
  cases hfinds with
  | everything =>
    have hall := (eq_of_takes_withFilter (wordsOf "find all entries;") hid
      (by decide) (by decide) (by simpa only [List.append_assoc] using htakes)).1
    exact absurd hall (by decide)
  | @conditions stated ls closed hconditions hclosed =>
    have hmore := (eq_of_takes_withFilter (wordsOf "find entries whose") hid
      (by decide) (by decide) (by simpa only [List.append_assoc] using htakes)).2
    obtain ⟨s₂, hfilter, hshow⟩ := takes_append.1 hmore
    obtain ⟨s₁, rest', hcut, -, hls, hrest'⟩ := takes_of_closed hclosed hfilter
    refine ⟨stated, ls, rfl, hconditions, rest', ?_, hrest'⟩
    rw [← List.append_assoc] at hcut
    rcases eq_or_longer_of_cut hcut (by decide) with rfl | ⟨m, rfl⟩
    · obtain ⟨f, more, rfl⟩ := head_of_conditions hconditions
      exact (takes_gap_append (FilterClause.name_isWord f) (by decide)).1 hls
    · have hagain : LaidOut (wordsOf "show" ++ (shows ++ ending))
          (m ++ [';'] ++ ' ' :: "show Title.".toList) := by
        refine ⟨rest, ?_, hrest⟩
        simpa using hshow
      have hmark : ¬ Gap (m ++ [';']) := fun hgap => absurd (gap_append.1 hgap).2 (by decide)
      exact absurd hagain (not_laidOut_show_again hshows hending hmark)

/-- A text alone is a filter if it is nothing but conditions. -/
theorem filter_tokenize_iff {e : Filter} :
    FilterClause.filter filter (tokenize filter) = .ok e ↔
      ∃ stated ls, e = .ofGroups stated ∧ Conditions stated ls ∧ LaidOut ls filter.toList := by
  rw [FilterClause.filter, map_eq_ok_iff, tokenize_eq]
  simp only [FilterClause.groups_eq_ok_iff (within_source filter)]
  constructor
  · rintro ⟨stated, ⟨ls, rest, hconditions, hlaid⟩, rfl⟩
    exact ⟨stated, ls, rfl, hconditions, rest, hlaid⟩
  · rintro ⟨stated, ls, rfl, hconditions, rest, hlaid⟩
    exact ⟨stated, ⟨ls, rest, hconditions, hlaid⟩, rfl⟩

/-- A filter means the same inside a sentence as alone. -/
theorem read_withFilter_iff (filter : String) (e : Filter) :
    (∃ q, read (withFilter filter) = .ok q ∧ q.filter = e) ↔
      FilterClause.filter filter (tokenize filter) = .ok e := by
  rw [filter_tokenize_iff]
  constructor
  · rintro ⟨q, hread, rfl⟩
    exact conditions_of_asks (asks_of_read hread)
  · rintro ⟨stated, ls, rfl, hconditions, hlaid⟩
    obtain ⟨q, hasks, hq⟩ := asks_withFilter hconditions hlaid
    exact ⟨q, read_of_asks hasks, hq⟩

-- A text that goes on like a sentence is a filter neither way.
example :
    (read (withFilter "Title is \"a\"; show Title")).toOption = none ∧
      (FilterClause.filter "Title is \"a\"; show Title"
        (tokenize "Title is \"a\"; show Title")).toOption = none := by
  decide +kernel

end CourseQuery.Sentence
