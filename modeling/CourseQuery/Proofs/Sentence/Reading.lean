import CourseQuery.Proofs.Query
import CourseQuery.Proofs.Sentence.Clauses
import CourseQuery.Proofs.Sentence.FilterEnd

/-!
# The reader accepts the grammar

Each clause reader takes exactly the lexemes of its part of the grammar. Put one after another, with
nothing left at the end, they accept exactly the sentences that ask a query, and give that query:
`asks_of_read` and `read_of_asks`.
-/

set_option autoImplicit false

namespace CourseQuery.Sentence

open FilterClause (firstText_tokensTo drop_tokensTo)
open Text.Utf8 (size)

variable {source : String} {e : Nat} {s rest : List Char} {ts : List Token}

/-! ## The dataset and the filter -/

/-- Words are taken if they stand at the front of the text. -/
theorem takeWords_eq_ok_iff {clause : Clause} {words : List String} (hs : size s ≤ e)
    (hwords : ∀ w ∈ words, IsWord w.toList) :
    takeWords clause words (tokensTo e s) = .ok ts ↔
      ∃ rest, Takes (words.map String.toList) s rest ∧ ts = tokensTo e rest := by
  induction words generalizing s with
  | nil =>
    simp only [takeWords, List.map_nil, takes_nil, Except.ok.injEq, exists_eq_left]
    exact eq_comm
  | cons word words ih =>
    have hword := hwords word List.mem_cons_self
    have hmore : ∀ w ∈ words, IsWord w.toList := fun w hw => hwords w (List.mem_cons_of_mem _ hw)
    rw [takeWords, bind_eq_ok_iff, List.map_cons]
    constructor
    · rintro ⟨_, hfirst, h⟩
      obtain ⟨mid, hmid, rfl⟩ := (takeWord_eq_ok_iff hs hword).1 hfirst
      obtain ⟨rest, hrest, rfl⟩ := (ih (hmid.size_le hs) hmore).1 h
      exact ⟨rest, takes_append.2 ⟨mid, hmid, hrest⟩, rfl⟩
    · rintro ⟨rest, htakes, rfl⟩
      rw [← List.singleton_append, takes_append] at htakes
      obtain ⟨mid, hmid, hrest⟩ := htakes
      exact ⟨_, (takeWord_eq_ok_iff hs hword).2 ⟨mid, hmid, rfl⟩,
        (ih (hmid.size_le hs) hmore).2 ⟨rest, hrest, rfl⟩⟩

/-- A valid id is a word. -/
theorem isWord_of_valid {id : String} (h : DatasetId.Valid id) : IsWord id.toList := by
  unfold DatasetId.Valid DatasetId.fault? at h
  split at h
  · contradiction
  · rename_i hne
    split at h
    · contradiction
    · split at h
      · contradiction
      · rename_i hblank
        refine ⟨by simpa using hne, fun c hc => ?_⟩
        refine Bool.eq_false_iff.2 fun hc' => hblank ?_
        exact List.any_eq_true.2 ⟨c, hc, hc'⟩

/-- A word with a mark behind it is a word. -/
theorem IsWord.append_mark {w : List Char} {mark : Char} (hw : IsWord w)
    (hmark : Text.isBlank mark = false) : IsWord (w ++ [mark]) := by
  refine ⟨by simp, fun c hc => ?_⟩
  rcases List.mem_append.1 hc with hc | hc
  · exact hw.2 c hc
  · rwa [List.mem_singleton.1 hc]

/-- A mark is stripped from a token that ends with it. -/
theorem strip?_eq_some_iff {mark : Char} {w : List Char} {start stop : Nat} {t : Token} :
    (Token.mk (String.ofList w) start stop).strip? mark = some t ↔
      ∃ x, w = x ++ [mark] ∧ t = ⟨String.ofList x, start, stop - mark.utf8Size⟩ := by
  have hchars : (Token.mk (String.ofList w) start stop).chars = w := String.toList_ofList
  rw [Token.strip?, hchars, Option.ite_none_right_eq_some, List.getLast?_eq_some_iff]
  constructor
  · rintro ⟨⟨x, rfl⟩, h⟩
    rw [List.dropLast_concat] at h
    exact ⟨x, rfl, (Option.some.inj h).symm⟩
  · rintro ⟨x, rfl, rfl⟩
    exact ⟨⟨x, rfl⟩, by rw [List.dropLast_concat]⟩

/-- The dataset clause is three words and a valid id with a comma. -/
theorem datasetClause_eq_ok_iff (hs : size s ≤ e) {id : String} :
    datasetClause (tokensTo e s) = .ok (id, ts) ↔
      DatasetId.Valid id ∧
        ∃ rest, Takes (wordsOf "In courses dataset" ++ [id.toList ++ [',']]) s rest ∧
          ts = tokensTo e rest := by
  have hwords : ∀ w ∈ ["In", "courses", "dataset"], IsWord w.toList := by decide
  rw [datasetClause, bind_eq_ok_iff]
  constructor
  · rintro ⟨_, hfirst, h⟩
    obtain ⟨mid, hmid, rfl⟩ := (takeWords_eq_ok_iff hs hwords).1 hfirst
    have hsize := hmid.size_le hs
    cases hword : word? mid with
    | none =>
      rw [tokensTo_none hword] at h
      contradiction
    | some found =>
      obtain ⟨w, rest⟩ := found
      rw [tokensTo_some hsize hword] at h
      dsimp only at h
      split at h
      · contradiction
      · rename_i stripped hstrip
        split at h
        · contradiction
        · rename_i hfault
          obtain ⟨rfl, rfl⟩ := Prod.mk.inj (Except.ok.inj h)
          obtain ⟨x, rfl, rfl⟩ := strip?_eq_some_iff.1 hstrip
          have hid := isWord_of_valid hfault
          refine ⟨hfault, rest, takes_append.2 ⟨mid, hmid, ?_⟩, rfl⟩
          rw [takes_word_of (hid.append_mark (by decide)) hword]
          exact ⟨by simp, .nil rest⟩
  · rintro ⟨hid, rest, htakes, rfl⟩
    obtain ⟨mid, hmid, hid'⟩ := takes_append.1 htakes
    have hw := (isWord_of_valid hid).append_mark (show Text.isBlank ',' = false by decide)
    obtain ⟨rest', hword, hnil⟩ := (takes_word hw).1 hid'
    obtain rfl := takes_nil.1 hnil
    refine ⟨_, (takeWords_eq_ok_iff hs hwords).2 ⟨mid, hmid, rfl⟩, ?_⟩
    have hvalid : DatasetId.fault? id = none := hid
    rw [tokensTo_some (hmid.size_le hs) hword]
    simp only [strip?_eq_some_iff.2 ⟨_, rfl, rfl⟩, String.ofList_toList, hvalid]

/-- What is read as the filter clause is what the grammar finds. -/
theorem finds_of_filterClause (hs : Within source e s) {f : Filter}
    (h : filterClause source (tokensTo e s) = .ok (f, ts)) :
    ∃ ls rest, Finds f ls ∧ Takes ls s rest ∧ ts = tokensTo e rest := by
  obtain ⟨_, hfind, h⟩ := bind_eq_ok_iff.1 h
  obtain ⟨s₁, hs₁, rfl⟩ := (takeWord_eq_ok_iff hs.size_le (by decide)).1 hfind
  have hw₁ := hs.of_suffix hs₁.suffix
  simp only [firstText_tokensTo hw₁.size_le, Option.map_eq_some_iff, ofList_eq_iff] at h
  split at h
  · rename_i hall
    obtain ⟨⟨w, s₂⟩, hword, rfl⟩ := hall
    rw [drop_tokensTo hw₁.size_le hword] at h
    obtain ⟨_, hentries, h⟩ := bind_eq_ok_iff.1 h
    obtain ⟨rest, hrest, rfl⟩ :=
      (takeWord_eq_ok_iff (word?_size_le hword hw₁.size_le) (by decide)).1 hentries
    obtain ⟨rfl, rfl⟩ := Prod.mk.inj (Except.ok.inj h)
    refine ⟨_, rest, .everything, takes_append.2 ⟨s₁, hs₁, ?_⟩, rfl⟩
    exact (takes_word_of (by decide) hword).2 ⟨rfl, hrest⟩
  · split at h
    · rename_i hentries
      obtain ⟨⟨w, s₂⟩, hword, rfl⟩ := hentries
      rw [drop_tokensTo hw₁.size_le hword] at h
      obtain ⟨_, hwhose, h⟩ := bind_eq_ok_iff.1 h
      obtain ⟨s₃, hs₃, rfl⟩ :=
        (takeWord_eq_ok_iff (word?_size_le hword hw₁.size_le) (by decide)).1 hwhose
      obtain ⟨⟨taken, _⟩, htaken, h⟩ := bind_eq_ok_iff.1 h
      obtain ⟨_, hfilter, h⟩ := bind_eq_ok_iff.1 h
      obtain ⟨rfl, rfl⟩ := Prod.mk.inj (Except.ok.inj h)
      obtain ⟨gs, ls, closed, rest, rfl, hconditions, hclosed, hrest, rfl⟩ :=
        (filterTokens_groups_iff ((hw₁.of_word? hword).of_suffix hs₃.suffix)).1
          ⟨taken, htaken, hfilter⟩
      have hwords : Takes (["find".toList] ++ ["entries".toList, "whose".toList]) s s₃ :=
        takes_append.2 ⟨s₁, hs₁, (takes_word_of (by decide) hword).2 ⟨rfl, hs₃⟩⟩
      exact ⟨_, rest, .conditions hconditions hclosed, takes_append.2 ⟨s₃, hwords, hrest⟩, rfl⟩
    · contradiction

/-- What the grammar finds is read as the filter clause. -/
theorem filterClause_of_finds (hs : Within source e s) {f : Filter} {ls : List (List Char)}
    {rest : List Char} (hfinds : Finds f ls) (htakes : Takes ls s rest) :
    filterClause source (tokensTo e s) = .ok (f, tokensTo e rest) := by
  rw [filterClause, bind_eq_ok_iff]
  cases hfinds with
  | everything =>
    have hwords : Takes (["find".toList] ++ ["all".toList, "entries;".toList]) s rest := htakes
    obtain ⟨s₁, hs₁, htakes⟩ := takes_append.1 hwords
    obtain ⟨s₂, hword, hentries⟩ := (takes_word (by decide)).1 htakes
    have hsize := hs₁.size_le hs.size_le
    refine ⟨_, (takeWord_eq_ok_iff hs.size_le (by decide)).2 ⟨s₁, hs₁, rfl⟩, ?_⟩
    simp only [firstText_tokensTo hsize, hword, drop_tokensTo hsize hword]
    rw [if_pos (by simp)]
    refine bind_eq_ok_iff.2 ⟨tokensTo e rest, ?_, rfl⟩
    exact (takeWord_eq_ok_iff (word?_size_le hword hsize) (by decide)).2 ⟨rest, hentries, rfl⟩
  | @conditions gs ls closed hconditions hclosed =>
    obtain ⟨s₃, hfront, hclose⟩ := takes_append.1 htakes
    have hwords : Takes (["find".toList] ++ ["entries".toList, "whose".toList]) s s₃ := hfront
    obtain ⟨s₁, hs₁, htakes⟩ := takes_append.1 hwords
    obtain ⟨s₂, hword, hwhose⟩ := (takes_word (by decide)).1 htakes
    have hsize := hs₁.size_le hs.size_le
    refine ⟨_, (takeWord_eq_ok_iff hs.size_le (by decide)).2 ⟨s₁, hs₁, rfl⟩, ?_⟩
    simp only [firstText_tokensTo hsize, hword, drop_tokensTo hsize hword]
    rw [if_neg (by simp), if_pos (by simp)]
    obtain ⟨taken, htaken, hfilter⟩ := (filterTokens_groups_iff (hs.of_suffix hfront.suffix)).2
      ⟨gs, ls, closed, rest, rfl, hconditions, hclosed, hclose, rfl⟩
    refine bind_eq_ok_iff.2 ⟨tokensTo e s₃,
      (takeWord_eq_ok_iff (word?_size_le hword hsize) (by decide)).2 ⟨s₃, hwhose, rfl⟩, ?_⟩
    refine bind_eq_ok_iff.2 ⟨(taken, tokensTo e rest), htaken, ?_⟩
    exact bind_eq_ok_iff.2 ⟨_, hfilter, rfl⟩

/-- The filter clause is what the grammar finds. -/
theorem filterClause_eq_ok_iff (hs : Within source e s) {f : Filter} :
    filterClause source (tokensTo e s) = .ok (f, ts) ↔
      ∃ ls rest, Finds f ls ∧ Takes ls s rest ∧ ts = tokensTo e rest := by
  constructor
  · exact finds_of_filterClause hs
  · rintro ⟨ls, rest, hfinds, htakes, rfl⟩
    exact filterClause_of_finds hs hfinds htakes

/-! ## The shown fields and the order -/

/-- The mark that ends the shown fields, which tells whether an order follows. -/
def endMark (order : Bool) : Char :=
  if order then ';' else '.'

/-- The mark behind the shown fields tells whether an order follows. -/
theorem exists_endMark {mark : Char} {sort : Option Field} {ls : List (List Char)}
    (h : Ending mark sort ls) : ∃ order, mark = endMark order := by
  cases h with
  | stop => exact ⟨false, rfl⟩
  | order => exact ⟨true, rfl⟩

/-- A mark is split from a word that ends with it. -/
theorem splitMark_mark {x : List Char} {mark : Char} {start stop : Nat}
    (hmark : mark ∈ Token.marks) :
    (Token.mk (String.ofList (x ++ [mark])) start stop).splitMark =
      (⟨String.ofList x, start, stop - mark.utf8Size⟩, some mark) := by
  have hstrip : ∀ m, (Token.mk (String.ofList (x ++ [mark])) start stop).strip? m =
      if m = mark then some ⟨String.ofList x, start, stop - mark.utf8Size⟩ else none := by
    intro m
    split
    · rename_i hm
      rw [hm, strip?_eq_some_iff.2 ⟨x, rfl, rfl⟩]
    · rename_i hm
      refine Option.eq_none_iff_forall_ne_some.2 fun t ht => hm ?_
      obtain ⟨y, hy, -⟩ := strip?_eq_some_iff.1 ht
      exact (List.singleton_inj.1 (List.append_inj' hy rfl).2).symm
  simp only [Token.splitMark, Token.marks, hstrip]
  simp only [Token.marks, List.mem_cons, List.not_mem_nil, or_false] at hmark
  rcases hmark with rfl | rfl | rfl <;> rfl

/-- A word from which a mark is split ends with it. -/
theorem eq_of_splitMark {w : List Char} {mark : Char} {start stop : Nat} {t : Token}
    (h : (Token.mk (String.ofList w) start stop).splitMark = (t, some mark)) :
    mark ∈ Token.marks ∧ ∃ x, w = x ++ [mark] ∧ t.text = String.ofList x := by
  unfold Token.splitMark at h
  split at h
  · rename_i found hfound
    obtain ⟨m, hm, hsplit⟩ := List.exists_of_findSome?_eq_some hfound
    obtain ⟨t', ht', rfl⟩ := Option.map_eq_some_iff.1 hsplit
    obtain ⟨rfl, hmark⟩ := Prod.mk.inj h
    obtain rfl := Option.some.inj hmark
    obtain ⟨x, rfl, rfl⟩ := strip?_eq_some_iff.1 ht'
    exact ⟨hm, x, rfl, rfl⟩
  · exact absurd (Prod.mk.inj h).2 (by simp)

/-- A field is named by its name. -/
theorem fieldOf_eq_ok_iff {clause : Clause} {word : String} {f : Field} :
    fieldOf clause word = .ok f ↔ word = f.name := by
  rw [← Field.ofName?_eq_some_iff, fieldOf]
  cases Field.ofName? word with
  | none => simp
  | some f' => simp

/-- A name with a mark after it is one word, and not `and`. -/
theorem name_mark_isWord (f : Field) {mark : Char} (hmark : mark ∈ Token.marks) :
    IsWord (f.name.toList ++ [mark]) ∧ f.name.toList ++ [mark] ≠ "and".toList := by
  simp only [Token.marks, List.mem_cons, List.not_mem_nil, or_false] at hmark
  rcases hmark with rfl | rfl | rfl <;> cases f <;> decide

/-- The fields that may stand at a place of the display clause: after the first, one that ends the
clause needs an `and` before it. -/
def FieldsAt (mayEnd : Bool) (mark : Char) (fields : List Field) (ls : List (List Char)) : Prop :=
  if mayEnd then ShownFields mark fields ls else LaterFields mark fields ls

/-- Fields are an `and` before what may end, a field with a comma, or the field that ends them. -/
theorem fieldsAt_iff {mayEnd : Bool} {mark : Char} {fields : List Field} {ls : List (List Char)} :
    FieldsAt mayEnd mark fields ls ↔
      (mayEnd = false ∧ ∃ more, ls = "and".toList :: more ∧ FieldsAt true mark fields more) ∨
      (∃ f later more, fields = f :: later ∧ ls = (f.name.toList ++ [',']) :: more ∧
        FieldsAt false mark later more) ∨
      (mayEnd = true ∧ ∃ f, fields = [f] ∧ ls = [f.name.toList ++ [mark]]) := by
  constructor
  · intro h
    cases mayEnd with
    | true =>
      cases (h : ShownFields mark fields ls) with
      | one f => exact .inr (.inr ⟨rfl, f, rfl, rfl⟩)
      | several f hmore => exact .inr (.inl ⟨f, _, _, rfl, rfl, hmore⟩)
    | false =>
      cases (h : LaterFields mark fields ls) with
      | last f => exact .inl ⟨rfl, _, rfl, ShownFields.one f⟩
      | plain f hmore => exact .inr (.inl ⟨f, _, _, rfl, rfl, hmore⟩)
      | and f hmore => exact .inl ⟨rfl, _, rfl, ShownFields.several f hmore⟩
  · rintro (⟨rfl, more, rfl, h⟩ | ⟨f, later, more, rfl, rfl, h⟩ | ⟨rfl, f, rfl, rfl⟩)
    · cases (h : ShownFields mark fields more) with
      | one f => exact LaterFields.last f
      | several f hmore => exact LaterFields.and f hmore
    · cases mayEnd with
      | true => exact ShownFields.several f h
      | false => exact LaterFields.plain f h
    · exact ShownFields.one f

/-- The fields that come next, up to the mark that ends them. -/
def Shows (mayEnd : Bool) (mark : Char) (fields : List Field) (s rest : List Char) : Prop :=
  ∃ ls, FieldsAt mayEnd mark fields ls ∧ Takes ls s rest

/-- The first word decides how the fields go on. -/
theorem shows_iff {mayEnd : Bool} {mark : Char} (hmark : mark ∈ Token.marks) {fields : List Field} :
    Shows mayEnd mark fields s rest ↔ ∃ w mid, word? s = some (w, mid) ∧
      ((mayEnd = false ∧ w = "and".toList ∧ Shows true mark fields mid rest) ∨
      (∃ f later, fields = f :: later ∧ w = f.name.toList ++ [','] ∧
        Shows false mark later mid rest) ∨
      (mayEnd = true ∧ ∃ f, fields = [f] ∧ w = f.name.toList ++ [mark] ∧ rest = mid)) := by
  have hand : IsWord "and".toList := by decide
  have hname := fun f : Field => (name_mark_isWord f (show ',' ∈ Token.marks by decide)).1
  constructor
  · rintro ⟨ls, hls, htakes⟩
    rcases fieldsAt_iff.1 hls with ⟨hmay, more, rfl, h⟩ | ⟨f, later, more, rfl, rfl, h⟩ |
      ⟨hmay, f, rfl, rfl⟩
    · obtain ⟨mid, hword, htakes⟩ := (takes_word hand).1 htakes
      exact ⟨_, mid, hword, .inl ⟨hmay, rfl, more, h, htakes⟩⟩
    · obtain ⟨mid, hword, htakes⟩ := (takes_word (hname f)).1 htakes
      exact ⟨_, mid, hword, .inr (.inl ⟨f, later, rfl, rfl, more, h, htakes⟩)⟩
    · obtain ⟨mid, hword, hnil⟩ := (takes_word (name_mark_isWord f hmark).1).1 htakes
      exact ⟨_, mid, hword, .inr (.inr ⟨hmay, f, rfl, rfl, takes_nil.1 hnil⟩)⟩
  · rintro ⟨w, mid, hword, ⟨hmay, rfl, more, h, htakes⟩ | ⟨f, later, rfl, rfl, more, h, htakes⟩ |
      ⟨hmay, f, rfl, rfl, rfl⟩⟩
    · exact ⟨_, fieldsAt_iff.2 (.inl ⟨hmay, more, rfl, h⟩),
        (takes_word hand).2 ⟨mid, hword, htakes⟩⟩
    · exact ⟨_, fieldsAt_iff.2 (.inr (.inl ⟨f, later, more, rfl, rfl, h⟩)),
        (takes_word (hname f)).2 ⟨mid, hword, htakes⟩⟩
    · exact ⟨_, fieldsAt_iff.2 (.inr (.inr ⟨hmay, f, rfl, rfl⟩)),
        (takes_word (name_mark_isWord f hmark).1).2 ⟨rest, hword, .nil rest⟩⟩

section Display

variable {first sawAnd order : Bool} {mid : List Char}

/-- An `and` is read in front of the last field, once and not in front of the first. -/
theorem displayFields_and (hs : size s ≤ e) (hword : word? s = some ("and".toList, mid)) :
    displayFields first sawAnd (tokensTo e s) =
      if first || sawAnd then .error (.unexpected .display "a display field" (some "and"))
      else displayFields first true (tokensTo e mid) := by
  rw [tokensTo_some hs hword, displayFields]
  simp

/-- A field with its mark goes on to others, ends the clause or lacks its `and`. -/
theorem displayFields_name (hs : size s ≤ e) {f : Field} {mark : Char} (hmark : mark ∈ Token.marks)
    (hword : word? s = some (f.name.toList ++ [mark], mid)) :
    displayFields first sawAnd (tokensTo e s) =
      if mark = ',' then
        (displayFields false false (tokensTo e mid)).map
          fun ((fields, order), rest) => ((f :: fields, order), rest)
      else if first || sawAnd then .ok (([f], mark == ';'), tokensTo e mid)
      else .error (.malformed .display .andMissing (some (f.name ++ String.ofList [mark]))) := by
  have hand : String.ofList (f.name.toList ++ [mark]) ≠ "and" := fun h =>
    (name_mark_isWord f hmark).2 (ofList_eq_iff.1 h)
  have hfield : fieldOf .display f.name = .ok f := fieldOf_eq_ok_iff.2 rfl
  rw [tokensTo_some hs hword, displayFields, if_neg hand]
  simp only [splitMark_mark hmark, String.ofList_toList, hfield, bind, Except.bind]
  by_cases hcomma : mark = ','
  · subst hcomma
    simp only [if_true]
    cases displayFields false false (tokensTo e mid) with
    | error rejection => rfl
    | ok found => rfl
  · rw [if_neg hcomma]
    split
    · rename_i hmark'
      exact absurd (Option.some.inj hmark') hcomma
    · rename_i mark' _ hmark'
      obtain rfl := Option.some.inj hmark'
      simp
    · contradiction

/-- What is read of the display clause begins with `and` or with a name and a mark. -/
theorem word_of_displayFields {r : (List Field × Bool) × List Token} (hs : size s ≤ e)
    (h : displayFields first sawAnd (tokensTo e s) = .ok r) :
    ∃ w mid, word? s = some (w, mid) ∧
      (w = "and".toList ∨
        ∃ (f : Field) (mark : Char), mark ∈ Token.marks ∧ w = f.name.toList ++ [mark]) := by
  cases hword : word? s with
  | none =>
    rw [tokensTo_none hword] at h
    contradiction
  | some found =>
    obtain ⟨w, mid⟩ := found
    refine ⟨w, mid, rfl, ?_⟩
    rw [tokensTo_some hs hword, displayFields] at h
    split at h
    · rename_i hand
      exact .inl (ofList_eq_iff.1 hand)
    · cases hsplit :
          (Token.mk (String.ofList w) (e - size (w ++ mid)) (e - size mid)).splitMark with
      | mk word mark? =>
        simp only [hsplit] at h
        obtain ⟨f, hf, h⟩ := bind_eq_ok_iff.1 h
        cases mark? with
        | none =>
          dsimp only at h
          split at h <;> contradiction
        | some mark =>
          obtain ⟨hmark, x, rfl, hx⟩ := eq_of_splitMark hsplit
          rw [fieldOf_eq_ok_iff, hx, ofList_eq_iff] at hf
          exact .inr ⟨f, mark, hmark, by rw [hf]⟩

/-- The mark that ends the fields is one of the marks, is no comma, and tells whether an order
follows. -/
theorem endMark_spec (order : Bool) :
    endMark order ∈ Token.marks ∧ endMark order ≠ ',' ∧ (endMark order == ';') = order := by
  cases order <;> decide

/-- A mark that is no comma ends the fields. -/
theorem eq_endMark {mark : Char} (hmark : mark ∈ Token.marks) (hne : mark ≠ ',') :
    mark = endMark (mark == ';') := by
  simp only [Token.marks, List.mem_cons, List.not_mem_nil, or_false] at hmark
  rcases hmark with rfl | rfl | rfl
  · contradiction
  · rfl
  · rfl

/-- The shown fields that are read are those of the grammar. -/
theorem shows_of_displayFields (hs : size s ≤ e) {fields : List Field}
    (h : displayFields first sawAnd (tokensTo e s) = .ok ((fields, order), ts)) :
    ∃ rest, Shows (first || sawAnd) (endMark order) fields s rest ∧ ts = tokensTo e rest := by
  have hend := endMark_spec order
  induction hn : s.length using Nat.strongRecOn generalizing s first sawAnd fields with
  | ind n ih =>
    obtain ⟨w, mid, hword, hw⟩ := word_of_displayFields hs h
    -- what follows the first word is shorter, so the fields there are those of the grammar
    have hlater : ∀ {first sawAnd fields},
        displayFields first sawAnd (tokensTo e mid) = .ok ((fields, order), ts) →
          ∃ rest, Shows (first || sawAnd) (endMark order) fields mid rest ∧
            ts = tokensTo e rest :=
      fun h => ih mid.length (hn ▸ word?_length hword) (word?_size_le hword hs) h rfl
    rcases hw with rfl | ⟨f, mark, hmark, rfl⟩
    · rw [displayFields_and hs hword] at h
      split at h
      · contradiction
      · rename_i hnot
        obtain ⟨rest, hshows, rfl⟩ := hlater h
        rw [Bool.or_true] at hshows
        refine ⟨rest, (shows_iff hend.1).2 ⟨_, mid, hword, .inl ⟨?_, rfl, hshows⟩⟩, rfl⟩
        exact eq_false_of_ne_true hnot
    · rw [displayFields_name hs hmark hword] at h
      split at h
      · rename_i hcomma
        subst hcomma
        obtain ⟨⟨⟨later, order'⟩, _⟩, hread, h⟩ := map_eq_ok_iff.1 h
        obtain ⟨hfields, rfl⟩ := Prod.mk.inj h
        obtain ⟨rfl, rfl⟩ := Prod.mk.inj hfields
        obtain ⟨rest, hshows, rfl⟩ := hlater hread
        refine ⟨rest, (shows_iff hend.1).2 ⟨_, mid, hword, .inr (.inl ?_)⟩, rfl⟩
        exact ⟨f, later, rfl, rfl, hshows⟩
      · rename_i hne
        split at h
        · rename_i hmay
          obtain ⟨hfields, rfl⟩ := Prod.mk.inj (Except.ok.inj h)
          obtain ⟨rfl, rfl⟩ := Prod.mk.inj hfields
          refine ⟨mid, (shows_iff hend.1).2 ⟨_, mid, hword, .inr (.inr ?_)⟩, rfl⟩
          exact ⟨hmay, f, rfl, by rw [← eq_endMark hmark hne], rfl⟩
        · contradiction

/-- The shown fields of the grammar are read. -/
theorem displayFields_of_shows (hs : size s ≤ e) {fields : List Field} {rest : List Char}
    (h : Shows (first || sawAnd) (endMark order) fields s rest) :
    displayFields first sawAnd (tokensTo e s) = .ok ((fields, order), tokensTo e rest) := by
  have hend := endMark_spec order
  induction hn : s.length using Nat.strongRecOn generalizing s first sawAnd fields with
  | ind n ih =>
    obtain ⟨w, mid, hword, hw⟩ := (shows_iff hend.1).1 h
    have hlater : ∀ {first sawAnd fields}, Shows (first || sawAnd) (endMark order) fields mid rest →
        displayFields first sawAnd (tokensTo e mid) = .ok ((fields, order), tokensTo e rest) :=
      fun h => ih mid.length (hn ▸ word?_length hword) (word?_size_le hword hs) h rfl
    rcases hw with ⟨hmay, rfl, hshows⟩ | ⟨f, later, rfl, rfl, hshows⟩ | ⟨hmay, f, rfl, rfl, rfl⟩
    · rw [displayFields_and hs hword, hmay, if_neg (by decide)]
      refine hlater ?_
      rwa [Bool.or_true]
    · rw [displayFields_name hs (by decide) hword, if_pos rfl]
      exact map_eq_ok_iff.2 ⟨((later, order), tokensTo e rest), hlater hshows, rfl⟩
    · rw [displayFields_name hs hend.1 hword, if_neg hend.2.1, if_pos hmay, hend.2.2]

/-- The shown fields are those of the grammar, up to the mark that ends them. -/
theorem displayFields_eq_ok_iff (hs : size s ≤ e) {fields : List Field} :
    displayFields first sawAnd (tokensTo e s) = .ok ((fields, order), ts) ↔
      ∃ rest, Shows (first || sawAnd) (endMark order) fields s rest ∧ ts = tokensTo e rest := by
  constructor
  · exact shows_of_displayFields hs
  · rintro ⟨rest, hshows, rfl⟩
    exact displayFields_of_shows hs hshows

/-- The display clause is read where `show` and its fields stand. -/
theorem displayClause_eq_ok_iff (hs : size s ≤ e) {fields : List Field} :
    displayClause (tokensTo e s) = .ok ((fields, order), ts) ↔
      ∃ ls rest, ShownFields (endMark order) fields ls ∧ Takes (wordsOf "show" ++ ls) s rest ∧
        ts = tokensTo e rest := by
  rw [displayClause, bind_eq_ok_iff]
  constructor
  · rintro ⟨_, hshow, h⟩
    obtain ⟨mid, hmid, rfl⟩ := (takeWord_eq_ok_iff hs (by decide)).1 hshow
    obtain ⟨rest, ⟨ls, hls, hrest⟩, rfl⟩ := (displayFields_eq_ok_iff (hmid.size_le hs)).1 h
    exact ⟨ls, rest, hls, takes_append.2 ⟨mid, hmid, hrest⟩, rfl⟩
  · rintro ⟨ls, rest, hls, htakes, rfl⟩
    obtain ⟨mid, hmid, hrest⟩ := takes_append.1 htakes
    exact ⟨_, (takeWord_eq_ok_iff hs (by decide)).2 ⟨mid, hmid, rfl⟩,
      (displayFields_eq_ok_iff (hmid.size_le hs)).2 ⟨rest, ⟨ls, hls, hrest⟩, rfl⟩⟩

end Display

/-- The order clause is its words and a field with a full stop. -/
theorem orderClause_eq_ok_iff (hs : size s ≤ e) {f : Field} :
    orderClause (tokensTo e s) = .ok (f, ts) ↔
      ∃ rest, Takes (wordsOf "sort in ascending order by" ++ [f.name.toList ++ ['.']]) s rest ∧
        ts = tokensTo e rest := by
  have hstop : '.' ∈ Token.marks := by decide
  have hwords : ∀ w ∈ ["sort", "in", "ascending", "order", "by"], IsWord w.toList := by decide
  rw [orderClause, bind_eq_ok_iff]
  constructor
  · rintro ⟨_, hfirst, h⟩
    obtain ⟨mid, hmid, rfl⟩ := (takeWords_eq_ok_iff hs hwords).1 hfirst
    have hsize := hmid.size_le hs
    cases hword : word? mid with
    | none =>
      rw [tokensTo_none hword] at h
      contradiction
    | some found =>
      obtain ⟨w, rest⟩ := found
      rw [tokensTo_some hsize hword] at h
      cases hsplit :
        (Token.mk (String.ofList w) (e - size (w ++ rest)) (e - size rest)).splitMark with
      | mk word mark? =>
        simp only [hsplit] at h
        obtain ⟨f', hf', hread⟩ := bind_eq_ok_iff.1 h
        split at hread
        · rename_i hmark
          subst hmark
          obtain ⟨rfl, rfl⟩ := Prod.mk.inj (Except.ok.inj hread)
          obtain ⟨-, x, rfl, hx⟩ := eq_of_splitMark hsplit
          rw [fieldOf_eq_ok_iff, hx, ofList_eq_iff] at hf'
          subst hf'
          refine ⟨rest, takes_append.2 ⟨mid, hmid, ?_⟩, rfl⟩
          exact (takes_word_of (name_mark_isWord f' hstop).1 hword).2 ⟨rfl, .nil rest⟩
        · split at hread <;> contradiction
  · rintro ⟨rest, htakes, rfl⟩
    obtain ⟨mid, hmid, htakes⟩ := takes_append.1 htakes
    obtain ⟨rest', hword, hnil⟩ := (takes_word (name_mark_isWord f hstop).1).1 htakes
    obtain rfl := takes_nil.1 hnil
    have hfield : fieldOf .order f.name = .ok f := fieldOf_eq_ok_iff.2 rfl
    refine ⟨_, (takeWords_eq_ok_iff hs hwords).2 ⟨mid, hmid, rfl⟩, ?_⟩
    rw [tokensTo_some (hmid.size_le hs) hword]
    simp only [splitMark_mark hstop, String.ofList_toList, hfield, bind, Except.bind, if_true]

/-- What follows the shown fields is the ending that their mark asks for. -/
theorem sortClause_eq_ok_iff (hs : size s ≤ e) {order : Bool} {sort : Option Field} :
    sortClause order (tokensTo e s) = .ok (sort, ts) ↔
      ∃ ls rest, Ending (endMark order) sort ls ∧ Takes ls s rest ∧ ts = tokensTo e rest := by
  cases order with
  | false =>
    rw [sortClause, if_neg (by decide)]
    constructor
    · intro h
      obtain ⟨rfl, rfl⟩ := Prod.mk.inj (Except.ok.inj h)
      exact ⟨_, s, .stop, .nil s, rfl⟩
    · rintro ⟨ls, rest, hending, htakes, rfl⟩
      cases hending
      rw [takes_nil.1 htakes]
  | true =>
    rw [sortClause, if_pos rfl, map_eq_ok_iff]
    constructor
    · rintro ⟨⟨f, _⟩, horder, hsort⟩
      obtain ⟨rfl, rfl⟩ := Prod.mk.inj hsort
      obtain ⟨rest, htakes, rfl⟩ := (orderClause_eq_ok_iff hs).1 horder
      exact ⟨_, rest, .order f, htakes, rfl⟩
    · rintro ⟨ls, rest, hending, htakes, rfl⟩
      cases hending with
      | order f =>
        have horder := (orderClause_eq_ok_iff hs).2 ⟨rest, htakes, rfl⟩
        exact ⟨(f, tokensTo e rest), horder, rfl⟩

/-! ## The whole sentence -/

/-- Clauses that are read one after another are the clauses of a sentence that asks the query. -/
theorem asks_of_read {q : Query} (h : read source = .ok q) : Asks source q := by
  obtain ⟨dataset, ts₁, filter, ts₂, display, order, ts₃, sort, hdataset, hfilter, hdisplay, hsort,
    hparts⟩ := read_eq_ok_iff.1 h
  obtain ⟨rfl, rfl, hshown, rfl⟩ := Query.ofParts_eq_ok_iff.1 hparts
  have hs := within_source source
  rw [tokenize_eq] at hdataset
  obtain ⟨hvalid, s₁, htakes₁, rfl⟩ := (datasetClause_eq_ok_iff hs.size_le).1 hdataset
  have hs₁ := hs.of_suffix htakes₁.suffix
  obtain ⟨finds, s₂, hfinds, htakes₂, rfl⟩ := (filterClause_eq_ok_iff hs₁).1 hfilter
  have hs₂ := hs₁.of_suffix htakes₂.suffix
  obtain ⟨shows, s₃, hshows, htakes₃, rfl⟩ := (displayClause_eq_ok_iff hs₂.size_le).1 hdisplay
  have hs₃ := hs₂.of_suffix htakes₃.suffix
  obtain ⟨ending, s₄, hending, htakes₄, hnil⟩ := (sortClause_eq_ok_iff hs₃.size_le).1 hsort
  have hs₄ := hs₃.of_suffix htakes₄.suffix
  refine ⟨hvalid, finds, display, endMark order, shows, ending, hfinds, hshows,
    fun f => Query.mem_display_iff hshown, hending, s₄, ?_,
    (tokensTo_eq_nil_iff hs₄.size_le).1 hnil.symm⟩
  have htakes := takes_append.2 ⟨s₁, htakes₁, takes_append.2 ⟨s₂, htakes₂,
    takes_append.2 ⟨s₃, htakes₃, htakes₄⟩⟩⟩
  simpa only [List.append_assoc] using htakes

/-- A sentence that asks a query is read clause by clause, and as that query. -/
theorem read_of_asks {q : Query} (h : Asks source q) : read source = .ok q := by
  obtain ⟨hvalid, finds, fields, mark, shows, ending, hfinds, hshows, hfields, hending, rest,
    htakes, hrest⟩ := h
  obtain ⟨order, rfl⟩ := exists_endMark hending
  have hshown : q.display = Field.ordered fields := by
    rw [← q.display_ordered]
    exact List.filter_congr fun f _ => by simp [hfields f]
  have hparts : Query.ofParts q.dataset q.filter fields q.sort = .ok q :=
    Query.ofParts_eq_ok_iff.2 ⟨rfl, rfl, hshown, rfl⟩
  simp only [List.append_assoc] at htakes
  rw [← List.append_assoc, takes_append] at htakes
  obtain ⟨s₁, htakes₁, htakes⟩ := htakes
  obtain ⟨s₂, htakes₂, htakes⟩ := takes_append.1 htakes
  rw [← List.append_assoc, takes_append] at htakes
  obtain ⟨s₃, htakes₃, htakes₄⟩ := htakes
  have hs := within_source source
  have hs₁ := hs.of_suffix htakes₁.suffix
  have hs₂ := hs₁.of_suffix htakes₂.suffix
  have hs₃ := hs₂.of_suffix htakes₃.suffix
  have hs₄ := hs₃.of_suffix htakes₄.suffix
  refine read_eq_ok_iff.2 ⟨q.dataset, _, q.filter, _, fields, order, _, q.sort, ?_,
    (filterClause_eq_ok_iff hs₁).2 ⟨finds, s₂, hfinds, htakes₂, rfl⟩,
    (displayClause_eq_ok_iff hs₂.size_le).2 ⟨shows, s₃, hshows, htakes₃, rfl⟩, ?_, hparts⟩
  · rw [tokenize_eq]
    exact (datasetClause_eq_ok_iff hs.size_le).2 ⟨hvalid, s₁, htakes₁, rfl⟩
  · exact (sortClause_eq_ok_iff hs₃.size_le).2
      ⟨ending, rest, hending, htakes₄, ((tokensTo_eq_nil_iff hs₄.size_le).2 hrest).symm⟩

/-- The reader accepts exactly the sentences of the grammar, each as the query it asks. -/
theorem read_eq_ok_iff_asks (source : String) (q : Query) :
    read source = .ok q ↔ Asks source q :=
  ⟨asks_of_read, read_of_asks⟩

end CourseQuery.Sentence
