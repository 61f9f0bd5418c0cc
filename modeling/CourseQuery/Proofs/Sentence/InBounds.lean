import CourseQuery.Proofs.Sentence.Blame

/-!
# Every position lies in the sentence

Positions count bytes, so a position that is moved by one could lie outside the sentence or inside a
character. `Placed` says that the positions of a token cut its text out of the sentence; the tokens
of a sentence are placed, and stay so when a mark is stripped. `CutOut` says it of the body of a
literal, between its two quotes. A reader that could not cut out a literal would reject it with the
cause `literalOutside`; no reader does.
-/

set_option autoImplicit false

namespace CourseQuery.Sentence

open FilterClause (closing? closing?_eq_some closingToken? literal literalEnd?
  literalEnd?_eq)
open Literal (closes closes_iff escapedAfter)
open Text.Utf8 (size size_nil size_cons size_append)

/-! ## Cuts -/

section Cuts

variable {source : String} {s t part : List Char} {n start stop : Nat}

/-- Bytes are dropped from the front if they end between characters. -/
theorem dropBytes_eq_some_iff : dropBytes n s = some t ↔ ∃ pre, s = pre ++ t ∧ n = size pre := by
  constructor
  · intro h
    fun_induction dropBytes n s with
    | case1 => exact ⟨[], Option.some.inj h, rfl⟩
    | case2 => contradiction
    | case3 => exact ⟨[], Option.some.inj h, rfl⟩
    | case4 n c rest hn hc ih =>
      obtain ⟨pre, rfl, hsize⟩ := ih h
      refine ⟨c :: pre, rfl, ?_⟩
      rw [size_cons]
      omega
    | case5 => contradiction
  · rintro ⟨pre, rfl, rfl⟩
    exact dropBytes_append pre t

/-- Bytes are taken from the front if they end between characters. -/
theorem takeBytes_eq_some_iff : takeBytes n s = some t ↔ ∃ post, s = t ++ post ∧ n = size t := by
  constructor
  · intro h
    fun_induction takeBytes n s generalizing t with
    | case1 =>
      obtain rfl := Option.some.inj h
      exact ⟨[], rfl, rfl⟩
    | case2 => contradiction
    | case3 c rest =>
      obtain rfl := Option.some.inj h
      exact ⟨c :: rest, rfl, rfl⟩
    | case4 n c rest hn hc ih =>
      obtain ⟨t, ht, rfl⟩ := Option.map_eq_some_iff.1 h
      obtain ⟨post, rfl, hsize⟩ := ih ht
      refine ⟨post, rfl, ?_⟩
      rw [size_cons]
      omega
    | case5 => contradiction
  · rintro ⟨post, rfl, rfl⟩
    exact takeBytes_append t post

/-- A cut succeeds exactly when its positions are those of a part of the sentence. -/
theorem slice_eq_some_iff :
    slice source start stop = some part ↔
      ∃ pre post, source.toList = pre ++ (part ++ post) ∧ start = size pre ∧
        stop = size pre + size part := by
  constructor
  · intro h
    rw [slice, Option.ite_none_right_eq_some, Option.bind_eq_some_iff] at h
    obtain ⟨hle, behind, hdrop, htake⟩ := h
    obtain ⟨pre, hsource, rfl⟩ := dropBytes_eq_some_iff.1 hdrop
    obtain ⟨post, rfl, hsize⟩ := takeBytes_eq_some_iff.1 htake
    exact ⟨pre, post, hsource, rfl, by omega⟩
  · rintro ⟨pre, post, hsource, rfl, rfl⟩
    exact slice_eq hsource

end Cuts

/-! ## Tokens -/

/-- The positions of a token cut its text out of the sentence. -/
def Placed (source : String) (t : Token) : Prop :=
  slice source t.start t.stop = some t.chars

section Tokens

variable {source : String} {e : Nat} {s : List Char} {t word : Token} {ts : List Token}

/-- A stripped mark lies behind the start of its token, and what is left is placed. -/
theorem Placed.strip {mark : Char} (h : Placed source t) (hstrip : t.strip? mark = some word) :
    mark.utf8Size ≤ t.stop ∧ t.start ≤ word.stop ∧ Placed source word := by
  obtain ⟨text, start, stop⟩ := t
  obtain ⟨w, rfl⟩ : ∃ w, text = String.ofList w := ⟨text.toList, String.ofList_toList.symm⟩
  obtain ⟨x, rfl, rfl⟩ := strip?_eq_some_iff.1 hstrip
  obtain ⟨pre, post, hsource, hstart, hstop⟩ := slice_eq_some_iff.1 h
  simp only [Token.chars, String.toList_ofList] at hsource hstart hstop
  simp only [size_append, size_cons, size_nil] at hstop
  refine ⟨?_, ?_, slice_eq_some_iff.2 ⟨pre, mark :: post, ?_, hstart, ?_⟩⟩
  · dsimp only
    omega
  · dsimp only
    omega
  · simp [hsource, Token.chars]
  · simp only [Token.chars, String.toList_ofList]
    omega

/-- Every token of the text has its place in the text. -/
theorem placed_of_mem (hs : Within source e s) : ∀ t ∈ tokensTo e s, Placed source t := by
  induction s using words_induction with
  | gap s hgap =>
    rw [tokensTo_gap hgap]
    simp
  | word gap w rest hgap hw hrest ih =>
    rw [tokensTo_word hs.size_le hgap hw hrest, List.forall_mem_cons]
    refine ⟨?_, ih (hs.of_word? (word?_gap_append hgap hw hrest))⟩
    obtain ⟨pre, post, hsource, rfl⟩ := hs
    refine slice_eq_some_iff.2 ⟨pre ++ gap, rest ++ post, ?_, ?_, ?_⟩
    · simp [hsource, Token.chars]
    · simp only [size_append]
      omega
    · simp only [size_append, Token.chars, String.toList_ofList]
      omega

/-- The last tokens of a text are the tokens of its end. -/
theorem tokensTo_suffix (hs : size s ≤ e) (h : ts <:+ tokensTo e s) :
    ∃ rest, rest <:+ s ∧ ts = tokensTo e rest := by
  induction s using words_induction with
  | gap s hgap =>
    rw [tokensTo_gap hgap, List.suffix_nil] at h
    exact ⟨s, List.suffix_refl s, h.trans (tokensTo_gap hgap).symm⟩
  | word gap w rest hgap hw hrest ih =>
    rw [tokensTo_word hs hgap hw hrest, List.suffix_cons_iff] at h
    rcases h with rfl | h
    · exact ⟨_, List.suffix_refl _, (tokensTo_word hs hgap hw hrest).symm⟩
    · obtain ⟨left, hleft, rfl⟩ := ih (word?_size_le (word?_gap_append hgap hw hrest) hs) h
      exact ⟨left, hleft.trans ((List.suffix_append _ _).trans (List.suffix_append _ _)), rfl⟩

/-- Tokens that a literal may be read from: what is left of the tokens of a sentence, or of those
that are handed on as its filter, of which the last has lost its `;`. -/
inductive Handed (source : String) : List Token → Prop
  | sentence {ts : List Token} : ts <:+ tokenize source → Handed source ts
  | filter {ts taken rest left : List Token} :
      ts <:+ tokenize source → filterTokens false ts = .ok (taken, rest) → left <:+ taken →
      Handed source left

/-- Tokens that are handed on are those of a part of the sentence. -/
theorem Handed.within (h : Handed source ts) :
    ∃ e s, Within source e s ∧ ts = tokensTo e s := by
  have hsource := within_source source
  cases h with
  | sentence hts =>
    rw [tokenize_eq] at hts
    obtain ⟨s, hs, rfl⟩ := tokensTo_suffix hsource.size_le hts
    exact ⟨_, s, hsource.of_suffix hs, rfl⟩
  | filter hts htaken hleft =>
    rw [tokenize_eq] at hts
    obtain ⟨s, hs, rfl⟩ := tokensTo_suffix hsource.size_le hts
    have hs := hsource.of_suffix hs
    obtain ⟨s₁, s₂, rfl, -, rfl, -⟩ := eq_of_filterTokens hs.size_le htaken
    have hs₁ := hs.of_append
    obtain ⟨left, hrest, rfl⟩ := tokensTo_suffix hs₁.size_le hleft
    exact ⟨_, left, hs₁.of_suffix hrest, rfl⟩

end Tokens

/-! ## Literals -/

/-- The body of a literal is what a sentence holds between the quote that begins the first token and
the open quote that ends the last one. -/
structure CutOut (source : String) (first last : Token) (body : List Char) : Prop where
  /-- The two positions are those of the end of the one quote and the start of the other. -/
  place : ∃ pre post, source.toList = pre ++ '"' :: (body ++ '"' :: post) ∧
    first.start + 1 = size (pre ++ ['"']) ∧ last.stop = size (pre ++ '"' :: body) + 1
  closed : last.chars.getLast? = some '"' ∧ escapedAfter false body = false
  ordered : first.start + 1 ≤ last.stop - 1
  inside : last.stop - 1 ≤ size source.toList
  cut : slice source (first.start + 1) (last.stop - 1) = some body

section Literals

variable {source : String} {e : Nat} {s : List Char} {first last : Token} {later rest : List Token}

/-- A word that closes a literal ends with a quote. -/
theorem getLast?_of_closes {w : List Char} (h : closes w = true) : w.getLast? = some '"' := by
  obtain ⟨front, rfl, -⟩ := closes_iff.1 h
  exact List.getLast?_concat

/-- The closing token of a literal closes it. -/
theorem closes_of_closingToken? (h : closingToken? later = some (last, rest)) :
    closes last.chars = true := by
  induction later with
  | nil => contradiction
  | cons t later ih =>
    rw [closingToken?] at h
    split at h
    · rename_i hcloses
      obtain ⟨rfl, -⟩ := Prod.mk.inj (Option.some.inj h)
      exact hcloses
    · exact ih h

/-- The token that ends a literal ends with a quote. -/
theorem getLast?_of_literalEnd? (h : literalEnd? first later = some (last, rest)) :
    last.chars.getLast? = some '"' := by
  rw [literalEnd?] at h
  split at h
  · rename_i hcloses
    obtain ⟨rfl, -⟩ := Prod.mk.inj (Option.some.inj h)
    have hlast := getLast?_of_closes hcloses
    rw [List.getLast?_drop] at hlast
    split at hlast
    · contradiction
    · exact hlast
  · exact getLast?_of_closes (closes_of_closingToken? h)

/-- A literal between two quotes of the text is cut out between its tokens. -/
theorem cutOut_of_text {pre body post : List Char}
    (htext : source.toList = pre ++ '"' :: (body ++ '"' :: post)) (hstart : first.start = size pre)
    (hstop : last.stop = size pre + (size body + 2)) (hlast : last.chars.getLast? = some '"')
    (hescaped : escapedAfter false body = false) : CutOut source first last body := by
  have hone : Char.utf8Size '"' = 1 := by decide
  have hopened : first.start + 1 = size (pre ++ ['"']) := by
    simp only [hstart, size_append, size_cons, size_nil, hone]
  have hclosed : last.stop = size (pre ++ '"' :: body) + 1 := by
    simp only [hstop, size_append, size_cons, hone]
    omega
  have hcut : source.toList = (pre ++ ['"']) ++ (body ++ '"' :: post) := by
    simp [htext]
  refine ⟨⟨pre, post, htext, hopened, hclosed⟩, ⟨hlast, hescaped⟩, by omega, ?_, ?_⟩
  · simp only [htext, hstop, size_append, size_cons, hone]
    omega
  · refine slice_eq_some_iff.2 ⟨_, _, hcut, hopened, ?_⟩
    simp only [hstop, size_append, size_cons, size_nil, hone]
    omega

/-- Where a literal ends, its body can be cut out. -/
theorem exists_cutOut (hs : Within source e s) (htokens : first :: later = tokensTo e s)
    (hquote : first.chars.head? = some '"')
    (hend : literalEnd? first later = some (last, rest)) :
    ∃ body, CutOut source first last body := by
  have hone : Char.utf8Size '"' = 1 := by decide
  cases hword : word? s with
  | none =>
    rw [tokensTo_none hword] at htokens
    contradiction
  | some found =>
    obtain ⟨w, mid⟩ := found
    rw [tokensTo_some hs.size_le hword] at htokens
    obtain ⟨rfl, rfl⟩ := List.cons.inj htokens
    obtain ⟨gap, rfl, -, hw, hmid⟩ := word?_eq_some_iff.1 hword
    rw [Token.chars, String.toList_ofList, List.head?_eq_some_iff] at hquote
    obtain ⟨w, rfl⟩ := hquote
    have hsize : size (w ++ mid) ≤ e := by
      have := hs.size_le
      simp only [size_append, size_cons] at this ⊢
      omega
    have hclosing := @literalEnd?_eq e mid w (e - size ('"' :: w ++ mid)) hsize
      (List.forall_mem_cons.1 hw.2).2 hmid
    rw [hend] at hclosing
    -- the quote that closes stands in the text behind the one that opens
    obtain ⟨body, behind, hbody, -, hescaped, hstop, -⟩ := closing?_eq_some hsize hclosing.symm
    rw [List.cons_append, hbody] at hs ⊢
    obtain ⟨pre, post, hsource, rfl⟩ := hs
    have htext : source.toList = (pre ++ gap) ++ '"' :: (body ++ '"' :: (behind ++ post)) := by
      simp [hsource]
    refine ⟨body, cutOut_of_text htext ?_ ?_ (getLast?_of_literalEnd? hend) hescaped⟩
    · simp only [size_append, size_cons]
      omega
    · simp only [hstop, size_append, size_cons, hone]
      omega

end Literals

/-! ## Reading -/

/-- A rejection for another reason than a literal that could not be cut out. -/
def Inside (r : Rejection) : Prop :=
  ∀ token, r ≠ .invalidFilter .literalOutside token

section Reading

variable {source : String} {e : Nat} {s : List Char}

/-- A fault of the filter other than a literal outside the text is inside. -/
theorem inside_invalidFilter {cause : Cause} {token : Option String} (h : cause ≠ .literalOutside) :
    Inside (.invalidFilter cause token) := by
  intro token' heq
  exact h (congrArg Rejection.cause heq)

/-- A rejection that is no fault of a filter is inside. -/
theorem inside_of_code {r : Rejection} (h : r.code ≠ .invalidFilter) : Inside r := by
  rintro token rfl
  exact h rfl

/-- A step that blames other clauses than the filter cuts out no literal. -/
theorem inside_of_blames {α : Type} {p : Clause → Prop} {x : Except Rejection α} (h : Blames p x)
    (hp : ¬ p .filter) : FailsWith Inside x := by
  rintro r hr token rfl
  exact hp (h _ hr)

/-- Unescaping a literal finds no literal outside the text. -/
theorem unescape_ne_outside (body : List Char) :
    Literal.unescape body ≠ .error .literalOutside := by
  fun_induction Literal.unescape body with
  | case1 => simp
  | case2 => simp
  | case3 c rest ih =>
    intro h
    exact ih (map_eq_error_iff.1 h)
  | case4 => simp
  | case5 => simp
  | case6 c rest _ _ _ _ ih =>
    intro h
    exact ih (map_eq_error_iff.1 h)

/-- Reading a literal cuts nothing outside the text. -/
theorem literal_inside (hs : Within source e s) :
    FailsWith Inside (literal source (tokensTo e s)) := by
  generalize htokens : tokensTo e s = ts
  cases ts with
  | nil => exact failsWith_error (inside_invalidFilter (by simp))
  | cons first later =>
    rw [literal]
    split
    · rename_i hquote
      split
      · exact failsWith_error (inside_invalidFilter (by simp))
      · rename_i last rest hend
        obtain ⟨body, hbody⟩ := exists_cutOut hs htokens.symm hquote hend
        rw [hbody.cut]
        dsimp only
        split
        · exact failsWith_ok _
        · rename_i cause hcause
          refine failsWith_error (inside_invalidFilter ?_)
          rintro rfl
          exact unescape_ne_outside body hcause
    · exact failsWith_error (inside_invalidFilter (by simp))

/-- Reading a condition cuts nothing outside the text. -/
theorem condition_inside (hs : Within source e s) (kind : CellKind) :
    FailsWith Inside (FilterClause.condition source kind (tokensTo e s)) := by
  have hcause : ∀ cause token, cause ≠ .literalOutside → Inside (.invalidFilter cause token) :=
    fun _ _ => inside_invalidFilter
  cases kind with
  | number => exact FilterClause.numberCondition_failsWith hcause _
  | text =>
    refine (FilterClause.textOperator_failsWith hcause _).bind fun found hfound => ?_
    obtain ⟨⟨relation, negated⟩, left⟩ := found
    obtain ⟨rest, htakes, -, rfl⟩ := (FilterClause.textOperator_eq_ok_iff hs.size_le).1 hfound
    exact (literal_inside (hs.of_suffix htakes.suffix)).bind fun _ _ => failsWith_ok _

/-- Reading a predicate cuts nothing outside the text. -/
theorem predicate_inside (hs : Within source e s) :
    FailsWith Inside (FilterClause.predicate source (tokensTo e s)) := by
  cases hword : word? s with
  | none =>
    rw [tokensTo_none hword]
    exact failsWith_error (inside_invalidFilter (by simp))
  | some found =>
    obtain ⟨w, mid⟩ := found
    rw [tokensTo_some hs.size_le hword, FilterClause.predicate]
    split
    · exact failsWith_error (inside_invalidFilter (by simp))
    · exact (condition_inside (hs.of_word? hword) _).map

/-- Reading further predicates cuts nothing outside the text. -/
theorem moreGroups_inside (hs : Within source e s) (group : List Predicate) :
    FailsWith Inside (FilterClause.moreGroups source group (tokensTo e s)) := by
  induction hn : s.length using Nat.strongRecOn generalizing s group with
  | ind n ih =>
    cases hword : word? s with
    | none =>
      rw [tokensTo_none hword, FilterClause.moreGroups]
      exact failsWith_ok _
    | some found =>
      obtain ⟨w, mid⟩ := found
      have hmid := hs.of_word? hword
      have hlength := word?_length hword
      -- what follows a condition is a shorter part of the sentence
      have hmore : ∀ p left group, FilterClause.predicate source (tokensTo e mid) = .ok (p, left) →
          FailsWith Inside (FilterClause.moreGroups source group left) := by
        intro p left group hp
        obtain ⟨lexemes, rest, -, htakes, rfl⟩ := (FilterClause.predicate_eq_ok_iff hmid).1 hp
        have hle := htakes.suffix.length_le
        exact ih rest.length (by omega) (hmid.of_suffix htakes.suffix) group rfl
      rw [tokensTo_some hs.size_le hword, FilterClause.moreGroups_cons]
      split
      · exact (predicate_inside hmid).bind fun found hfound => hmore _ _ _ hfound
      · split
        · exact (predicate_inside hmid).bind fun found hfound => (hmore _ _ _ hfound).map
        · exact failsWith_error (inside_invalidFilter (by simp))

/-- Reading the conditions of a filter cuts nothing outside the text. -/
theorem filter_inside (hs : Within source e s) :
    FailsWith Inside (FilterClause.filter source (tokensTo e s)) := by
  refine FailsWith.map ?_
  unfold FilterClause.groups
  split
  · exact failsWith_error (inside_invalidFilter (by simp))
  · split
    · rename_i r hread
      exact failsWith_error (predicate_inside hs r hread)
    · rename_i p left hread
      obtain ⟨lexemes, rest, -, htakes, rfl⟩ := (FilterClause.predicate_eq_ok_iff hs).1 hread
      exact moreGroups_inside (hs.of_suffix htakes.suffix) _

end Reading

section Clauses

variable {source : String} {ts left : List Token}

/-- Taking a word cuts nothing outside the text. -/
theorem takeWord_inside (clause : Clause) (word : String) (ts : List Token) :
    FailsWith Inside (takeWord clause word ts) := by
  cases ts with
  | nil => exact failsWith_error (inside_of_code (by simp [Rejection.unexpected]))
  | cons t ts =>
    rw [takeWord]
    split
    · exact failsWith_ok _
    · exact failsWith_error (inside_of_code (by simp [Rejection.unexpected]))

/-- Looking for the end of a filter cuts nothing outside the text. -/
theorem filterTokens_inside (inLiteral : Bool) (ts : List Token) :
    FailsWith Inside (filterTokens inLiteral ts) := by
  induction ts generalizing inLiteral with
  | nil => exact failsWith_error (inside_of_code (by simp [Rejection.malformed]))
  | cons t ts ih =>
    rw [filterTokens]
    dsimp only
    split
    · exact failsWith_ok _
    · exact (ih _).bind fun _ _ => failsWith_ok _

/-- What is left behind a word is a tail of the tokens. -/
theorem takeWord_suffix {clause : Clause} {word : String} (h : takeWord clause word ts = .ok left) :
    left <:+ ts := by
  obtain ⟨t, rfl, -⟩ := takeWord_tokens.1 h
  exact List.suffix_cons t left

/-- What is left behind the dataset clause is a tail of the tokens. -/
theorem datasetClause_suffix {id : String} (h : datasetClause ts = .ok (id, left)) :
    left <:+ ts := by
  rw [datasetClause, bind_eq_ok_iff] at h
  obtain ⟨mid, hwords, h⟩ := h
  obtain ⟨front, rfl, -⟩ := takeWords_tokens.1 hwords
  refine List.IsSuffix.trans ?_ (List.suffix_append front mid)
  cases mid with
  | nil => contradiction
  | cons t mid =>
    dsimp only at h
    split at h
    · contradiction
    · split at h
      · contradiction
      · obtain ⟨-, rfl⟩ := Prod.mk.inj (Except.ok.inj h)
        exact List.suffix_cons t mid

/-- Reading the filter clause cuts nothing outside the text. -/
theorem filterClause_inside (hts : ts <:+ tokenize source) :
    FailsWith Inside (filterClause source ts) := by
  refine (takeWord_inside _ _ _).bind fun ts₁ hfind => ?_
  have hts₁ := (takeWord_suffix hfind).trans hts
  dsimp only
  split
  · exact (takeWord_inside _ _ _).bind fun _ _ => failsWith_ok _
  · split
    · refine (takeWord_inside _ _ _).bind fun ts₂ hwhose => ?_
      have hts₂ := (takeWord_suffix hwhose).trans ((List.drop_suffix 1 ts₁).trans hts₁)
      refine (filterTokens_inside _ _).bind fun found htaken => ?_
      obtain ⟨taken, rest⟩ := found
      obtain ⟨e, s, hs, rfl⟩ := (Handed.filter hts₂ htaken (List.suffix_refl _)).within
      exact (filter_inside hs).bind fun _ _ => failsWith_ok _
    · exact failsWith_error (inside_of_code (by simp [Rejection.unexpected]))

/-- Reading the sort clause cuts nothing outside the text. -/
theorem sortClause_inside (order : Bool) (ts : List Token) :
    FailsWith Inside (sortClause order ts) := by
  cases order with
  | false => exact failsWith_ok _
  | true => exact (inside_of_blames (orderClause_blames ts) (by simp)).map

/-- Reading the end of the sentence cuts nothing outside the text. -/
theorem terminator_inside (ts : List Token) : FailsWith Inside (terminator ts) := by
  cases ts with
  | nil => exact failsWith_ok _
  | cons t ts => exact failsWith_error (inside_of_code (by simp [Rejection.malformed]))

/-- The rejection of a query that makes no sense is inside. -/
theorem ofQueryFault_inside (fault : Query.Fault) : Inside (Rejection.ofQueryFault fault) := by
  cases fault with
  | nothingShown => exact inside_of_code (by simp [Rejection.ofQueryFault, Rejection.malformed])
  | sortNotShown field =>
    exact inside_of_code (by simp [Rejection.ofQueryFault, Rejection.malformed])

/-- Reading a sentence cuts nothing outside the text. -/
theorem read_inside (source : String) : FailsWith Inside (read source) := by
  rw [read_eq]
  refine (inside_of_blames (datasetClause_blames _) (by simp)).bind fun found hdataset => ?_
  refine (filterClause_inside (datasetClause_suffix hdataset)).bind fun found _ => ?_
  refine (inside_of_blames (displayClause_blames _) (by simp)).bind fun found _ => ?_
  refine (sortClause_inside _ _).bind fun found _ => ?_
  refine (terminator_inside _).bind fun _ _ => ?_
  intro r hr
  obtain ⟨fault, -, rfl⟩ := mapError_eq_error_iff.1 hr
  exact ofQueryFault_inside fault

end Clauses

/-! ## The whole sentence -/

/-- Every position at which the reader of a sentence cuts a text lies in that text and between two
of its characters. -/
structure InRange (source : String) : Prop where
  /-- The tokens that a literal may be read from are placed. -/
  tokens : ∀ ts, Handed source ts → ∀ t ∈ ts, Placed source t
  /-- A mark can be taken from the end of a token that is placed. -/
  strips : ∀ t mark word, Placed source t → t.strip? mark = some word →
    mark.utf8Size ≤ t.stop ∧ t.start ≤ word.stop ∧ Placed source word
  /-- The quote that opens a literal can be taken from the front of its token. -/
  opens : ∀ t : Token, t.chars.head? = some '"' →
    slice t.text 1 (size t.chars) = some (t.chars.drop 1)
  /-- The body of a literal can be cut out of the sentence. -/
  literals : ∀ first later last rest, Handed source (first :: later) →
    first.chars.head? = some '"' → literalEnd? first later = some (last, rest) →
    ∃ body, CutOut source first last body
  /-- No reader finds that a literal cannot be cut out. -/
  filters : ∀ ts, Handed source ts →
    FailsWith Inside (literal source ts) ∧ FailsWith Inside (FilterClause.filter source ts)
  sentence : FailsWith Inside (read source)

/-- Whatever the sentence, its reader stays inside it. -/
theorem every_position_in_range (source : String) : InRange source where
  tokens ts hts := by
    obtain ⟨e, s, hs, rfl⟩ := hts.within
    exact placed_of_mem hs
  strips t mark word := Placed.strip
  opens t hquote := by
    obtain ⟨w, hw⟩ := List.head?_eq_some_iff.1 hquote
    rw [hw]
    refine slice_eq_some_iff.2 ⟨['"'], [], ?_, rfl, ?_⟩
    · simpa [Token.chars] using hw
    · simp
  literals first later last rest hts hquote hend := by
    obtain ⟨e, s, hs, htokens⟩ := hts.within
    exact exists_cutOut hs htokens hquote hend
  filters ts hts := by
    obtain ⟨e, s, hs, rfl⟩ := hts.within
    exact ⟨literal_inside hs, filter_inside hs⟩
  sentence := read_inside source

/-- The words of a literal stand two blanks apart and the last of them loses its mark. -/
theorem every_position_in_range_two_words :
    ∃ first last, filterTokens false (tokenize "\"é  x\"; y") =
        .ok ([first, last], tokenize "\"é  x\"; y" |>.drop 2) ∧
      ∃ body, CutOut "\"é  x\"; y" first last body := by
  have htaken : filterTokens false (tokenize "\"é  x\"; y") =
      .ok ([⟨"\"é", 0, 3⟩, ⟨"x\"", 5, 7⟩], (tokenize "\"é  x\"; y").drop 2) := by
    decide +kernel
  refine ⟨_, _, htaken, ?_⟩
  exact (every_position_in_range _).literals _ _ _ []
    (.filter (List.suffix_refl _) htaken (List.suffix_refl _)) (by decide +kernel)
    (by decide +kernel)

end CourseQuery.Sentence
