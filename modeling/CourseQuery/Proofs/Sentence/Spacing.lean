import CourseQuery.Proofs.Sentence.Blame
import CourseQuery.Proofs.Sentence.FilterSpacing

/-!
# Only words matter

Two sentences with the same words in the same order are rejected in the same way or ask the same
query, except that the runs of blanks in a literal stay in it as they are. Clause by clause the
readers do the same on both. The filter is cut off at the same word, so its tokens are respaced
again; and a filter whose literals are single words has no blank to keep.
-/

set_option autoImplicit false

namespace CourseQuery

namespace Sentence

variable {source source' : String} {ts ts' : List Token}

/-! ## The clauses in two spacings -/

/-- A word of a clause is taken from both of two respaced texts or from neither. -/
theorem takeWord_agree (clause : Clause) (word : String) (h : Respaced source source' ts ts') :
    Agree (Respaced source source') (takeWord clause word ts) (takeWord clause word ts') := by
  rcases h.nil_or_cons with ⟨rfl, rfl⟩ | ⟨t, rest, t', rest', rfl, rfl, htext, hrest⟩
  · exact .error _
  · rw [takeWord, takeWord, ← htext]
    split
    · exact .ok hrest
    · exact .error _

/-- Words of a clause are taken from both of two respaced texts or from neither. -/
theorem takeWords_agree (clause : Clause) (words : List String)
    (h : Respaced source source' ts ts') :
    Agree (Respaced source source') (takeWords clause words ts) (takeWords clause words ts') := by
  induction words generalizing ts ts' with
  | nil => exact .ok h
  | cons word words ih =>
    apply (takeWord_agree clause word h).bind
    intro rest rest' hrest
    exact ih hrest

/-- Tokens with the same text end with a mark both or neither. -/
theorem strip?_alike (mark : Char) {t t' : Token} (htext : t.text = t'.text) :
    Option.Rel (fun word word' : Token => word.text = word'.text) (t.strip? mark)
      (t'.strip? mark) := by
  have hchars : t.chars = t'.chars := congrArg String.toList htext
  rw [Token.strip?, Token.strip?, hchars]
  split
  · exact .some rfl
  · exact .none

/-- The dataset clause is the same in respaced texts. -/
theorem datasetClause_agree (h : Respaced source source' ts ts') :
    Agree (Leaving source source' (· = ·)) (datasetClause ts) (datasetClause ts') := by
  apply (takeWords_agree .dataset ["In", "courses", "dataset"] h).bind
  intro later later' hlater
  rcases hlater.nil_or_cons with ⟨rfl, rfl⟩ | ⟨t, rest, t', rest', rfl, rfl, htext, hrest⟩
  · exact .error _
  · have hstrip := strip?_alike ',' htext
    dsimp only
    generalize t.strip? ',' = stripped at hstrip ⊢
    generalize t'.strip? ',' = stripped' at hstrip ⊢
    cases hstrip with
    | none =>
      rw [htext]
      exact .error _
    | some hid =>
      simp only [hid]
      split
      · exact .error _
      · exact .ok ⟨rfl, hrest⟩

/-- The filter is cut off at the same word. -/
theorem filterTokens_agree (inLiteral : Bool) (h : Respaced source source' ts ts') :
    Agree (Leaving source source' fun a b => a.map Token.text = b.map Token.text)
      (filterTokens inLiteral ts) (filterTokens inLiteral ts') := by
  induction h using Respaced.induction generalizing inLiteral with
  | nil => exact .error _
  | @cons t t' rest rest' htext hrest _ ih =>
    have hchars : t.chars = t'.chars := congrArg String.toList htext
    rw [filterTokens, filterTokens, ← hchars]
    dsimp only
    generalize (inLiteral != (Literal.unescapedQuotes t.chars % 2 == 1)) = inside
    have hstrip : Option.Rel (fun word word' : Token => word.text = word'.text)
        (if inside then none else t.strip? ';') (if inside then none else t'.strip? ';') := by
      cases inside with
      | true => exact .none
      | false => exact strip?_alike ';' htext
    generalize (if inside then none else t.strip? ';') = stripped at hstrip ⊢
    generalize (if inside then none else t'.strip? ';') = stripped' at hstrip ⊢
    cases hstrip with
    | none =>
      apply (ih inside).bind
      rintro ⟨taken, later⟩ ⟨taken', later'⟩ ⟨htaken, hlater⟩
      exact .ok ⟨congrArg₂ List.cons htext htaken, hlater⟩
    | some hlast =>
      refine .ok ⟨?_, hrest⟩
      rw [← hlast]
      split
      · rfl
      · exact congrArg (fun text => [text]) hlast

/-- The tokens of a filter are those of a part of the sentence, without the `;` that ends it. -/
theorem exists_within_of_filterTokens {inLiteral : Bool} {taken : List Token}
    (h : ∃ e s, Within source e s ∧ ts = tokensTo e s)
    (htokens : filterTokens inLiteral ts = .ok (taken, ts')) :
    ∃ e s, Within source e s ∧ taken = tokensTo e s := by
  obtain ⟨e, s, hs, rfl⟩ := h
  obtain ⟨s₁, s₂, rfl, -, htaken, -⟩ := eq_of_filterTokens hs.size_le htokens
  exact ⟨_, s₁, hs.of_append, htaken⟩

/-- The tokens of the filter are respaced, and what is left is as well. -/
theorem filterTokens_respaced (inLiteral : Bool) (h : Respaced source source' ts ts') :
    Agree (Leaving source source' (Respaced source source'))
      (filterTokens inLiteral ts) (filterTokens inLiteral ts') := by
  apply (filterTokens_agree inLiteral h).imp
  rintro ⟨taken, rest⟩ ⟨taken', rest'⟩ htaken htaken' ⟨htexts, hrest⟩
  have hleft := exists_within_of_filterTokens h.left htaken
  have hright := exists_within_of_filterTokens h.right htaken'
  exact ⟨⟨hleft, hright, htexts⟩, hrest⟩

/-- The filter clause is the same in respaced texts, up to blanks in its literals. -/
theorem filterClause_agree (h : Respaced source source' ts ts') :
    Agree (Leaving source source' fun e e' : Filter => e.collapsed = e'.collapsed)
      (filterClause source ts) (filterClause source' ts') := by
  apply (takeWord_agree .filter "find" h).bind
  intro found found' hfound
  dsimp only
  rw [← hfound.firstText]
  split
  · apply (takeWord_agree .filter "entries;" hfound.drop_one).bind
    intro rest rest' hrest
    exact .ok ⟨rfl, hrest⟩
  · split
    · apply (takeWord_agree .filter "whose" hfound.drop_one).bind
      intro later later' hlater
      apply (filterTokens_respaced false hlater).bind
      rintro ⟨taken, rest⟩ ⟨taken', rest'⟩ ⟨htaken, hrest⟩
      apply (FilterClause.filter_agree htaken).bind
      intro e e' he
      exact .ok ⟨he, hrest⟩
    · exact .error _

/-- Tokens with the same text end with the same mark behind the same word. -/
theorem splitMark_alike {t t' word word' : Token} {mark mark' : Option Char}
    (htext : t.text = t'.text) (h : t.splitMark = (word, mark))
    (h' : t'.splitMark = (word', mark')) : word.text = word'.text ∧ mark = mark' := by
  have hchars : t.chars = t'.chars := congrArg String.toList htext
  cases mark with
  | none =>
    obtain ⟨rfl, hends⟩ := eq_of_splitMark_none h
    cases mark' with
    | none =>
      obtain ⟨rfl, -⟩ := eq_of_splitMark_none h'
      exact ⟨htext, rfl⟩
    | some mark' =>
      obtain ⟨hmark', hword'⟩ := chars_of_splitMark h'
      exact absurd (hchars.trans hword') (hends mark' hmark' _)
  | some mark =>
    obtain ⟨hmark, hword⟩ := chars_of_splitMark h
    cases mark' with
    | none =>
      obtain ⟨rfl, hends⟩ := eq_of_splitMark_none h'
      exact absurd (hchars.symm.trans hword) (hends mark hmark _)
    | some mark' =>
      obtain ⟨-, hword'⟩ := chars_of_splitMark h'
      obtain ⟨hsame, hmarks⟩ := List.append_inj' (hword.symm.trans (hchars.trans hword')) rfl
      exact ⟨String.toList_inj.1 hsame, congrArg some (List.singleton_inj.1 hmarks)⟩

/-- The shown fields are the same in respaced texts. -/
theorem displayFields_agree (first sawAnd : Bool) (h : Respaced source source' ts ts') :
    Agree (Leaving source source' (· = ·)) (displayFields first sawAnd ts)
      (displayFields first sawAnd ts') := by
  induction h using Respaced.induction generalizing first sawAnd with
  | nil => exact .error _
  | @cons t t' rest rest' htext hrest _ ih =>
    rw [displayFields, displayFields, ← htext]
    split
    · split
      · exact .error _
      · exact ih first true
    · cases hsplit : t.splitMark with
      | mk word mark =>
        cases hsplit' : t'.splitMark with
        | mk word' mark' =>
          obtain ⟨hword, rfl⟩ := splitMark_alike htext hsplit hsplit'
          dsimp only
          rw [← hword]
          apply Agree.bind_same (fieldOf .display word.text)
          intro field
          split
          · apply (ih false false).bind
            rintro ⟨⟨fields, order⟩, later⟩ ⟨_, later'⟩ ⟨rfl, hlater⟩
            exact .ok ⟨rfl, hlater⟩
          · split
            · exact .ok ⟨rfl, hrest⟩
            · exact .error _
          · rw [← hrest.isEmpty, ← hrest.firstText]
            split
            · exact .error _
            · exact .error _

/-- The display clause is the same in respaced texts. -/
theorem displayClause_agree (h : Respaced source source' ts ts') :
    Agree (Leaving source source' (· = ·)) (displayClause ts) (displayClause ts') := by
  apply (takeWord_agree .display "show" h).bind
  intro rest rest' hrest
  exact displayFields_agree true false hrest

/-- The order clause is the same in respaced texts. -/
theorem orderClause_agree (h : Respaced source source' ts ts') :
    Agree (Leaving source source' (· = ·)) (orderClause ts) (orderClause ts') := by
  apply (takeWords_agree .order ["sort", "in", "ascending", "order", "by"] h).bind
  intro later later' hlater
  rcases hlater.nil_or_cons with ⟨rfl, rfl⟩ | ⟨t, rest, t', rest', rfl, rfl, htext, hrest⟩
  · exact .error _
  · cases hsplit : t.splitMark with
    | mk word mark =>
      cases hsplit' : t'.splitMark with
      | mk word' mark' =>
        obtain ⟨hword, rfl⟩ := splitMark_alike htext hsplit hsplit'
        simp only [hsplit, hsplit']
        rw [← hword, ← htext, ← hrest.isEmpty]
        apply Agree.bind_same (fieldOf .order word.text)
        intro field
        split
        · exact .ok ⟨rfl, hrest⟩
        · split
          · exact .error _
          · exact .error _

/-- The sort clause is the same in respaced texts. -/
theorem sortClause_agree (order : Bool) (h : Respaced source source' ts ts') :
    Agree (Leaving source source' (· = ·)) (sortClause order ts) (sortClause order ts') := by
  unfold sortClause
  split
  · apply (orderClause_agree h).map
    rintro ⟨field, rest⟩ ⟨_, rest'⟩ ⟨rfl, hrest⟩
    exact ⟨rfl, hrest⟩
  · exact .ok ⟨rfl, h⟩

/-- Respaced texts end alike. -/
theorem terminator_agree (h : Respaced source source' ts ts') :
    Agree (· = ·) (terminator ts) (terminator ts') := by
  rcases h.nil_or_cons with ⟨rfl, rfl⟩ | ⟨t, rest, t', rest', rfl, rfl, htext, -⟩
  · exact .ok rfl
  · rw [terminator, terminator, htext]
    exact .error _

end Sentence

/-! ## The query in two spacings -/

/-- Queries that are the same with the runs of blanks of their literals collapsed. -/
structure Query.SameWords (q q' : Query) : Prop where
  dataset : q.dataset = q'.dataset
  display : q.display = q'.display
  sort : q.sort = q'.sort
  filter : q.filter.collapsed = q'.filter.collapsed

namespace Sentence

open Text.Utf8 (size)

variable {source source' : String}

/-- From parts that are the same up to blanks in literals queries are made that are so too. -/
theorem ofParts_agree (dataset : String) (display : List Field) (sort : Option Field)
    {e e' : Filter} (he : e.collapsed = e'.collapsed) :
    Agree Query.SameWords
      ((Query.ofParts dataset e display sort).mapError Rejection.ofQueryFault)
      ((Query.ofParts dataset e' display sort).mapError Rejection.ofQueryFault) := by
  unfold Query.ofParts
  split
  · exact .error _
  · cases sort with
    | none => exact .ok ⟨rfl, rfl, rfl, he⟩
    | some field =>
      dsimp only
      split
      · exact .ok ⟨rfl, rfl, rfl, he⟩
      · exact .error _

/-- Texts whose tokens spell the same are respaced. -/
theorem respaced_tokenize
    (htexts : (tokenize source).map Token.text = (tokenize source').map Token.text) :
    Respaced source source' (tokenize source) (tokenize source') :=
  ⟨⟨_, _, within_source source, tokenize_eq source⟩,
    ⟨_, _, within_source source', tokenize_eq source'⟩, htexts⟩

/-- Respaced sentences are read alike, up to blanks in their literals. -/
theorem read_agree
    (htexts : (tokenize source).map Token.text = (tokenize source').map Token.text) :
    Agree Query.SameWords (read source) (read source') := by
  rw [read_eq, read_eq]
  apply (datasetClause_agree (respaced_tokenize htexts)).bind
  rintro ⟨dataset, ts₁⟩ ⟨_, ts₁'⟩ ⟨rfl, h₁⟩
  apply (filterClause_agree h₁).bind
  rintro ⟨e, ts₂⟩ ⟨e', ts₂'⟩ ⟨he, h₂⟩
  apply (displayClause_agree h₂).bind
  rintro ⟨⟨display, order⟩, ts₃⟩ ⟨_, ts₃'⟩ ⟨rfl, h₃⟩
  apply (sortClause_agree order h₃).bind
  rintro ⟨sort, ts₄⟩ ⟨_, ts₄'⟩ ⟨rfl, h₄⟩
  apply (terminator_agree h₄).bind
  intro _ _ _
  exact ofParts_agree dataset display sort he

/-! ## Literals of one word -/

/-- A text without blanks. -/
def Unspaced (s : List Char) : Prop :=
  ∀ c ∈ s, Text.isBlank c = false

/-- A text has no blank if its first character is none and the rest has none. -/
theorem unspaced_cons {c : Char} {s : List Char} :
    Unspaced (c :: s) ↔ Text.isBlank c = false ∧ Unspaced s :=
  List.forall_mem_cons

/-- Two texts have no blank if neither has one. -/
theorem unspaced_append {s t : List Char} : Unspaced (s ++ t) ↔ Unspaced s ∧ Unspaced t :=
  List.forall_mem_append

/-- The tokens of a text are words. -/
theorem unspaced_of_mem_tokensTo {e : Nat} {s : List Char} {t : Token} (hs : size s ≤ e)
    (ht : t ∈ tokensTo e s) : Unspaced t.chars := by
  generalize hts : tokensTo e s = ts at ht
  induction ts generalizing s with
  | nil => contradiction
  | cons first ts ih =>
    obtain ⟨w, rest, hword, htext, hrest⟩ := tokensTo_eq_cons hs hts
    rcases List.mem_cons.1 ht with rfl | ht
    · obtain ⟨gap, -, -, hw, -⟩ := word?_eq_some_iff.1 hword
      rw [Token.chars, htext, String.toList_ofList]
      exact hw.2
    · exact ih (word?_size_le hword hs) hrest.symm ht

end Sentence

open Sentence

/-- The literal of the condition has no blank in it. -/
def Condition.Unspaced : Condition → Prop
  | .number .. => True
  | .text _ _ literal => Sentence.Unspaced literal.toList

/-- A condition without blanks in its literal is told from its collapsed form. -/
theorem Condition.eq_of_collapsed {c d : Condition} (h : c.collapsed = d.collapsed)
    (hc : c.Unspaced) : c = d := by
  cases c with
  | number relation negated bound =>
    cases d with
    | number => exact h
    | text => contradiction
  | text relation negated literal =>
    cases d with
    | number => contradiction
    | text relation' negated' literal' =>
      obtain ⟨rfl, rfl, hliteral⟩ := Condition.text.inj h
      rw [Text.eq_of_collapse hliteral hc]

/-- A predicate without blanks in its literal is told from its collapsed form. -/
theorem Predicate.eq_of_collapsed {p q : Predicate} (h : p.collapsed = q.collapsed)
    (hp : p.condition.Unspaced) : p = q := by
  obtain ⟨field, condition⟩ := p
  obtain ⟨field', condition'⟩ := q
  obtain ⟨rfl, hcondition⟩ := Predicate.mk.inj h
  exact congrArg (Predicate.mk field) (Condition.eq_of_collapsed hcondition hp)

/-- Filters that differ in the blanks of their literals are the same if one of them has none. -/
theorem Filter.eq_of_collapsed {e e' : Filter} (h : e.collapsed = e'.collapsed)
    (he : ∀ p ∈ e.predicates, p.condition.Unspaced) : e = e' := by
  induction e generalizing e' with
  | everything =>
    cases e' with
    | everything => rfl
    | _ => contradiction
  | atom p =>
    cases e' with
    | atom q =>
      have hp := he p (List.mem_singleton.2 rfl)
      rw [Predicate.eq_of_collapsed (Filter.atom.inj h) hp]
    | _ => contradiction
  | and a b iha ihb =>
    cases e' with
    | and a' b' =>
      obtain ⟨ha, hb⟩ := Filter.and.inj h
      rw [iha ha fun p hp => he p (List.mem_append_left _ hp),
        ihb hb fun p hp => he p (List.mem_append_right _ hp)]
    | _ => contradiction
  | or a b iha ihb =>
    cases e' with
    | or a' b' =>
      obtain ⟨ha, hb⟩ := Filter.or.inj h
      rw [iha ha fun p hp => he p (List.mem_append_left _ hp),
        ihb hb fun p hp => he p (List.mem_append_right _ hp)]
    | _ => contradiction

namespace Sentence

variable {source source' : String}

/-- A literal that is spelled without blanks has none. -/
theorem Body.unspaced {body text : List Char} (h : Body body text) (hbody : Unspaced body) :
    Unspaced text := by
  induction h with
  | nil => exact hbody
  | escaped _ _ ih =>
    obtain ⟨-, hbody⟩ := unspaced_cons.1 hbody
    obtain ⟨hc, hbody⟩ := unspaced_cons.1 hbody
    exact unspaced_cons.2 ⟨hc, ih hbody⟩
  | kept _ _ ih =>
    obtain ⟨hslash, hbody⟩ := unspaced_cons.1 hbody
    obtain ⟨hc, hbody⟩ := unspaced_cons.1 hbody
    exact unspaced_cons.2 ⟨hslash, unspaced_cons.2 ⟨hc, ih hbody⟩⟩
  | plain _ _ _ _ ih =>
    obtain ⟨hc, hbody⟩ := unspaced_cons.1 hbody
    exact unspaced_cons.2 ⟨hc, ih hbody⟩

/-- A predicate whose lexemes have no blanks has none in its literal. -/
theorem States.unspaced {p : Predicate} {ls : List (List Char)} (h : States p ls)
    (hls : ∀ l ∈ ls, Unspaced l) : p.condition.Unspaced := by
  obtain ⟨field, hcomparison⟩ := h
  obtain ⟨-, hls⟩ := List.forall_mem_cons.1 hls
  generalize field.kind = kind at hcomparison
  cases hcomparison with
  | number => trivial
  | @text relation negated body text hbody =>
    obtain ⟨-, hquoted⟩ := List.forall_mem_append.1 hls
    obtain ⟨-, hquoted⟩ := unspaced_cons.1 (hquoted _ (List.mem_singleton.2 rfl))
    have htext := hbody.unspaced (unspaced_append.1 hquoted).1
    rwa [Condition.Unspaced, String.toList_ofList]

/-- Conditions whose lexemes have no blanks have none in their literals. -/
theorem Conditions.unspaced {gs : List (List Predicate)} {ls : List (List Char)}
    (h : Conditions gs ls) (hls : ∀ l ∈ ls, Unspaced l) :
    ∀ p ∈ gs.flatten, p.condition.Unspaced := by
  induction h with
  | atom hatom =>
    intro p hp
    obtain rfl := List.mem_singleton.1 hp
    exact hatom.unspaced hls
  | and hatom _ ih =>
    obtain ⟨hfirst, hmore⟩ := List.forall_mem_append.1 hls
    exact List.forall_mem_cons.2
      ⟨hatom.unspaced hfirst, ih (List.forall_mem_cons.1 hmore).2⟩
  | or hatom _ ih =>
    obtain ⟨hfirst, hmore⟩ := List.forall_mem_append.1 hls
    exact List.forall_mem_cons.2
      ⟨hatom.unspaced hfirst, ih (List.forall_mem_cons.1 hmore).2⟩

/-- A filter whose lexemes have no blanks has none in its literals. -/
theorem Finds.unspaced {e : Filter} {ls : List (List Char)} (h : Finds e ls)
    (hls : ∀ l ∈ ls, Unspaced l) : ∀ p ∈ e.predicates, p.condition.Unspaced := by
  cases h with
  | everything => exact List.forall_mem_nil _
  | conditions hconditions hclosed =>
    obtain ⟨-, hls⟩ := List.forall_mem_append.1 hls
    rw [Filter.predicates_ofGroups]
    apply hconditions.unspaced
    cases hclosed with
    | alone lexemes => exact (List.forall_mem_append.1 hls).1
    | attached lexemes last =>
      obtain ⟨hfront, hlast⟩ := List.forall_mem_append.1 hls
      have hlast := unspaced_append.1 (hlast _ (List.mem_singleton.2 rfl))
      intro l hl
      rcases List.mem_append.1 hl with hl | hl
      · exact hfront l hl
      · rw [List.mem_singleton.1 hl]
        exact hlast.1

/-- Each lexeme of the filter of a query is one token of the sentence, the literals too. -/
def FilterInTokens (source : String) (q : Query) : Prop :=
  ∃ finds, Finds q.filter finds ∧
    wordsOf "In courses dataset" ++ [q.dataset.toList ++ [',']] ++ finds <+:
      (tokenize source).map Token.chars

/-- A query whose filter stands in whole tokens has no blanks in its literals. -/
theorem FilterInTokens.unspaced {q : Query} (h : FilterInTokens source q) :
    ∀ p ∈ q.filter.predicates, p.condition.Unspaced := by
  obtain ⟨finds, hfinds, hfront⟩ := h
  apply hfinds.unspaced
  intro l hl
  obtain ⟨t, ht, rfl⟩ := List.mem_map.1 (hfront.subset (List.mem_append_right _ hl))
  rw [tokenize_eq] at ht
  exact unspaced_of_mem_tokensTo (Nat.le_refl _) ht

/-- Sentences with the same words are both rejected for the same reason or both accepted. Their
queries differ at most in the runs of blanks inside literals, and are the same if each literal is a
single token. -/
theorem read_same_words
    (htexts : (tokenize source).map Token.text = (tokenize source').map Token.text) :
    (∃ r, read source = .error r ∧ read source' = .error r) ∨
      ∃ q q', read source = .ok q ∧ read source' = .ok q' ∧ q.SameWords q' ∧
        (FilterInTokens source q → q = q') := by
  have hagree := read_agree htexts
  cases hread : read source with
  | error r =>
    rw [hread] at hagree
    generalize read source' = read' at hagree
    cases hagree
    exact .inl ⟨r, rfl, rfl⟩
  | ok q =>
    rw [hread] at hagree
    generalize read source' = read' at hagree
    cases hagree with
    | @ok _ q' hsame =>
      refine .inr ⟨q, q', rfl, rfl, hsame, ?_⟩
      intro hwords
      have hfilter := Filter.eq_of_collapsed hsame.filter hwords.unspaced
      obtain ⟨dataset, filter, display, sort⟩ := q
      obtain ⟨dataset', filter', display', sort'⟩ := q'
      obtain ⟨rfl, rfl, rfl, -⟩ := hsame
      dsimp only at hfilter
      subst hfilter
      rfl

/-- A sentence with a literal of one word. -/
def spacedSentence : String :=
  "In courses dataset abc, find entries whose Title is \"a\\\"b\"; show Title, and Audit."

/-- The same words with other blanks. -/
def spreadSentence : String :=
  " In courses\tdataset abc,\nfind entries whose  Title is \"a\\\"b\"; show\n Title,  and Audit.\n"

/-- The query that both ask. -/
def spacedQuery : Query where
  dataset := "abc"
  filter := .atom ⟨.title, .text .is false "a\"b"⟩
  display := [.title, .audit]
  sort := none
  display_ne_nil := by decide
  display_ordered := by decide
  sort_mem := by simp

/-- A sentence that is spread over lines is read as its query. -/
theorem read_spreadSentence : read spreadSentence = .ok spacedQuery := by
  have htexts : (tokenize spacedSentence).map Token.text =
      (tokenize spreadSentence).map Token.text := by decide +kernel
  have hread : read spacedSentence = .ok spacedQuery := eq_ok_of_toOption (by decide +kernel)
  have hbody : Body "a\\\"b".toList "a\"b".toList := by
    apply Body.plain (by decide) (by decide) (by decide)
    apply Body.escaped (.inl rfl)
    exact .plain (by decide) (by decide) (by decide) .nil
  have hconditions : Conditions [[⟨.title, .text .is false "a\"b"⟩]]
      (["Title".toList, "is".toList] ++ [quoted "a\\\"b".toList]) :=
    .atom (.mk .title (.text .is false hbody))
  have htokens : FilterInTokens spacedSentence spacedQuery :=
    ⟨_, .conditions hconditions (.attached _ _), by decide +kernel⟩
  rcases read_same_words htexts with ⟨r, herror, -⟩ | ⟨q, q', hq, hq', -, hsame⟩
  · rw [hread] at herror
    contradiction
  · obtain rfl := Except.ok.inj (hread.symm.trans hq)
    rw [hq', ← hsame htokens]

end Sentence

end CourseQuery
