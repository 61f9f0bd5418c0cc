import CourseQuery.Proofs.Filter.Groups
import CourseQuery.Proofs.Sentence.Collapse
import CourseQuery.Proofs.Sentence.FilterReading

/-!
# A filter in two spacings

Two sentences with the same words differ only in the blanks between them. Each reader of a filter
clause does the same on both: `Agree` says that it rejects both in the same way or accepts both and
leaves tokens that are `Respaced` again. Only a literal looks at more than the words, since its body
is cut out of the sentence with its blanks; the texts of two literals are the same once their runs
of blanks are collapsed.
-/

set_option autoImplicit false

namespace CourseQuery

/-! ## Steps that agree -/

/-- Two steps fail in the same way, or succeed with results of which a relation holds. -/
inductive Agree {α β : Type} (R : α → β → Prop) : Except Rejection α → Except Rejection β → Prop
  | error (r : Rejection) : Agree R (.error r) (.error r)
  | ok {a : α} {b : β} : R a b → Agree R (.ok a) (.ok b)

namespace Agree

variable {α β γ δ : Type} {R : α → β → Prop} {S : γ → δ → Prop} {x : Except Rejection α}
  {y : Except Rejection β}

/-- Two readers agree if their first steps do and the second ones do on what these give. -/
theorem bind {f : α → Except Rejection γ} {g : β → Except Rejection δ} (h : Agree R x y)
    (hfg : ∀ a b, R a b → Agree S (f a) (g b)) : Agree S (x >>= f) (y >>= g) := by
  cases h with
  | error r => exact .error r
  | ok hab => exact hfg _ _ hab

/-- Two readers with the same first step agree if the second ones do. -/
theorem bind_same (x : Except Rejection α) {f : α → Except Rejection γ}
    {g : α → Except Rejection δ} (hfg : ∀ a, Agree S (f a) (g a)) :
    Agree S (x >>= f) (x >>= g) := by
  cases x with
  | error r => exact .error r
  | ok a => exact hfg a

/-- What is done alike with results that agree keeps them so. -/
theorem map {f : α → γ} {g : β → δ} (h : Agree R x y) (hfg : ∀ a b, R a b → S (f a) (g b)) :
    Agree S (x.map f) (y.map g) := by
  cases h with
  | error r => exact .error r
  | ok hab => exact .ok (hfg _ _ hab)

/-- Results that agree may be described more widely. -/
theorem imp {R' : α → β → Prop} (h : Agree R x y)
    (hR : ∀ a b, x = .ok a → y = .ok b → R a b → R' a b) : Agree R' x y := by
  cases h with
  | error r => exact .error r
  | ok hab => exact .ok (hR _ _ rfl rfl hab)

end Agree

namespace Sentence

open Text (collapseFrom collapseFrom_boundary collapseFrom_word_append)
open Text.Utf8 (size size_append)
open FilterClause (closing? closing?_cons)

variable {source source' : String} {ts ts' : List Token}

/-- The tokens of parts of two sentences, with the same words. -/
structure Respaced (source source' : String) (ts ts' : List Token) : Prop where
  left : ∃ e s, Within source e s ∧ ts = tokensTo e s
  right : ∃ e s, Within source' e s ∧ ts' = tokensTo e s
  texts : ts.map Token.text = ts'.map Token.text

/-- Results of readers with respaced tokens left. -/
def Leaving {α β : Type} (source source' : String) (R : α → β → Prop) (a : α × List Token)
    (b : β × List Token) : Prop :=
  R a.1 b.1 ∧ Respaced source source' a.2 b.2

/-- The first token is the first word of the text. -/
theorem tokensTo_eq_cons {e : Nat} {s : List Char} {t : Token} (hs : size s ≤ e)
    (h : tokensTo e s = t :: ts) :
    ∃ w rest, word? s = some (w, rest) ∧ t.text = String.ofList w ∧ ts = tokensTo e rest := by
  cases hword : word? s with
  | none =>
    rw [tokensTo_none hword] at h
    contradiction
  | some found =>
    obtain ⟨w, rest⟩ := found
    rw [tokensTo_some hs hword] at h
    obtain ⟨rfl, rfl⟩ := List.cons.inj h
    exact ⟨w, rest, rfl, rfl, rfl⟩

/-- Respaced tokens are used up at the same time, and otherwise begin with the same word. -/
theorem Respaced.nil_or_cons (h : Respaced source source' ts ts') :
    (ts = [] ∧ ts' = []) ∨
      ∃ t rest t' rest', ts = t :: rest ∧ ts' = t' :: rest' ∧ t.text = t'.text ∧
        Respaced source source' rest rest' := by
  obtain ⟨⟨e, s, hs, hts⟩, ⟨e', s', hs', hts'⟩, htexts⟩ := h
  cases ts with
  | nil => exact .inl ⟨rfl, List.map_eq_nil_iff.1 htexts.symm⟩
  | cons t rest =>
    obtain ⟨t', rest', rfl, htext, hrest⟩ := List.map_eq_cons_iff.1 htexts.symm
    obtain ⟨w, mid, hword, -, hmid⟩ := tokensTo_eq_cons hs.size_le hts.symm
    obtain ⟨w', mid', hword', -, hmid'⟩ := tokensTo_eq_cons hs'.size_le hts'.symm
    exact .inr ⟨t, rest, t', rest', rfl, rfl, htext.symm, ⟨e, mid, hs.of_word? hword, hmid⟩,
      ⟨e', mid', hs'.of_word? hword', hmid'⟩, hrest.symm⟩

/-- Without their first tokens respaced texts are respaced. -/
theorem Respaced.drop_one (h : Respaced source source' ts ts') :
    Respaced source source' (ts.drop 1) (ts'.drop 1) := by
  rcases h.nil_or_cons with ⟨rfl, rfl⟩ | ⟨t, rest, t', rest', rfl, rfl, -, hrest⟩
  · exact h
  · exact hrest

/-- The first tokens of respaced texts spell the same. -/
theorem Respaced.firstText (h : Respaced source source' ts ts') :
    FilterClause.firstText ts = FilterClause.firstText ts' := by
  rcases h.nil_or_cons with ⟨rfl, rfl⟩ | ⟨t, rest, t', rest', rfl, rfl, htext, -⟩
  · rfl
  · exact congrArg some htext

/-- What holds of no tokens and is kept by a word in front holds of all respaced tokens. -/
@[elab_as_elim]
theorem Respaced.induction
    {motive : (ts ts' : List Token) → Respaced source source' ts ts' → Prop}
    (nil : ∀ h, motive [] [] h)
    (cons : ∀ {t t' : Token} {rest rest' : List Token} (_ : t.text = t'.text)
      (hrest : Respaced source source' rest rest') (h), motive rest rest' hrest →
        motive (t :: rest) (t' :: rest') h)
    (h : Respaced source source' ts ts') : motive ts ts' h := by
  induction ts generalizing ts' with
  | nil =>
    rcases h.nil_or_cons with ⟨-, rfl⟩ | ⟨t, rest, t', rest', hcons, -⟩
    · exact nil h
    · contradiction
  | cons t ts ih =>
    rcases h.nil_or_cons with ⟨hnil, -⟩ | ⟨u, rest, t', rest', hcons, rfl, htext, hrest⟩
    · contradiction
    · obtain ⟨rfl, rfl⟩ := List.cons.inj hcons
      exact cons htext hrest h (ih hrest)

/-- Respaced texts come to an end together. -/
theorem Respaced.isEmpty (h : Respaced source source' ts ts') : ts.isEmpty = ts'.isEmpty := by
  rcases h.nil_or_cons with ⟨rfl, rfl⟩ | ⟨t, rest, t', rest', rfl, rfl, -, -⟩
  · rfl
  · rfl

/-! ## The end of a literal -/

/-- Two texts are closed by a quote at the same word or never, and the bodies before the quote
differ in their blanks only; `inGap` says that a blank stands before both. -/
inductive ClosedAlike (inGap : Bool) (e e' : Nat) (s s' : List Char) : Prop
  | never : closing? (tokensTo e s) = none → closing? (tokensTo e' s') = none →
    ClosedAlike inGap e e' s s'
  | quote {body rest body' rest' : List Char} :
    s = body ++ '"' :: rest → s' = body' ++ '"' :: rest' →
    closing? (tokensTo e s) = some (e - size rest, tokensTo e rest) →
    closing? (tokensTo e' s') = some (e' - size rest', tokensTo e' rest') →
    (tokensTo e rest).map Token.text = (tokensTo e' rest').map Token.text →
    collapseFrom inGap body = collapseFrom inGap body' →
    ClosedAlike inGap e e' s s'

section Closing

variable {e e' : Nat} {s s' gap gap' w rest rest' : List Char} {inGap : Bool}

/-- The words of a text are closed by its first word or by those behind it. -/
theorem closing?_word (hs : size (gap ++ (w ++ rest)) ≤ e) (hgap : Gap gap) (hw : IsWord w)
    (hrest : Boundary rest) :
    closing? (tokensTo e (gap ++ (w ++ rest))) =
      if Literal.closes w then some (e - size rest, tokensTo e rest)
      else closing? (tokensTo e rest) := by
  rw [tokensTo_word hs hgap hw hrest, closing?_cons, Token.chars,
    String.toList_ofList]

/-- A body that follows a word begins with a blank. -/
theorem collapseFrom_body (h : Boundary (s ++ '"' :: rest)) :
    collapseFrom false s = ' ' :: collapseFrom true s := by
  apply collapseFrom_boundary h.of_append
  rintro rfl
  exact absurd (boundary_cons.1 h) (by decide)

/-- A word in front of two texts leaves them closed alike. -/
theorem ClosedAlike.word (h : ClosedAlike true e e' rest rest')
    (hs : size (gap ++ (w ++ rest)) ≤ e) (hs' : size (gap' ++ (w ++ rest')) ≤ e')
    (htexts : (tokensTo e rest).map Token.text = (tokensTo e' rest').map Token.text)
    (hgap : Gap gap) (hgap' : Gap gap') (hw : IsWord w) (hrest : Boundary rest)
    (hrest' : Boundary rest')
    (hskip : ∀ x, collapseFrom inGap (gap ++ x) = collapseFrom inGap x)
    (hskip' : ∀ x, collapseFrom inGap (gap' ++ x) = collapseFrom inGap x) :
    ClosedAlike inGap e e' (gap ++ (w ++ rest)) (gap' ++ (w ++ rest')) := by
  have hclosing := closing?_word hs hgap hw hrest
  have hclosing' := closing?_word hs' hgap' hw hrest'
  cases hcloses : Literal.closes w with
  | true =>
    rw [hcloses, if_pos rfl] at hclosing hclosing'
    obtain ⟨front, rfl, -⟩ := Literal.closes_iff.1 hcloses
    have hbody : ∀ gap later : List Char,
        gap ++ (front ++ ['"'] ++ later) = (gap ++ front) ++ '"' :: later := by
      intro gap later
      simp
    exact .quote (hbody gap rest) (hbody gap' rest') hclosing hclosing' htexts
      ((hskip front).trans (hskip' front).symm)
  | false =>
    rw [hcloses, if_neg Bool.false_ne_true] at hclosing hclosing'
    cases h with
    | never hnone hnone' => exact .never (hclosing.trans hnone) (hclosing'.trans hnone')
    | @quote body later body' later' heq heq' hsome hsome' hlater hbodies =>
      subst heq heq'
      have hbody : ∀ gap body later : List Char,
          gap ++ (w ++ (body ++ '"' :: later)) = (gap ++ (w ++ body)) ++ '"' :: later := by
        intro gap body later
        simp
      refine .quote (hbody gap body later) (hbody gap' body' later') (hclosing.trans hsome)
        (hclosing'.trans hsome') hlater ?_
      rw [hskip, hskip', collapseFrom_word_append hw.2 hw.1, collapseFrom_word_append hw.2 hw.1,
        collapseFrom_body hrest, collapseFrom_body hrest', hbodies]

/-- Texts with the same words are closed alike. -/
theorem closedAlike (hs : size s ≤ e) (hs' : size s' ≤ e')
    (htexts : (tokensTo e s).map Token.text = (tokensTo e' s').map Token.text) :
    ClosedAlike true e e' s s' := by
  induction s using words_induction generalizing s' with
  | gap s hgap =>
    rw [tokensTo_gap hgap, List.map_nil, eq_comm, List.map_eq_nil_iff] at htexts
    refine .never ?_ ?_
    · rw [tokensTo_gap hgap]
      rfl
    · rw [htexts]
      rfl
  | word gap w rest hgap hw hboundary ih =>
    have hrest := word?_size_le (word?_gap_append hgap hw hboundary) hs
    rw [tokensTo_word hs hgap hw hboundary, List.map_cons, eq_comm] at htexts
    obtain ⟨t', ts', hts', htext, hlater⟩ := List.map_eq_cons_iff.1 htexts
    obtain ⟨w', rest', hword', hw', rfl⟩ := tokensTo_eq_cons hs' hts'
    obtain rfl : w' = w := String.ofList_injective (hw'.symm.trans htext)
    have hrest' := word?_size_le hword' hs'
    have halike := ih hrest hrest' hlater.symm
    obtain ⟨gap', rfl, hgap', -, hboundary'⟩ := word?_eq_some_iff.1 hword'
    exact halike.word hs hs' hlater.symm hgap hgap' hw hboundary hboundary'
      (fun _ => Text.collapseFrom_gap_append hgap) fun _ => Text.collapseFrom_gap_append hgap'

/-- Texts that begin with the rest of a word and go on with the same words are closed alike. -/
theorem closedAlike_front (hs : size (w ++ rest) ≤ e) (hs' : size (w ++ rest') ≤ e')
    (htexts : (tokensTo e rest).map Token.text = (tokensTo e' rest').map Token.text)
    (hw : ∀ c ∈ w, Text.isBlank c = false) (hrest : Boundary rest) (hrest' : Boundary rest') :
    ClosedAlike false e e' (w ++ rest) (w ++ rest') := by
  have hsize : size rest ≤ e := by
    rw [size_append] at hs
    omega
  have hsize' : size rest' ≤ e' := by
    rw [size_append] at hs'
    omega
  have halike := closedAlike hsize hsize' htexts
  by_cases hne : w = []
  · subst hne
    cases halike with
    | never hnone hnone' => exact .never hnone hnone'
    | @quote body later body' later' heq heq' hsome hsome' hlater hbodies =>
      refine .quote heq heq' hsome hsome' hlater ?_
      rw [collapseFrom_body (heq ▸ hrest), collapseFrom_body (heq' ▸ hrest'), hbodies]
  · have hword : ClosedAlike false e e' ([] ++ (w ++ rest)) ([] ++ (w ++ rest')) :=
      halike.word hs hs' htexts gap_nil gap_nil ⟨hne, hw⟩ hrest hrest' (fun _ => rfl) fun _ => rfl
    exact hword

end Closing

end Sentence

/-! ## Literals -/

namespace FilterClause

open Sentence

variable {source source' : String} {ts ts' : List Token}

/-- Behind a quote, two literals are read alike. -/
theorem literal_quote_agree {e e' : Nat} {gap gap' w rest rest' : List Char}
    (hs : Within source e (gap ++ '"' :: (w ++ rest)))
    (hs' : Within source' e' (gap' ++ '"' :: (w ++ rest'))) (hgap : Gap gap) (hgap' : Gap gap')
    (hw : ∀ c ∈ w, Text.isBlank c = false) (hrest : Boundary rest) (hrest' : Boundary rest')
    (htexts : (tokensTo e rest).map Token.text = (tokensTo e' rest').map Token.text) :
    Agree (Leaving source source' fun a b => Text.collapse a = Text.collapse b)
      (literal source (tokensTo e (gap ++ '"' :: (w ++ rest))))
      (literal source' (tokensTo e' (gap' ++ '"' :: (w ++ rest')))) := by
  rw [literal_quote_eq hs.size_le hgap hw hrest, literal_quote_eq hs'.size_le hgap' hw hrest']
  have hfront : ∀ gap x : List Char, x <:+ gap ++ '"' :: x := fun gap x =>
    (List.suffix_cons '"' x).trans (List.suffix_append gap _)
  have hx := hs.of_suffix (hfront gap _)
  have hx' := hs'.of_suffix (hfront gap' _)
  cases closedAlike_front hx.size_le hx'.size_le htexts hw hrest hrest' with
  | never hnone hnone' =>
    rw [hnone, hnone']
    exact .error _
  | @quote body later body' later' heq heq' hsome hsome' hlater hbodies =>
    rw [heq] at hs hx hsome ⊢
    rw [heq'] at hs' hx' hsome' ⊢
    have hrespaced : Respaced source source' (tokensTo e later) (tokensTo e' later') :=
      ⟨⟨e, later, hx.of_suffix (hfront body later), rfl⟩,
        ⟨e', later', hx'.of_suffix (hfront body' later'), rfl⟩, hlater⟩
    rw [hsome, hsome']
    simp only [slice_body hs, slice_body hs']
    rcases Literal.unescape_alike hbodies with ⟨cause, hcause, hcause'⟩ |
      ⟨text, text', htext, htext', hcollapse⟩
    · rw [hcause, hcause']
      exact .error _
    · rw [htext, htext']
      exact .ok ⟨hcollapse, hrespaced⟩

/-- Literals of respaced texts agree up to their blanks. -/
theorem literal_agree (h : Respaced source source' ts ts') :
    Agree (Leaving source source' fun a b => Text.collapse a = Text.collapse b)
      (literal source ts) (literal source' ts') := by
  rcases h.nil_or_cons with ⟨rfl, rfl⟩ | ⟨t, later, t', later', rfl, rfl, htext, hlater⟩
  · exact .error _
  · by_cases hquote : t.chars.head? = some '"'
    · obtain ⟨⟨e, s, hs, hts⟩, ⟨e', s', hs', hts'⟩, -⟩ := h
      obtain ⟨w, rest, hword, hw, rfl⟩ := tokensTo_eq_cons hs.size_le hts.symm
      obtain ⟨w', rest', hword', hw', rfl⟩ := tokensTo_eq_cons hs'.size_le hts'.symm
      obtain rfl : w' = w := String.ofList_injective (by rw [← hw', ← htext, hw])
      obtain ⟨w, rfl⟩ : ∃ x, w' = '"' :: x := by
        rw [Token.chars, hw, String.toList_ofList] at hquote
        exact List.head?_eq_some_iff.1 hquote
      obtain ⟨gap, rfl, hgap, hword, hrest⟩ := word?_eq_some_iff.1 hword
      obtain ⟨gap', rfl, hgap', -, hrest'⟩ := word?_eq_some_iff.1 hword'
      rw [hts, hts']
      exact literal_quote_agree hs hs' hgap hgap' (List.forall_mem_cons.1 hword.2).2 hrest hrest'
        hlater.texts
    · have hquote' : t'.chars.head? ≠ some '"' := by
        rwa [Token.chars, ← htext]
      rw [literal, literal, if_neg hquote, if_neg hquote', ← htext]
      exact .error _

/-! ## Phrases and bounds -/

/-- A word is taken from both of two respaced texts or from neither. -/
theorem takeWord_agree (word : String) (h : Respaced source source' ts ts') :
    Agree (Respaced source source') (takeWord word ts) (takeWord word ts') := by
  rcases h.nil_or_cons with ⟨rfl, rfl⟩ | ⟨t, rest, t', rest', rfl, rfl, htext, hrest⟩
  · exact .error _
  · rw [takeWord, takeWord, ← htext]
    split
    · exact .ok hrest
    · exact .error _

/-- A `not` is taken from both of two respaced texts or from neither. -/
theorem takeNot_respaced (h : Respaced source source' ts ts') :
    (takeNot ts).1 = (takeNot ts').1 ∧
      Respaced source source' (takeNot ts).2 (takeNot ts').2 := by
  rcases h.nil_or_cons with ⟨rfl, rfl⟩ | ⟨t, rest, t', rest', rfl, rfl, htext, hrest⟩
  · exact ⟨rfl, h⟩
  · rw [takeNot, takeNot, ← htext]
    split
    · exact ⟨rfl, hrest⟩
    · exact ⟨rfl, h⟩

/-- The phrase of a number is the same in respaced texts. -/
theorem numberOperator_agree (h : Respaced source source' ts ts') :
    Agree (Leaving source source' (· = ·)) (numberOperator ts) (numberOperator ts') := by
  apply (takeWord_agree "is" h).bind
  intro afterIs afterIs' his
  obtain ⟨hnegated, hnot⟩ := takeNot_respaced his
  dsimp only
  rw [← hnegated, ← hnot.firstText]
  split
  · exact .error _
  · apply (takeWord_agree _ hnot.drop_one).bind
    intro rest rest' hrest
    exact .ok ⟨rfl, hrest⟩

/-- A number is the same in respaced texts. -/
theorem bound_agree (h : Respaced source source' ts ts') :
    Agree (Leaving source source' (· = ·)) (bound ts) (bound ts') := by
  rcases h.nil_or_cons with ⟨rfl, rfl⟩ | ⟨t, rest, t', rest', rfl, rfl, htext, hrest⟩
  · exact .error _
  · rw [bound, bound, ← htext]
    split
    · exact .ok ⟨rfl, hrest⟩
    · exact .error _

/-- The end of a phrase is the same in respaced texts. -/
theorem endPhrase_agree (word : String) (op : TextRelation × Bool)
    (h : Respaced source source' ts ts') :
    Agree (Leaving source source' (· = ·)) (endPhrase word op ts) (endPhrase word op ts') :=
  (takeWord_agree word h).map fun _ _ hrest => ⟨rfl, hrest⟩

/-- A negated phrase is the same in respaced texts. -/
theorem negatedOperator_agree (h : Respaced source source' ts ts') :
    Agree (Leaving source source' (· = ·)) (negatedOperator ts) (negatedOperator ts') := by
  unfold negatedOperator
  dsimp only
  rw [← h.firstText]
  split
  · exact .ok ⟨rfl, h.drop_one⟩
  · split
    · exact endPhrase_agree _ _ h.drop_one
    · split
      · exact endPhrase_agree _ _ h.drop_one
      · exact .error _

/-- The phrase of a text is the same in respaced texts. -/
theorem textOperator_agree (h : Respaced source source' ts ts') :
    Agree (Leaving source source' (· = ·)) (textOperator ts) (textOperator ts') := by
  rcases h.nil_or_cons with ⟨rfl, rfl⟩ | ⟨t, rest, t', rest', rfl, rfl, htext, hrest⟩
  · exact .error _
  · rw [textOperator, textOperator, ← htext]
    split
    · obtain ⟨hnegated, hnot⟩ := takeNot_respaced hrest
      exact .ok ⟨by rw [hnegated], hnot⟩
    · split
      · exact .ok ⟨rfl, hrest⟩
      · split
        · exact endPhrase_agree _ _ hrest
        · split
          · exact endPhrase_agree _ _ hrest
          · split
            · apply (takeWord_agree "not" hrest).bind
              intro afterNot afterNot' hnot
              exact negatedOperator_agree hnot
            · exact .error _

end FilterClause

/-! ## Conditions and groups -/

/-- The condition with the runs of blanks of its literal collapsed. -/
def Condition.collapsed : Condition → Condition
  | .number relation negated bound => .number relation negated bound
  | .text relation negated literal => .text relation negated (Text.collapse literal)

/-- The predicate with the runs of blanks of its literal collapsed. -/
def Predicate.collapsed (p : Predicate) : Predicate :=
  ⟨p.field, p.condition.collapsed⟩

/-- The filter with the runs of blanks of its literals collapsed. -/
def Filter.collapsed : Filter → Filter
  | everything => everything
  | atom p => atom p.collapsed
  | and a b => and a.collapsed b.collapsed
  | or a b => or a.collapsed b.collapsed

namespace FilterClause

open Sentence

variable {source source' : String} {ts ts' : List Token}

/-- A condition is the same in respaced texts, up to blanks in its literal. -/
theorem condition_agree (kind : CellKind) (h : Respaced source source' ts ts') :
    Agree (Leaving source source' fun c d => c.collapsed = d.collapsed)
      (condition source kind ts) (condition source' kind ts') := by
  cases kind with
  | number =>
    apply (numberOperator_agree h).bind
    rintro ⟨⟨relation, negated⟩, rest⟩ ⟨_, rest'⟩ ⟨rfl, hrest⟩
    apply (bound_agree hrest).bind
    rintro ⟨x, later⟩ ⟨_, later'⟩ ⟨rfl, hlater⟩
    exact .ok ⟨rfl, hlater⟩
  | text =>
    apply (textOperator_agree h).bind
    rintro ⟨⟨relation, negated⟩, rest⟩ ⟨_, rest'⟩ ⟨rfl, hrest⟩
    apply (literal_agree hrest).bind
    rintro ⟨a, later⟩ ⟨b, later'⟩ ⟨hliteral, hlater⟩
    exact .ok ⟨congrArg (Condition.text relation negated) hliteral, hlater⟩

/-- A predicate is the same in respaced texts, up to blanks in its literal. -/
theorem predicate_agree (h : Respaced source source' ts ts') :
    Agree (Leaving source source' fun p q => p.collapsed = q.collapsed)
      (predicate source ts) (predicate source' ts') := by
  rcases h.nil_or_cons with ⟨rfl, rfl⟩ | ⟨t, rest, t', rest', rfl, rfl, htext, hrest⟩
  · exact .error _
  · rw [predicate, predicate, ← htext]
    split
    · exact .error _
    · rename_i field _
      apply (condition_agree field.kind hrest).map
      rintro ⟨c, later⟩ ⟨d, later'⟩ ⟨hcondition, hlater⟩
      exact ⟨congrArg (Predicate.mk field) hcondition, hlater⟩

/-- Groups of predicates that are the same with the blanks of their literals collapsed. -/
def SameGroups (gs gs' : List (List Predicate)) : Prop :=
  gs.map (List.map Predicate.collapsed) = gs'.map (List.map Predicate.collapsed)

/-- Further predicates are the same in respaced texts, up to blanks in their literals. -/
theorem moreGroups_agree {group group' : List Predicate}
    (hgroup : group.map Predicate.collapsed = group'.map Predicate.collapsed)
    (h : Respaced source source' ts ts') :
    Agree SameGroups (moreGroups source group ts) (moreGroups source' group' ts') := by
  have hreverse : ∀ {group group' : List Predicate},
      group.map Predicate.collapsed = group'.map Predicate.collapsed →
        group.reverse.map Predicate.collapsed = group'.reverse.map Predicate.collapsed := by
    intro group group' hgroup
    rw [List.map_reverse, List.map_reverse, hgroup]
  induction hn : ts.length using Nat.strongRecOn generalizing group group' ts ts' with
  | ind n ih =>
    rcases h.nil_or_cons with ⟨rfl, rfl⟩ | ⟨t, rest, t', rest', rfl, rfl, htext, hrest⟩
    · rw [moreGroups, moreGroups]
      exact .ok (congrArg (fun g => [g]) (hreverse hgroup))
    · -- what a predicate leaves is shorter, so the groups behind it agree
      have hp : Agree (fun a b => a.2.length < n ∧ Leaving source source'
          (fun p q : Predicate => p.collapsed = q.collapsed) a b)
          (predicate source rest) (predicate source' rest') := by
        apply (predicate_agree hrest).imp
        intro a b ha _ hab
        exact ⟨hn ▸ Nat.lt_succ_of_lt (predicate_length ha), hab⟩
      rw [moreGroups_cons, moreGroups_cons, ← htext]
      split
      · apply hp.bind
        rintro ⟨p, later⟩ ⟨q, later'⟩ ⟨hlength, hpq, hlater⟩
        exact ih later.length hlength (congrArg₂ List.cons hpq hgroup) hlater rfl
      · split
        · apply hp.bind
          rintro ⟨p, later⟩ ⟨q, later'⟩ ⟨hlength, hpq, hlater⟩
          have hsingle : [p].map Predicate.collapsed = [q].map Predicate.collapsed :=
            congrArg (fun r => [r]) hpq
          apply (ih later.length hlength hsingle hlater rfl).map
          intro gs gs' hgs
          exact congrArg₂ List.cons (hreverse hgroup) hgs
        · exact .error _

/-- Groups of predicates are the same in respaced texts, up to blanks in their literals. -/
theorem groups_agree (h : Respaced source source' ts ts') :
    Agree SameGroups (groups source ts) (groups source' ts') := by
  rcases h.nil_or_cons with ⟨rfl, rfl⟩ | ⟨t, rest, t', rest', rfl, rfl, -, -⟩
  · exact .error _
  · rw [groups_cons, groups_cons]
    apply (predicate_agree h).bind
    rintro ⟨p, later⟩ ⟨q, later'⟩ ⟨hpq, hlater⟩
    exact moreGroups_agree (congrArg (fun r => [r]) hpq) hlater

end FilterClause

/-! ## The folded filter -/

namespace Filter

/-- Collapsing the blanks of filters that are combined is combining the collapsed ones. -/
theorem collapsed_foldl {combine : Filter → Filter → Filter}
    (hcombine : ∀ a b, (combine a b).collapsed = combine a.collapsed b.collapsed)
    (e : Filter) (es : List Filter) :
    (es.foldl combine e).collapsed = (es.map collapsed).foldl combine e.collapsed := by
  induction es generalizing e with
  | nil => rfl
  | cons e' es ih => rw [List.foldl_cons, ih, hcombine, List.map_cons, List.foldl_cons]

/-- Collapsing the blanks of filters that are joined is joining the collapsed ones. -/
theorem collapsed_join? {combine : Filter → Filter → Filter}
    (hcombine : ∀ a b, (combine a b).collapsed = combine a.collapsed b.collapsed)
    (es : List Filter) : (join? combine es).map collapsed = join? combine (es.map collapsed) := by
  cases es with
  | nil => rfl
  | cons e es => exact congrArg some (collapsed_foldl hcombine e es)

/-- Collapsing the literals of groups collapses those of their filter. -/
theorem collapsed_ofGroups (gs : List (List Predicate)) :
    (ofGroups gs).collapsed = ofGroups (gs.map (List.map Predicate.collapsed)) := by
  have hand : ∀ a b : Filter, (and a b).collapsed = and a.collapsed b.collapsed := fun _ _ => rfl
  have hor : ∀ a b : Filter, (or a b).collapsed = or a.collapsed b.collapsed := fun _ _ => rfl
  have hgroup : ∀ group : List Predicate, (join? and (group.map atom)).map collapsed =
      join? and ((group.map Predicate.collapsed).map atom) := by
    intro group
    rw [collapsed_join? hand, List.map_map, List.map_map]
    rfl
  have hgroups : (gs.filterMap fun group => join? and (group.map atom)).map collapsed =
      (gs.map (List.map Predicate.collapsed)).filterMap fun group =>
        join? and (group.map atom) := by
    rw [List.map_filterMap, List.filterMap_map]
    exact congrArg (fun f => gs.filterMap f) (funext hgroup)
  unfold ofGroups
  rw [← hgroups, ← collapsed_join? hor]
  cases join? or (gs.filterMap fun group => join? and (group.map atom)) with
  | none => rfl
  | some e => rfl

end Filter

namespace FilterClause

open Sentence

/-- Filters of respaced texts are the same, up to blanks in their literals. -/
theorem filter_agree {source source' : String} {ts ts' : List Token}
    (h : Respaced source source' ts ts') :
    Agree (fun e e' : Filter => e.collapsed = e'.collapsed) (filter source ts)
      (filter source' ts') := by
  apply (groups_agree h).map
  intro gs gs' hgs
  rw [Filter.collapsed_ofGroups, Filter.collapsed_ofGroups]
  exact congrArg Filter.ofGroups hgs

end FilterClause

end CourseQuery
