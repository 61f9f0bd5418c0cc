import CourseQuery.Proofs.Sentence.LiteralReading
import CourseQuery.Proofs.Steps
import CourseQuery.Proofs.Text.Blank

/-!
# Reading the phrases of a filter

The readers of a filter clause take tokens. Here each of them is told by the text: it succeeds on
the tokens of a text exactly when the words of its phrase come next, and leaves the tokens of what
follows them. Only `is` is a phrase and the beginning of another one; there the reader takes the
longer.
-/

set_option autoImplicit false

namespace CourseQuery

/-- Characters make up a text if they are its characters. -/
theorem ofList_eq_iff {w : List Char} {t : String} : String.ofList w = t ↔ w = t.toList := by
  rw [← String.toList_inj, String.toList_ofList]

/-- A plain numeral is a word. -/
theorem Numeral.Plain.isWord {w : List Char} {x : Binary64} (h : Numeral.Plain w x) :
    Sentence.IsWord w := by
  refine ⟨h.ne_nil, fun c hc => ?_⟩
  rcases h.mem c hc with rfl | rfl | hdigit
  · decide
  · decide
  · exact Text.isBlank_of_isDigit hdigit

namespace FilterClause

open Sentence
open Text.Utf8 (size)

variable {source : String} {e : Nat} {s rest : List Char} {ts : List Token}

/-- The first token spells the first word of the text. -/
theorem firstText_tokensTo (hs : size s ≤ e) :
    firstText (tokensTo e s) = (word? s).map fun found => String.ofList found.1 := by
  rw [tokensTo_eq hs]
  cases word? s with
  | none => rfl
  | some found => rfl

/-- A word is taken when it comes next. -/
theorem takeWord_eq_ok_iff (hs : size s ≤ e) {word : String} (hword : IsWord word.toList) :
    takeWord word (tokensTo e s) = .ok ts ↔
      ∃ rest, Takes [word.toList] s rest ∧ ts = tokensTo e rest := by
  simp only [takes_word hword, takes_nil]
  cases h : word? s with
  | none => simp [tokensTo_none h, takeWord]
  | some found =>
    obtain ⟨w, mid⟩ := found
    rw [tokensTo_some hs h, takeWord]
    simp only [ofList_eq_iff]
    split
    · rename_i hw
      simp [hw, eq_comm]
    · rename_i hw
      simp [hw]

/-- Without the first token the text goes on behind its first word. -/
theorem drop_tokensTo (hs : size s ≤ e) {w mid : List Char} (h : word? s = some (w, mid)) :
    (tokensTo e s).drop 1 = tokensTo e mid := by
  rw [tokensTo_some hs h]
  rfl

/-- The word of a negated phrase that the phrase itself lacks. -/
def negation (negated : Bool) : List (List Char) :=
  if negated then ["not".toList] else []

/-- An optional `not` is taken when it comes next. -/
theorem takeNot_tokensTo (hs : size s ≤ e) {negated : Bool} :
    takeNot (tokensTo e s) = (negated, ts) ↔
      ∃ rest, Takes (negation negated) s rest ∧
        (negated = false → ∀ mid, word? s ≠ some ("not".toList, mid)) ∧ ts = tokensTo e rest := by
  have hword : IsWord "not".toList := by decide
  have hnegation : ∀ rest, Takes (negation negated) s rest ↔
      if negated then word? s = some ("not".toList, rest) else rest = s := by
    intro rest
    cases negated with
    | true =>
      refine (takes_word hword).trans ?_
      simp [takes_nil]
    | false => exact takes_nil
  simp only [hnegation]
  clear hnegation
  cases h : word? s with
  | none => cases negated <;> simp [tokensTo_none h, takeNot, eq_comm]
  | some found =>
    obtain ⟨w, mid⟩ := found
    rw [tokensTo_some hs h, takeNot]
    simp only [ofList_eq_iff]
    generalize "not".toList = word
    split
    · rename_i hw
      cases negated <;> simp [hw, eq_comm]
    · rename_i hw
      cases negated <;> simp [hw, eq_comm, tokensTo_some hs h]

section Number

/-- The word that names a numeric relation. -/
def relationWord : NumberRelation → String
  | .equal => "equal"
  | .greater => "greater"
  | .less => "less"

/-- A relation of numbers is named by its word. -/
theorem numberRelation?_eq_some_iff {word : String} {relation : NumberRelation} :
    numberRelation? word = some relation ↔ word = relationWord relation := by
  constructor
  · intro h
    unfold numberRelation? at h
    split at h
    · rename_i hword
      rw [← Option.some.inj h, hword]
      rfl
    · split at h
      · rename_i hword
        rw [← Option.some.inj h, hword]
        rfl
      · split at h
        · rename_i hword
          rw [← Option.some.inj h, hword]
          rfl
        · contradiction
  · rintro rfl
    cases relation <;> decide

/-- The words of a phrase of numbers are `is`, perhaps `not`, and two of the relation. -/
theorem wordsOf_numberPhrase (relation : NumberRelation) (negated : Bool) :
    wordsOf (relation.phrase negated) =
      "is".toList :: (negation negated ++
        [(relationWord relation).toList, (joiner relation).toList]) := by
  cases relation <;> cases negated <;> rfl

/-- A relation of numbers is named by a word, and so is what joins it to its bound. -/
theorem relationWord_isWord (relation : NumberRelation) :
    IsWord (relationWord relation).toList ∧ IsWord (joiner relation).toList := by
  cases relation <;> decide

/-- Whatever phrase of numbers is read, its words stand in the text. -/
theorem takes_of_numberOperator (hs : size s ≤ e) {relation : NumberRelation} {negated : Bool}
    (h : numberOperator (tokensTo e s) = .ok ((relation, negated), ts)) :
    ∃ rest, Takes (wordsOf (relation.phrase negated)) s rest ∧ ts = tokensTo e rest := by
  rw [numberOperator, bind_eq_ok_iff] at h
  rw [wordsOf_numberPhrase]
  obtain ⟨_, his, h⟩ := h
  obtain ⟨s₁, hs₁, rfl⟩ := (takeWord_eq_ok_iff hs (by decide)).1 his
  cases hnot : takeNot (tokensTo e s₁) with
  | mk found ts₂ =>
    obtain ⟨s₂, hs₂, -, rfl⟩ := (takeNot_tokensTo (hs₁.size_le hs)).1 hnot
    have hsize := hs₂.size_le (hs₁.size_le hs)
    simp only [hnot] at h
    split at h
    · contradiction
    · rename_i relation' hrelation
      obtain ⟨_, hjoiner, h⟩ := bind_eq_ok_iff.1 h
      obtain ⟨hop, rfl⟩ := Prod.mk.inj (Except.ok.inj h)
      obtain ⟨rfl, rfl⟩ := Prod.mk.inj hop
      rw [firstText_tokensTo hsize, Option.bind_eq_some_iff] at hrelation
      obtain ⟨text, htext, hrelation⟩ := hrelation
      obtain ⟨⟨w, s₃⟩, hw, rfl⟩ := Option.map_eq_some_iff.1 htext
      rw [numberRelation?_eq_some_iff, ofList_eq_iff] at hrelation
      dsimp only at hrelation
      subst hrelation
      have hs₃ : Takes [(relationWord relation').toList] s₂ s₃ :=
        (takes_word (relationWord_isWord _).1).2 ⟨s₃, hw, .nil s₃⟩
      rw [drop_tokensTo hsize hw,
        takeWord_eq_ok_iff (hs₃.size_le hsize) (relationWord_isWord _).2] at hjoiner
      obtain ⟨rest, hrest, hts⟩ := hjoiner
      refine ⟨rest, takes_append.2 ⟨s₁, hs₁, takes_append.2 ⟨s₂, hs₂, ?_⟩⟩, hts⟩
      exact takes_append.2 ⟨s₃, hs₃, hrest⟩

/-- A phrase of numbers is read where its words stand. -/
theorem numberOperator_of_takes (hs : size s ≤ e) {relation : NumberRelation} {negated : Bool}
    (htakes : Takes (wordsOf (relation.phrase negated)) s rest) :
    numberOperator (tokensTo e s) = .ok ((relation, negated), tokensTo e rest) := by
  rw [wordsOf_numberPhrase] at htakes
  rw [numberOperator, bind_eq_ok_iff]
  rw [← List.singleton_append, takes_append] at htakes
  obtain ⟨s₁, hs₁, htakes⟩ := htakes
  obtain ⟨s₂, hs₂, htakes⟩ := takes_append.1 htakes
  obtain ⟨s₃, hw, hs₃⟩ := (takes_word (relationWord_isWord _).1).1 htakes
  have hsize := hs₂.size_le (hs₁.size_le hs)
  refine ⟨_, (takeWord_eq_ok_iff hs (by decide)).2 ⟨s₁, hs₁, rfl⟩, ?_⟩
  have hnot : takeNot (tokensTo e s₁) = (negated, tokensTo e s₂) := by
    refine (takeNot_tokensTo (hs₁.size_le hs)).2 ⟨s₂, hs₂, ?_, rfl⟩
    rintro rfl mid hmid
    obtain rfl := takes_nil.1 hs₂
    rw [hw] at hmid
    cases relation <;> exact absurd (Prod.mk.inj (Option.some.inj hmid)).1 (by decide)
  have hrelation : (firstText (tokensTo e s₂)).bind numberRelation? = some relation := by
    rw [firstText_tokensTo hsize, hw]
    exact numberRelation?_eq_some_iff.2 (String.ofList_toList)
  have hjoiner : takeWord (joiner relation) ((tokensTo e s₂).drop 1) = .ok (tokensTo e rest) := by
    have hs₃' : Takes [(relationWord relation).toList] s₂ s₃ :=
      (takes_word (relationWord_isWord _).1).2 ⟨s₃, hw, .nil s₃⟩
    rw [drop_tokensTo hsize hw]
    exact (takeWord_eq_ok_iff (hs₃'.size_le hsize) (relationWord_isWord _).2).2 ⟨rest, hs₃, rfl⟩
  simp only [hnot, hrelation, hjoiner]
  rfl

/-- The reader of numeric phrases takes the words of the phrase. -/
theorem numberOperator_eq_ok_iff (hs : size s ≤ e) {relation : NumberRelation} {negated : Bool} :
    numberOperator (tokensTo e s) = .ok ((relation, negated), ts) ↔
      ∃ rest, Takes (wordsOf (relation.phrase negated)) s rest ∧ ts = tokensTo e rest := by
  constructor
  · exact takes_of_numberOperator hs
  · rintro ⟨rest, htakes, rfl⟩
    exact numberOperator_of_takes hs htakes

/-- A bound is read exactly when a numeral comes next. -/
theorem bound_eq_ok_iff (hs : size s ≤ e) {x : Binary64} :
    bound (tokensTo e s) = .ok (x, ts) ↔
      ∃ word rest, Numeral.Plain word x ∧ Takes [word] s rest ∧ ts = tokensTo e rest := by
  constructor
  · intro h
    cases hword : word? s with
    | none =>
      rw [tokensTo_none hword] at h
      contradiction
    | some found =>
      obtain ⟨w, rest⟩ := found
      rw [tokensTo_some hs hword, bound] at h
      split at h
      · rename_i x' hx
        obtain ⟨rfl, rfl⟩ := Prod.mk.inj (Except.ok.inj h)
        have hplain := Numeral.ofPlain?_eq_some_iff.1 hx
        exact ⟨w, rest, hplain, (takes_word hplain.isWord).2 ⟨rest, hword, .nil rest⟩, rfl⟩
      · contradiction
  · rintro ⟨word, rest, hplain, htakes, rfl⟩
    obtain ⟨mid, hword, hmid⟩ := (takes_word hplain.isWord).1 htakes
    obtain rfl := takes_nil.1 hmid
    rw [tokensTo_some hs hword, bound]
    simp only [Numeral.ofPlain?_eq_some_iff.2 hplain]

end Number

section Text

/-- A phrase ends with its last word. -/
theorem endPhrase_eq_ok_iff (hs : size s ≤ e) {word : String} (hword : IsWord word.toList)
    {op op' : TextRelation × Bool} :
    endPhrase word op (tokensTo e s) = .ok (op', ts) ↔
      op' = op ∧ ∃ rest, Takes [word.toList] s rest ∧ ts = tokensTo e rest := by
  simp only [endPhrase, map_eq_ok_iff, takeWord_eq_ok_iff hs hword, Prod.mk.injEq]
  constructor
  · rintro ⟨_, ⟨rest, htakes, rfl⟩, rfl, rfl⟩
    exact ⟨rfl, rest, htakes, rfl⟩
  · rintro ⟨rfl, rest, htakes, rfl⟩
    exact ⟨_, ⟨rest, htakes, rfl⟩, rfl, rfl⟩

/-- The words of a negated phrase after `does not`. -/
def negatedWords : TextRelation → List (List Char)
  | .is => []
  | .includes => ["include".toList]
  | .beginsWith => ["begin".toList, "with".toList]
  | .endsWith => ["end".toList, "with".toList]

/-- The first word decides how a negated phrase goes on after `does not`. -/
theorem negatedOperator_tokensTo (hs : size s ≤ e) {w mid : List Char}
    (hword : word? s = some (w, mid)) :
    negatedOperator (tokensTo e s) =
      if w = "include".toList then .ok ((.includes, true), tokensTo e mid)
      else if w = "begin".toList then endPhrase "with" (.beginsWith, true) (tokensTo e mid)
      else if w = "end".toList then endPhrase "with" (.endsWith, true) (tokensTo e mid)
      else .error (.invalidFilter (.negatedExpected (some (String.ofList w))) none) := by
  rw [negatedOperator, firstText_tokensTo hs, hword, drop_tokensTo hs hword]
  simp only [Option.map_some, Option.some.injEq, ofList_eq_iff]

/-- Whatever is read after `does not`, the words of a negated phrase stand there. -/
theorem takes_of_negatedOperator (hs : size s ≤ e) {relation : TextRelation} {negated : Bool}
    (h : negatedOperator (tokensTo e s) = .ok ((relation, negated), ts)) :
    negated = true ∧ relation ≠ .is ∧
      ∃ rest, Takes (negatedWords relation) s rest ∧ ts = tokensTo e rest := by
  cases hword : word? s with
  | none =>
    rw [negatedOperator, firstText_tokensTo hs, hword] at h
    contradiction
  | some found =>
    obtain ⟨w, mid⟩ := found
    have hmid := word?_size_le hword hs
    rw [negatedOperator_tokensTo hs hword] at h
    split at h
    · rename_i hw
      obtain ⟨hop, rfl⟩ := Prod.mk.inj (Except.ok.inj h)
      obtain ⟨rfl, rfl⟩ := Prod.mk.inj hop
      exact ⟨rfl, by simp, mid, (takes_word_of (by decide) hword).2 ⟨hw, .nil mid⟩, rfl⟩
    · split at h
      · rename_i hw
        obtain ⟨hop, rest, htakes, rfl⟩ := (endPhrase_eq_ok_iff hmid (by decide)).1 h
        obtain ⟨rfl, rfl⟩ := Prod.mk.inj hop
        exact ⟨rfl, by simp, rest, (takes_word_of (by decide) hword).2 ⟨hw, htakes⟩, rfl⟩
      · split at h
        · rename_i hw
          obtain ⟨hop, rest, htakes, rfl⟩ := (endPhrase_eq_ok_iff hmid (by decide)).1 h
          obtain ⟨rfl, rfl⟩ := Prod.mk.inj hop
          exact ⟨rfl, by simp, rest, (takes_word_of (by decide) hword).2 ⟨hw, htakes⟩, rfl⟩
        · contradiction

/-- The words of a negated phrase are read after `does not`. -/
theorem negatedOperator_of_takes (hs : size s ≤ e) {relation : TextRelation}
    (hne : relation ≠ .is) (htakes : Takes (negatedWords relation) s rest) :
    negatedOperator (tokensTo e s) = .ok ((relation, true), tokensTo e rest) := by
  cases relation with
  | is => contradiction
  | includes =>
    obtain ⟨mid, hword, hnil⟩ := (takes_word (by decide)).1 htakes
    rw [negatedOperator_tokensTo hs hword, if_pos rfl, takes_nil.1 hnil]
  | beginsWith =>
    obtain ⟨mid, hword, hwith⟩ := (takes_word (by decide)).1 htakes
    rw [negatedOperator_tokensTo hs hword, if_neg (by decide), if_pos rfl]
    exact (endPhrase_eq_ok_iff (word?_size_le hword hs) (by decide)).2 ⟨rfl, rest, hwith, rfl⟩
  | endsWith =>
    obtain ⟨mid, hword, hwith⟩ := (takes_word (by decide)).1 htakes
    rw [negatedOperator_tokensTo hs hword, if_neg (by decide), if_neg (by decide), if_pos rfl]
    exact (endPhrase_eq_ok_iff (word?_size_le hword hs) (by decide)).2 ⟨rfl, rest, hwith, rfl⟩

/-- The reader of what follows `does not` takes the rest of a negated phrase. -/
theorem negatedOperator_eq_ok_iff (hs : size s ≤ e) {relation : TextRelation} {negated : Bool} :
    negatedOperator (tokensTo e s) = .ok ((relation, negated), ts) ↔
      negated = true ∧ relation ≠ .is ∧
        ∃ rest, Takes (negatedWords relation) s rest ∧ ts = tokensTo e rest := by
  constructor
  · exact takes_of_negatedOperator hs
  · rintro ⟨rfl, hne, rest, htakes, rfl⟩
    exact negatedOperator_of_takes hs hne htakes

/-- The words of the phrase `is` are itself and perhaps `not`. -/
theorem wordsOf_is (negated : Bool) :
    wordsOf (TextRelation.is.phrase negated) = "is".toList :: negation negated := by
  cases negated <;> rfl

/-- The words of any other negated phrase begin with `does not`. -/
theorem wordsOf_negated {relation : TextRelation} (h : relation ≠ .is) :
    wordsOf (relation.phrase true) =
      "does".toList :: "not".toList :: negatedWords relation := by
  cases relation with
  | is => contradiction
  | includes | beginsWith | endsWith => rfl

/-- What follows `does` is read as the rest of a negated phrase. -/
theorem takeNegated_eq_ok_iff (hs : size s ≤ e) {relation : TextRelation} {negated : Bool} :
    (takeWord "not" (tokensTo e s) >>= negatedOperator) = .ok ((relation, negated), ts) ↔
      negated = true ∧ relation ≠ .is ∧
        ∃ rest, Takes ("not".toList :: negatedWords relation) s rest ∧ ts = tokensTo e rest := by
  rw [bind_eq_ok_iff]
  constructor
  · rintro ⟨_, hnot, h⟩
    obtain ⟨mid, hmid, rfl⟩ := (takeWord_eq_ok_iff hs (by decide)).1 hnot
    obtain ⟨hnegated, hne, rest, htakes, hts⟩ :=
      (negatedOperator_eq_ok_iff (hmid.size_le hs)).1 h
    exact ⟨hnegated, hne, rest, takes_append.2 ⟨mid, hmid, htakes⟩, hts⟩
  · rintro ⟨hnegated, hne, rest, htakes, hts⟩
    rw [← List.singleton_append, takes_append] at htakes
    obtain ⟨mid, hmid, htakes⟩ := htakes
    refine ⟨_, (takeWord_eq_ok_iff hs (by decide)).2 ⟨mid, hmid, rfl⟩, ?_⟩
    exact (negatedOperator_eq_ok_iff (hmid.size_le hs)).2 ⟨hnegated, hne, rest, htakes, hts⟩

/-- The first word decides how a phrase goes on. -/
theorem textOperator_tokensTo (hs : size s ≤ e) {w mid : List Char}
    (hword : word? s = some (w, mid)) :
    textOperator (tokensTo e s) =
      if w = "is".toList then
        .ok ((.is, (takeNot (tokensTo e mid)).1), (takeNot (tokensTo e mid)).2)
      else if w = "includes".toList then .ok ((.includes, false), tokensTo e mid)
      else if w = "begins".toList then endPhrase "with" (.beginsWith, false) (tokensTo e mid)
      else if w = "ends".toList then endPhrase "with" (.endsWith, false) (tokensTo e mid)
      else if w = "does".toList then takeWord "not" (tokensTo e mid) >>= negatedOperator
      else .error (.invalidFilter (.notTextOperator (String.ofList w))
        (some (String.ofList w))) := by
  rw [tokensTo_some hs hword, textOperator]
  simp only [ofList_eq_iff]

/-- Whatever phrase of texts is read, its words stand in the text. -/
theorem takes_of_textOperator (hs : size s ≤ e) {relation : TextRelation} {negated : Bool}
    (h : textOperator (tokensTo e s) = .ok ((relation, negated), ts)) :
    ∃ rest, Takes (wordsOf (relation.phrase negated)) s rest ∧
      (relation = .is → negated = false → ∀ mid, word? rest ≠ some ("not".toList, mid)) ∧
      ts = tokensTo e rest := by
  cases hword : word? s with
  | none =>
    rw [tokensTo_none hword] at h
    contradiction
  | some found =>
    obtain ⟨w, mid⟩ := found
    have hmid := word?_size_le hword hs
    have hfirst : ∀ {word : String} {ls : List (List Char)} {rest : List Char},
        IsWord word.toList → w = word.toList → Takes ls mid rest →
          Takes (word.toList :: ls) s rest :=
      fun hw heq htakes => (takes_word_of hw hword).2 ⟨heq, htakes⟩
    rw [textOperator_tokensTo hs hword] at h
    split at h
    · rename_i hw
      obtain ⟨hop, hts⟩ := Prod.mk.inj (Except.ok.inj h)
      obtain ⟨rfl, hnegated⟩ := Prod.mk.inj hop
      obtain ⟨rest, htakes, hnot, rfl⟩ := (takeNot_tokensTo hmid).1 (Prod.ext hnegated hts)
      refine ⟨rest, wordsOf_is negated ▸ hfirst (by decide) hw htakes, ?_, rfl⟩
      rintro - rfl
      rw [takes_nil.1 htakes]
      exact hnot rfl
    · split at h
      · rename_i hw
        obtain ⟨hop, rfl⟩ := Prod.mk.inj (Except.ok.inj h)
        obtain ⟨rfl, rfl⟩ := Prod.mk.inj hop
        exact ⟨mid, hfirst (by decide) hw (.nil mid), by simp, rfl⟩
      · split at h
        · rename_i hw
          obtain ⟨hop, rest, htakes, rfl⟩ := (endPhrase_eq_ok_iff hmid (by decide)).1 h
          obtain ⟨rfl, rfl⟩ := Prod.mk.inj hop
          exact ⟨rest, hfirst (by decide) hw htakes, by simp, rfl⟩
        · split at h
          · rename_i hw
            obtain ⟨hop, rest, htakes, rfl⟩ := (endPhrase_eq_ok_iff hmid (by decide)).1 h
            obtain ⟨rfl, rfl⟩ := Prod.mk.inj hop
            exact ⟨rest, hfirst (by decide) hw htakes, by simp, rfl⟩
          · split at h
            · rename_i hw
              obtain ⟨rfl, hne, rest, htakes, rfl⟩ := (takeNegated_eq_ok_iff hmid).1 h
              refine ⟨rest, ?_, by simp, rfl⟩
              rw [wordsOf_negated hne]
              exact hfirst (by decide) hw htakes
            · contradiction

/-- A negated phrase of texts is read where its words stand. -/
theorem textOperator_of_takes_negated (hs : size s ≤ e) {relation : TextRelation}
    (hne : relation ≠ .is) (htakes : Takes (wordsOf (relation.phrase true)) s rest) :
    textOperator (tokensTo e s) = .ok ((relation, true), tokensTo e rest) := by
  rw [wordsOf_negated hne] at htakes
  obtain ⟨mid, hword, htakes⟩ := (takes_word (by decide)).1 htakes
  rw [textOperator_tokensTo hs hword, if_neg (by decide), if_neg (by decide),
    if_neg (by decide), if_neg (by decide), if_pos rfl]
  exact (takeNegated_eq_ok_iff (word?_size_le hword hs)).2 ⟨rfl, hne, rest, htakes, rfl⟩

/-- The words of a phrase are read, `is` only where no `not` comes after it. -/
theorem textOperator_of_takes (hs : size s ≤ e) {relation : TextRelation} {negated : Bool}
    (htakes : Takes (wordsOf (relation.phrase negated)) s rest)
    (hnot : relation = .is → negated = false → ∀ mid, word? rest ≠ some ("not".toList, mid)) :
    textOperator (tokensTo e s) = .ok ((relation, negated), tokensTo e rest) := by
  cases relation with
  | is =>
    rw [wordsOf_is] at htakes
    obtain ⟨mid, hword, htakes⟩ := (takes_word (by decide)).1 htakes
    have htake : takeNot (tokensTo e mid) = (negated, tokensTo e rest) := by
      refine (takeNot_tokensTo (word?_size_le hword hs)).2 ⟨rest, htakes, ?_, rfl⟩
      rintro rfl
      rw [← takes_nil.1 htakes]
      exact hnot rfl rfl
    rw [textOperator_tokensTo hs hword, if_pos rfl, htake]
  | includes =>
    cases negated with
    | false =>
      have hwords : Takes ["includes".toList] s rest := htakes
      obtain ⟨mid, hword, hnil⟩ := (takes_word (by decide)).1 hwords
      rw [textOperator_tokensTo hs hword, if_neg (by decide), if_pos rfl, takes_nil.1 hnil]
    | true => exact textOperator_of_takes_negated hs (by decide) htakes
  | beginsWith =>
    cases negated with
    | false =>
      have hwords : Takes ["begins".toList, "with".toList] s rest := htakes
      obtain ⟨mid, hword, hwith⟩ := (takes_word (by decide)).1 hwords
      rw [textOperator_tokensTo hs hword, if_neg (by decide), if_neg (by decide), if_pos rfl]
      exact (endPhrase_eq_ok_iff (word?_size_le hword hs) (by decide)).2 ⟨rfl, rest, hwith, rfl⟩
    | true => exact textOperator_of_takes_negated hs (by decide) htakes
  | endsWith =>
    cases negated with
    | false =>
      have hwords : Takes ["ends".toList, "with".toList] s rest := htakes
      obtain ⟨mid, hword, hwith⟩ := (takes_word (by decide)).1 hwords
      rw [textOperator_tokensTo hs hword, if_neg (by decide), if_neg (by decide),
        if_neg (by decide), if_pos rfl]
      exact (endPhrase_eq_ok_iff (word?_size_le hword hs) (by decide)).2 ⟨rfl, rest, hwith, rfl⟩
    | true => exact textOperator_of_takes_negated hs (by decide) htakes

/-- The reader of textual phrases takes the words of the phrase, `is not` rather than `is` when both
could be taken. -/
theorem textOperator_eq_ok_iff (hs : size s ≤ e) {relation : TextRelation} {negated : Bool} :
    textOperator (tokensTo e s) = .ok ((relation, negated), ts) ↔
      ∃ rest, Takes (wordsOf (relation.phrase negated)) s rest ∧
        (relation = .is → negated = false → ∀ mid, word? rest ≠ some ("not".toList, mid)) ∧
        ts = tokensTo e rest := by
  constructor
  · exact takes_of_textOperator hs
  · rintro ⟨rest, htakes, hnot, rfl⟩
    exact textOperator_of_takes hs htakes hnot

end Text

end FilterClause

end CourseQuery
