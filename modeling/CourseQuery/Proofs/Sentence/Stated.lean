import CourseQuery.Proofs.Filter.Groups
import CourseQuery.Proofs.Sentence.Blame
import CourseQuery.Sentence.Explanation

/-!
# The groups that a sentence states

The conditions after `whose` are collected in groups, which are folded into the filter of the query.
The fold loses nothing: no group is empty, since a condition stands before and after every `or`, and
the normal form of such a filter gives back its groups (`Filter.groups_ofGroups`). So an explanation
can show what the sentence states, although the query keeps only the filter.
-/

set_option autoImplicit false

namespace CourseQuery

namespace Sentence

variable {source : String} {taken : List Token} {q : Query} {stated : List (List Predicate)}

/-! ## Conditions of a sentence -/

/-- The tokens of the conditions of a sentence: those after `find entries whose`, up to the `;`. -/
def ConditionTokens (source : String) (taken : List Token) : Prop :=
  ∃ dataset ts₁ ts₂ ts₃,
    datasetClause (tokenize source) = .ok (dataset, ts₁) ∧
    takeWords .filter ["find", "entries", "whose"] ts₁ = .ok ts₂ ∧
    filterTokens false ts₂ = .ok (taken, ts₃)

/-- Groups of conditions stand in a sentence, one after another, with a `;` behind them. -/
def StandIn (source : String) (stated : List (List Predicate)) : Prop :=
  ∃ before between behind lexemes,
    source.toList = before ++ (between ++ ';' :: behind) ∧
      Conditions stated lexemes ∧ LaidOut lexemes between

/-- The groups that stand in a filter are some, and none is empty. -/
theorem StandIn.ne_nil (h : StandIn source stated) :
    stated ≠ [] ∧ ∀ group ∈ stated, group ≠ [] := by
  obtain ⟨before, between, behind, lexemes, -, hconditions, -⟩ := h
  exact hconditions.ne_nil

/-- The groups that are read from the tokens of the conditions stand in the sentence. -/
theorem ConditionTokens.standIn (h : ConditionTokens source taken)
    (hstated : FilterClause.groups source taken = .ok stated) : StandIn source stated := by
  obtain ⟨dataset, ts₁, ts₂, ts₃, hdataset, hwords, htaken⟩ := h
  have hs := within_source source
  rw [tokenize_eq] at hdataset
  obtain ⟨-, s₁, htakes₁, rfl⟩ := (datasetClause_eq_ok_iff hs.size_le).1 hdataset
  have hs₁ := hs.of_suffix htakes₁.suffix
  obtain ⟨s₂, htakes₂, rfl⟩ := (takeWords_eq_ok_iff hs₁.size_le (by decide)).1 hwords
  have hs₂ := hs₁.of_suffix htakes₂.suffix
  obtain ⟨between, behind, rfl, -, rfl, -⟩ := eq_of_filterTokens hs₂.size_le htaken
  obtain ⟨before, hsource⟩ := htakes₂.suffix.trans htakes₁.suffix
  obtain ⟨lexemes, rest, hconditions, htakes, hrest⟩ :=
    (FilterClause.groups_eq_ok_iff hs₂.of_append).1 hstated
  exact ⟨before, between, behind, lexemes, hsource.symm, hconditions, rest, htakes, hrest⟩

/-- A filter clause with conditions gives the filter that is read from their tokens. -/
theorem filterClause_conditions {ts ts₂ ts₃ : List Token}
    (hwords : takeWords .filter ["find", "entries", "whose"] ts = .ok ts₂)
    (htaken : filterTokens false ts₂ = .ok (taken, ts₃)) :
    filterClause source ts =
      (FilterClause.filter source taken).map fun filter => (filter, ts₃) := by
  obtain ⟨ts', hfind, hwords⟩ := bind_eq_ok_iff.1 hwords
  obtain ⟨ts'', hentries, hwords⟩ := bind_eq_ok_iff.1 hwords
  obtain ⟨_, hwhose, hnil⟩ := bind_eq_ok_iff.1 hwords
  obtain rfl := Except.ok.inj hnil
  obtain ⟨t, rfl, ht⟩ := takeWord_tokens.1 hentries
  have hfirst : FilterClause.firstText (t :: ts'') = some "entries" :=
    congrArg some (String.toList_inj.1 ht)
  have hother : some "entries" ≠ some "all" := by decide
  simp only [filterClause, hfind, bind, Except.bind, hfirst, if_neg hother, if_true, List.drop_one,
    List.tail_cons, hwhose, htaken]
  cases FilterClause.filter source taken <;> rfl

/-- The filter of a query with conditions is folded from the groups that were read. -/
theorem ConditionTokens.filter_eq (h : ConditionTokens source taken) (hread : read source = .ok q) :
    ∃ stated, FilterClause.groups source taken = .ok stated ∧ q.filter = .ofGroups stated := by
  obtain ⟨dataset, ts₁, ts₂, ts₃, hdataset, hwords, htaken⟩ := h
  obtain ⟨_, _, filter, _, _, _, _, _, hdataset', hfilter, -, -, hparts⟩ := read_eq_ok_iff.1 hread
  obtain ⟨rfl, rfl⟩ := Prod.mk.inj (Except.ok.inj (hdataset.symm.trans hdataset'))
  rw [filterClause_conditions hwords htaken] at hfilter
  obtain ⟨_, hfolded, heq⟩ := map_eq_ok_iff.1 hfilter
  obtain ⟨rfl, -⟩ := Prod.mk.inj heq
  obtain ⟨stated, hstated, rfl⟩ := map_eq_ok_iff.1 hfolded
  exact ⟨stated, hstated, (Query.ofParts_eq_ok_iff.1 hparts).2.1⟩

/-- A sentence that is read has conditions, or asks for all entries. -/
theorem conditionTokens_or_everything (hread : read source = .ok q) :
    (∃ taken, ConditionTokens source taken) ∨ q.filter = .everything := by
  obtain ⟨dataset, ts₁, filter, ts₂, _, _, _, _, hdataset, hfilter, -, -, hparts⟩ :=
    read_eq_ok_iff.1 hread
  rw [(Query.ofParts_eq_ok_iff.1 hparts).2.1]
  obtain ⟨ts, hfind, hfilter⟩ := bind_eq_ok_iff.1 hfilter
  dsimp only at hfilter
  split at hfilter
  · obtain ⟨_, -, hfilter⟩ := bind_eq_ok_iff.1 hfilter
    exact .inr (Prod.mk.inj (Except.ok.inj hfilter)).1.symm
  · split at hfilter
    · rename_i hentries
      obtain ⟨afterWhose, hwhose, hfilter⟩ := bind_eq_ok_iff.1 hfilter
      obtain ⟨⟨taken, ts₃⟩, htaken, -⟩ := bind_eq_ok_iff.1 hfilter
      refine .inl ⟨taken, dataset, ts₁, afterWhose, ts₃, hdataset, ?_, htaken⟩
      cases ts with
      | nil => contradiction
      | cons t ts =>
        have ht : takeWord .filter "entries" (t :: ts) = .ok ts :=
          takeWord_tokens.2 ⟨t, rfl, congrArg String.toList (Option.some.inj hentries)⟩
        refine bind_eq_ok_iff.2 ⟨t :: ts, hfind, bind_eq_ok_iff.2 ⟨ts, ht, ?_⟩⟩
        exact bind_eq_ok_iff.2 ⟨afterWhose, hwhose, rfl⟩
    · contradiction

end Sentence

/-! ## What an explanation shows -/

/-- Groups of which none is empty are the groups of the filter that is folded from them. So a query
with conditions has a filter whose groups are those that were read from the sentence, in which they
stand in this order; an explanation shows these groups, and folding them gives the filter again. -/
theorem Explanation.shows_stated_groups :
    (∀ stated : List (List Predicate), stated ≠ [] → (∀ group ∈ stated, group ≠ []) →
      (Filter.ofGroups stated).groups = stated) ∧
    ∀ (source : String) (q : Query) (taken : List Token),
      Sentence.read source = .ok q → Sentence.ConditionTokens source taken →
      ∃ stated, FilterClause.groups source taken = .ok stated ∧
        Sentence.StandIn source stated ∧
        q.filter.groups = stated ∧
        Filter.ofGroups q.filter.groups = q.filter ∧
        ofSentence source = .accepted q ∧
        groups q = stated.map (List.map Predicate.shown) := by
  refine ⟨fun stated => Filter.groups_ofGroups, ?_⟩
  intro source q taken hread htaken
  obtain ⟨stated, hstated, hfilter⟩ := htaken.filter_eq hread
  have hstand := htaken.standIn hstated
  obtain ⟨hne, hnonempty⟩ := hstand.ne_nil
  have hgroups : q.filter.groups = stated := by
    rw [hfilter, Filter.groups_ofGroups hne hnonempty]
  refine ⟨stated, hstated, hstand, hgroups, ?_, ?_, ?_⟩
  · rw [hgroups, hfilter]
  · rw [ofSentence, hread]
  · rw [groups, hgroups]

/-- A sentence with two groups. -/
def twoGroupsSentence : String :=
  "In courses dataset abc, find entries whose Title is \"a\" and Average is greater than 9 or " ++
    "Title is \"b\"; show Title."

/-- The groups of `twoGroupsSentence`. -/
def twoGroups : List (List Predicate) :=
  [[⟨.title, .text .is false "a"⟩, ⟨.average, .number .greater false (.ofInt 9)⟩],
   [⟨.title, .text .is false "b"⟩]]

/-- A filter of two groups is explained as the two groups that it states. -/
theorem shows_twoGroups :
    (Filter.ofGroups twoGroups).groups = twoGroups ∧
      ∃ q, Sentence.read twoGroupsSentence = .ok q ∧ q.filter.groups = twoGroups ∧
        Explanation.groups q =
          [["Title is \"a\"", "Average is greater than 9"], ["Title is \"b\""]] := by
  obtain ⟨hfolded, hshows⟩ := Explanation.shows_stated_groups
  have hgroups := hfolded twoGroups (by decide) (by decide)
  have hfilter : (Sentence.read twoGroupsSentence).toOption.map Query.filter =
      some (.ofGroups twoGroups) := by decide +kernel
  have htexts : twoGroups.map (List.map Predicate.shown) =
      [["Title is \"a\"", "Average is greater than 9"], ["Title is \"b\""]] := by decide +kernel
  cases hread : Sentence.read twoGroupsSentence with
  | error rejection =>
    simp [hread, Except.toOption] at hfilter
  | ok q =>
    rw [hread] at hfilter
    have hq : q.filter = .ofGroups twoGroups := Option.some.inj hfilter
    rcases Sentence.conditionTokens_or_everything hread with ⟨taken, htaken⟩ | hall
    · obtain ⟨stated, -, -, hstated, -, -, hshown⟩ := hshows _ q taken hread htaken
      rw [hq, hgroups] at hstated
      rw [← hstated, htexts] at hshown
      exact ⟨hgroups, q, rfl, by rw [hq, hgroups], hshown⟩
    · exact absurd (hq.symm.trans hall) (by decide)

end CourseQuery
