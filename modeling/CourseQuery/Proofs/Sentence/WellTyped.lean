import CourseQuery.Proofs.Filter.Groups
import CourseQuery.Proofs.Filter.Meaning
import CourseQuery.Proofs.Query
import CourseQuery.Proofs.Sentence.Clauses

/-!
# A sentence compares each field by its kind

The reader chooses the grammar of a condition by the kind of its field, so every predicate of a
filter that is read is well typed, and so is the filter of every query.
-/

set_option autoImplicit false

namespace CourseQuery

namespace FilterClause

variable {source : String} {ts rest : List Token}

/-- A condition that is read for a kind of cell applies to that kind. -/
theorem condition_kind {kind : CellKind} {c : Condition}
    (h : condition source kind ts = .ok (c, rest)) : c.kind = kind := by
  cases kind with
  | number =>
    obtain ⟨⟨op, afterPhrase⟩, _, h⟩ := bind_eq_ok_iff.1 h
    obtain ⟨⟨x, afterBound⟩, _, h⟩ := bind_eq_ok_iff.1 h
    rw [← (Prod.mk.inj (Except.ok.inj h)).1]
    rfl
  | text =>
    obtain ⟨⟨op, afterPhrase⟩, _, h⟩ := bind_eq_ok_iff.1 h
    obtain ⟨⟨text, afterLiteral⟩, _, h⟩ := bind_eq_ok_iff.1 h
    rw [← (Prod.mk.inj (Except.ok.inj h)).1]
    rfl

/-- A predicate that is read has the kind of its field. -/
theorem predicate_wellTyped {p : Predicate} (h : predicate source ts = .ok (p, rest)) :
    p.wellTyped = true := by
  cases ts with
  | nil => simp [predicate] at h
  | cons t ts =>
    rw [predicate] at h
    split at h
    · contradiction
    · obtain ⟨⟨c, rest'⟩, hcondition, h⟩ := ok_of_map h
      rw [← (Prod.mk.inj h).1]
      exact decide_eq_true (condition_kind hcondition)

/-- Every predicate of the groups that are read is well typed, if those of the current group are. -/
theorem moreGroups_wellTyped {group : List Predicate} {gs : List (List Predicate)}
    (hgroup : ∀ p ∈ group, p.wellTyped = true) (h : moreGroups source group ts = .ok gs) :
    ∀ p ∈ gs.flatten, p.wellTyped = true := by
  fun_induction moreGroups source group ts generalizing gs with
  | case1 group =>
    rw [← Except.ok.inj h]
    simpa using hgroup
  | case2 => contradiction
  | case3 group t ts _ p rest hread _ ih =>
    refine ih (fun q hq => ?_) h
    rcases List.mem_cons.1 hq with rfl | hq
    · exact predicate_wellTyped hread
    · exact hgroup q hq
  | case4 => contradiction
  | case5 group t ts _ _ p rest hread _ ih =>
    obtain ⟨gs', hgs', rfl⟩ := ok_of_map h
    have hp : ∀ q ∈ [p], q.wellTyped = true := by
      simpa using predicate_wellTyped hread
    intro q hq
    rcases List.mem_append.1 (List.flatten_cons ▸ hq) with hq | hq
    · exact hgroup q (List.mem_reverse.1 hq)
    · exact ih hp hgs' q hq
  | case6 => contradiction

/-- The filter of a clause is well typed. -/
theorem filter_wellTyped {e : Filter} (h : filter source ts = .ok e) : e.WellTyped := by
  obtain ⟨gs, hgs, rfl⟩ := ok_of_map h
  intro p hp
  rw [Filter.predicates_ofGroups] at hp
  unfold groups at hgs
  split at hgs
  · contradiction
  · split at hgs
    · contradiction
    · rename_i q rest hread
      refine moreGroups_wellTyped ?_ hgs p hp
      simpa using predicate_wellTyped hread

end FilterClause

namespace Sentence

/-- The filter of a sentence is well typed; everything has no predicate. -/
theorem filterClause_wellTyped {source : String} {ts rest : List Token} {e : Filter}
    (h : filterClause source ts = .ok (e, rest)) : e.WellTyped := by
  obtain ⟨afterFind, _, h⟩ := bind_eq_ok_iff.1 h
  dsimp only at h
  split at h
  · obtain ⟨afterEntries, _, h⟩ := bind_eq_ok_iff.1 h
    rw [← (Prod.mk.inj (Except.ok.inj h)).1]
    intro p hp
    contradiction
  · split at h
    · obtain ⟨afterWhose, _, h⟩ := bind_eq_ok_iff.1 h
      obtain ⟨⟨taken, afterMark⟩, _, h⟩ := bind_eq_ok_iff.1 h
      obtain ⟨e', hfilter, h⟩ := bind_eq_ok_iff.1 h
      rw [← (Prod.mk.inj (Except.ok.inj h)).1]
      exact FilterClause.filter_wellTyped hfilter
    · contradiction

/-- The filter of every query that is read is well typed. -/
theorem read_wellTyped {source : String} {q : Query} (h : read source = .ok q) :
    q.filter.WellTyped := by
  obtain ⟨dataset, ts₁, filter, ts₂, display, order, ts₃, sort, -, hfilter, -, -, hparts⟩ :=
    read_eq_ok_iff.1 h
  rw [(Query.ofParts_eq_ok_iff.1 hparts).2.1]
  exact filterClause_wellTyped hfilter

end Sentence

end CourseQuery
