import CourseQuery.Proofs.Filter.Groups
import CourseQuery.Proofs.Filter.Meaning
import Mathlib.Data.List.Basic

/-!
# Filters folded from their groups

The groups of a filter can be folded into an expression again. An empty group stands for everything,
but the fold drops it, and takes a list of empty groups alone for everything. So the folded filter
never accepts more than the filter does, and it accepts less just when an empty group is dropped
beside others of which none holds. A filter that is read from a sentence has no empty group, or no
other.
-/

set_option autoImplicit false

namespace CourseQuery.Filter

variable {e : Filter} {r : Record}

/-! ## The groups of a filter -/

/-- Every filter has a group. -/
theorem groups_ne_nil (e : Filter) : e.groups ≠ [] := by
  induction e with
  | everything => exact List.cons_ne_nil _ _
  | atom p => exact List.cons_ne_nil _ _
  | or a b iha _ => exact List.append_ne_nil_of_left_ne_nil iha _
  | and a b iha ihb =>
    obtain ⟨left, hleft⟩ := List.exists_mem_of_ne_nil _ iha
    obtain ⟨right, hright⟩ := List.exists_mem_of_ne_nil _ ihb
    exact List.ne_nil_of_mem
      (List.mem_flatMap.2 ⟨left, hleft, List.mem_map.2 ⟨right, hright, rfl⟩⟩)

/-- The groups of a filter are made of its predicates. -/
theorem mem_predicates_of_mem_groups {group : List Predicate} {p : Predicate}
    (hgroup : group ∈ e.groups) (hp : p ∈ group) : p ∈ e.predicates := by
  induction e generalizing group with
  | everything =>
    rw [List.mem_singleton.1 hgroup] at hp
    contradiction
  | atom q =>
    rw [List.mem_singleton.1 hgroup] at hp
    exact hp
  | or a b iha ihb =>
    rcases List.mem_append.1 hgroup with hgroup | hgroup
    · exact List.mem_append_left _ (iha hgroup hp)
    · exact List.mem_append_right _ (ihb hgroup hp)
  | and a b iha ihb =>
    obtain ⟨left, hleft, hgroup⟩ := List.mem_flatMap.1 hgroup
    obtain ⟨right, hright, rfl⟩ := List.mem_map.1 hgroup
    rcases List.mem_append.1 hp with hp | hp
    · exact List.mem_append_left _ (iha hleft hp)
    · exact List.mem_append_right _ (ihb hright hp)

/-! ## Folding groups -/

/-- Empty groups do not show in the expression of a list of groups. -/
theorem ofGroups_filter (stated : List (List Predicate)) :
    ofGroups (stated.filter fun group => !group.isEmpty) = ofGroups stated := by
  have hjoin : ∀ group : List Predicate,
      (if (!group.isEmpty) = true then join? and (group.map atom) else none) =
        join? and (group.map atom) := by
    intro group
    cases group <;> rfl
  simp only [ofGroups, List.filterMap_filter, hjoin]

/-- The expression of a list of groups accepts what some group with a predicate accepts, and
everything if there is no such group. -/
theorem accepts_ofGroups {stated : List (List Predicate)} :
    (ofGroups stated).Accepts r ↔ (∀ group ∈ stated, group = []) ∨
      ∃ group ∈ stated, group ≠ [] ∧ ∀ p ∈ group, p.Satisfied r := by
  have hmem : ∀ {group}, group ∈ stated.filter (fun group => !group.isEmpty) ↔
      group ∈ stated ∧ group ≠ [] := by
    simp [List.mem_filter]
  rw [← ofGroups_filter]
  generalize hkept : stated.filter (fun group => !group.isEmpty) = kept at hmem ⊢
  by_cases hnil : kept = []
  · subst hnil
    refine iff_of_true (accepts_everything r) (Or.inl fun group hgroup => ?_)
    by_contra hne
    exact absurd (hmem.2 ⟨hgroup, hne⟩) List.not_mem_nil
  · have hgroups := groups_ofGroups hnil fun group hgroup => (hmem.1 hgroup).2
    obtain ⟨first, hfirst⟩ := List.exists_mem_of_ne_nil _ hnil
    have hnotAll : ¬ ∀ group ∈ stated, group = [] := fun h =>
      (hmem.1 hfirst).2 (h first (hmem.1 hfirst).1)
    simp only [Accepts, hgroups, hmem, hnotAll, false_or, and_assoc]

/-- What can be tested of a filter can be tested of its groups folded. -/
theorem Testable.ofGroups_groups (h : e.Testable r) : (ofGroups e.groups).Testable r := by
  intro p hp
  rw [predicates_ofGroups] at hp
  obtain ⟨group, hgroup, hp⟩ := List.mem_flatten.1 hp
  exact h p (mem_predicates_of_mem_groups hgroup hp)

/-- An empty group of a filter, which stands for everything, is beside others, and each of these has
a predicate that a record fails. -/
structure OnlyEmptyHolds (e : Filter) (r : Record) : Prop where
  empty : [] ∈ e.groups
  others : ∃ group ∈ e.groups, group ≠ []
  fails : ∀ group ∈ e.groups, group ≠ [] → ∃ p ∈ group, p.test r = .ok false

/-- A group of predicates that can be tested either holds or has one that fails. -/
theorem fails_iff_not_satisfied {group : List Predicate}
    (h : ∀ p ∈ group, ∃ b, p.test r = .ok b) :
    (∃ p ∈ group, p.test r = .ok false) ↔ ¬ ∀ p ∈ group, p.Satisfied r := by
  rw [not_forall]
  refine exists_congr fun p => ?_
  rw [Classical.not_imp]
  refine and_congr_right fun hp => ?_
  obtain ⟨b, hb⟩ := h p hp
  rw [← Predicate.satisfied_iff_of_test hb, hb]
  simp

/-- The folded filter accepts what the filter does, unless only an empty group holds. -/
theorem accepts_ofGroups_groups (h : e.Testable r) :
    (ofGroups e.groups).Accepts r ↔ e.Accepts r ∧ ¬ e.OnlyEmptyHolds r := by
  have hfails : ∀ group ∈ e.groups, (∃ p ∈ group, p.test r = .ok false) ↔
      ¬ ∀ p ∈ group, p.Satisfied r := fun group hgroup =>
    fails_iff_not_satisfied fun p hp => h p (mem_predicates_of_mem_groups hgroup hp)
  rw [accepts_ofGroups]
  constructor
  · rintro (hall | ⟨group, hgroup, hne, hholds⟩)
    · obtain ⟨group, hgroup⟩ := List.exists_mem_of_ne_nil _ e.groups_ne_nil
      refine ⟨⟨group, hgroup, fun p hp => ?_⟩, ?_⟩
      · rw [hall group hgroup] at hp
        contradiction
      · rintro ⟨-, ⟨other, hother, hne⟩, -⟩
        exact hne (hall other hother)
    · exact ⟨⟨group, hgroup, hholds⟩, fun hempty =>
        (hfails group hgroup).1 (hempty.fails group hgroup hne) hholds⟩
  · rintro ⟨⟨group, hgroup, hholds⟩, hsome⟩
    by_cases hne : group = []
    · subst hne
      by_contra hnone
      rw [not_or, not_forall] at hnone
      obtain ⟨⟨other, hother⟩, hnone⟩ := hnone
      obtain ⟨hother, hne⟩ := Classical.not_imp.1 hother
      refine hsome ⟨hgroup, ⟨other, hother, hne⟩, fun group hgroup hne => ?_⟩
      exact (hfails group hgroup).2 fun hholds => hnone ⟨group, hgroup, hne, hholds⟩
    · exact Or.inr ⟨group, hgroup, hne, hholds⟩

/-! ## Normalising -/

/-- Folding the groups of a filter keeps its answer on a record that its predicates can be tested
on, unless an empty group is all that holds: then the filter holds and the folded one does not. -/
theorem test_ofGroups_groups (e : Filter) (r : Record) (h : e.Testable r) :
    ((ofGroups e.groups).test r = e.test r ↔ ¬ e.OnlyEmptyHolds r) ∧
      (e.OnlyEmptyHolds r → e.test r = .ok true ∧ (ofGroups e.groups).test r = .ok false) := by
  obtain ⟨b, htest, hb⟩ := test_of_testable h
  obtain ⟨c, hfolded, hc⟩ := test_of_testable h.ofGroups_groups
  have haccepts := accepts_ofGroups_groups h
  rw [← hb, ← hc] at haccepts
  have hholds : e.OnlyEmptyHolds r → b = true := fun hempty =>
    hb.2 ⟨[], hempty.empty, by simp⟩
  rw [htest, hfolded]
  by_cases hempty : e.OnlyEmptyHolds r
  · obtain rfl := hholds hempty
    have hfalse : c = false := Bool.eq_false_iff.2 fun hc => (haccepts.1 hc).2 hempty
    simp [hempty, hfalse]
  · have hsame : c = b := Bool.eq_iff_iff.2 (haccepts.trans (and_iff_left hempty))
    simp [hempty, hsame]

/-- Everything, or a title. -/
def everythingOrTitle : Filter :=
  .or .everything (.atom ⟨.title, .text .is false "a"⟩)

/-- A record with another title. -/
def otherTitle : Record :=
  .ofCells [(.title, .text "b")]

/-- The filter can be tested on the record. -/
theorem testable_everythingOrTitle : everythingOrTitle.Testable otherTitle := by
  intro p hp
  rw [List.mem_singleton.1 hp]
  exact ⟨false, rfl⟩

/-- The filter accepts a record that the filter rebuilt from its groups does not. -/
theorem test_everythingOrTitle :
    everythingOrTitle.Testable otherTitle ∧
      (everythingOrTitle.test otherTitle = .ok true ∧
        (ofGroups everythingOrTitle.groups).test otherTitle = .ok false) := by
  have hempty : everythingOrTitle.OnlyEmptyHolds otherTitle := by
    refine ⟨by decide, by decide, ?_⟩
    intro group hgroup hne
    rcases List.mem_cons.1 hgroup with rfl | hgroup
    · contradiction
    · rw [List.mem_singleton.1 hgroup]
      exact ⟨_, List.mem_singleton_self _, rfl⟩
  exact ⟨testable_everythingOrTitle,
    (test_ofGroups_groups _ _ testable_everythingOrTitle).2 hempty⟩

/-- The folded filter need not have the answer of the filter. -/
theorem ofGroups_groups_loses_everything :
    ¬ ∀ (e : Filter) (r : Record), e.Testable r →
      (ofGroups e.groups).test r = e.test r := by
  intro h
  have hsame := h everythingOrTitle otherTitle testable_everythingOrTitle
  have htest : everythingOrTitle.test otherTitle = .ok true := rfl
  have hfolded : (ofGroups everythingOrTitle.groups).test otherTitle = .ok false := rfl
  rw [htest, hfolded] at hsame
  exact Bool.false_ne_true (Except.ok.inj hsame)

end CourseQuery.Filter
