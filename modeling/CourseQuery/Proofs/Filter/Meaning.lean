import CourseQuery.Proofs.Record.Complete

/-!
# What a filter means

A record satisfies a predicate when its cell of the predicate's field is accepted by the condition,
and it satisfies a filter when it satisfies every predicate of some group of the filter. Testing a
filter by recursion gives exactly this answer: on a complete record, predicates of the kind of their
field can always be tested, and `Filter.test_of_complete` says that the test of the whole filter
succeeds and holds just when the groups do.
-/

set_option autoImplicit false

namespace CourseQuery

namespace TextRelation

/-- A relation between texts, said of their characters. -/
def Relates : TextRelation → (actual literal : String) → Prop
  | is, s, t => s = t
  | includes, s, t => t.toList <:+: s.toList
  | beginsWith, s, t => t.toList <+: s.toList
  | endsWith, s, t => t.toList <:+ s.toList

/-- A text occurs in another if it is an infix of it. -/
theorem occursIn_iff {part whole : List Char} : occursIn part whole = true ↔ part <:+: whole := by
  induction whole with
  | nil => simp [occursIn]
  | cons c rest ih => simp [occursIn, ih, List.infix_cons_iff]

/-- A relation of texts is tested as it is meant. -/
theorem relates_iff {r : TextRelation} {s t : String} : r.relates s t = true ↔ r.Relates s t := by
  cases r with
  | is => simp [relates, Relates]
  | includes => simp [relates, Relates, occursIn_iff]
  | beginsWith => simp [relates, Relates]
  | endsWith => simp [relates, Relates]

instance (r : TextRelation) (s t : String) : Decidable (r.Relates s t) :=
  decidable_of_iff _ relates_iff

end TextRelation

/-- A condition accepts a cell of its kind to which it applies. Negated relations between texts are
complements, those between numbers have a comparison of their own. -/
def Condition.Accepts : Condition → Cell → Prop
  | .number relation negated bound, .number x => relation.holds negated x bound = true
  | .text relation false literal, .text s => relation.Relates s literal
  | .text relation true literal, .text s => ¬ relation.Relates s literal
  | _, _ => False

instance : (condition : Condition) → (c : Cell) → Decidable (condition.Accepts c)
  | .number relation negated bound, .number x =>
    inferInstanceAs (Decidable (relation.holds negated x bound = true))
  | .text relation false literal, .text s =>
    inferInstanceAs (Decidable (relation.Relates s literal))
  | .text relation true literal, .text s =>
    inferInstanceAs (Decidable (¬ relation.Relates s literal))
  | .number .., .text _ => instDecidableFalse
  | .text _ false _, .number _ => instDecidableFalse
  | .text _ true _, .number _ => instDecidableFalse

/-- A record satisfies a predicate when the condition accepts its cell. -/
def Predicate.Satisfied (p : Predicate) (r : Record) : Prop :=
  ∃ c, r.cell p.field = some c ∧ p.condition.Accepts c

instance (p : Predicate) (r : Record) : Decidable (p.Satisfied r) :=
  decidable_of_iff (∃ c ∈ r.cell p.field, p.condition.Accepts c) Iff.rfl

/-- Where a predicate can be tested, the test tells whether the record satisfies it. -/
theorem Predicate.satisfied_iff_of_test {p : Predicate} {r : Record} {b : Bool}
    (h : p.test r = .ok b) : b = true ↔ p.Satisfied r := by
  obtain ⟨f, condition⟩ := p
  unfold test at h
  dsimp only at h
  split at h
  · contradiction
  · rename_i relation negated bound x hx
    rw [← Except.ok.inj h]
    simp [Satisfied, Condition.Accepts, hx]
  · rename_i relation negated literal s hs
    rw [← Except.ok.inj h]
    cases negated with
    | false =>
      simp [Satisfied, Condition.Accepts, hs, TextRelation.holds, TextRelation.relates_iff]
    | true =>
      simp [Satisfied, Condition.Accepts, hs, TextRelation.holds, ← TextRelation.relates_iff]
  · contradiction

/-- A predicate of the kind of its field can be tested on every complete record. -/
theorem Predicate.test_of_complete {p : Predicate} {r : Record} (hp : p.wellTyped = true)
    (hr : r.Complete) : ∃ b, p.test r = .ok b := by
  obtain ⟨f, condition⟩ := p
  cases condition with
  | number relation negated bound =>
    have hf : f.kind = .number := (of_decide_eq_true hp).symm
    obtain ⟨x, hx⟩ := hr.number hf
    exact ⟨relation.holds negated x bound, by simp [test, hx]⟩
  | text relation negated literal =>
    have hf : f.kind = .text := (of_decide_eq_true hp).symm
    obtain ⟨s, hs⟩ := hr.text hf
    exact ⟨relation.holds negated s literal, by simp [test, hs]⟩

namespace Filter

/-- A record satisfies a filter when it satisfies every predicate of some group. -/
def Accepts (e : Filter) (r : Record) : Prop :=
  ∃ group ∈ e.groups, ∀ p ∈ group, p.Satisfied r

instance (e : Filter) (r : Record) : Decidable (e.Accepts r) :=
  inferInstanceAs (Decidable (∃ group ∈ e.groups, ∀ p ∈ group, p.Satisfied r))

/-- Every record is accepted when all are asked for. -/
theorem accepts_everything (r : Record) : everything.Accepts r := by
  simp [Accepts, groups]

/-- A predicate accepts the records that satisfy it. -/
theorem accepts_atom {p : Predicate} {r : Record} : (atom p).Accepts r ↔ p.Satisfied r := by
  simp [Accepts, groups]

/-- A disjunction accepts what one of its sides accepts. -/
theorem accepts_or {a b : Filter} {r : Record} :
    (or a b).Accepts r ↔ a.Accepts r ∨ b.Accepts r := by
  simp only [Accepts, groups, List.mem_append]
  constructor
  · rintro ⟨group, hgroup | hgroup, h⟩
    · exact Or.inl ⟨group, hgroup, h⟩
    · exact Or.inr ⟨group, hgroup, h⟩
  · rintro (⟨group, hgroup, h⟩ | ⟨group, hgroup, h⟩)
    · exact ⟨group, Or.inl hgroup, h⟩
    · exact ⟨group, Or.inr hgroup, h⟩

/-- A group of a conjunction joins a group of one side and a group of the other. -/
theorem accepts_and {a b : Filter} {r : Record} :
    (and a b).Accepts r ↔ a.Accepts r ∧ b.Accepts r := by
  simp only [Accepts, groups, List.mem_flatMap, List.mem_map]
  constructor
  · rintro ⟨_, ⟨left, hleft, right, hright, rfl⟩, h⟩
    exact ⟨⟨left, hleft, fun p hp => h p (List.mem_append_left _ hp)⟩,
      ⟨right, hright, fun p hp => h p (List.mem_append_right _ hp)⟩⟩
  · rintro ⟨⟨left, hleft, hl⟩, ⟨right, hright, hr⟩⟩
    refine ⟨left ++ right, ⟨left, hleft, right, hright, rfl⟩, fun p hp => ?_⟩
    rcases List.mem_append.1 hp with hp | hp
    · exact hl p hp
    · exact hr p hp

/-- Every predicate of a filter can be tested on a record. -/
def Testable (e : Filter) (r : Record) : Prop :=
  ∀ p ∈ e.predicates, ∃ b, p.test r = .ok b

/-- A filter whose predicates can be tested can be tested, and the test tells whether the record
satisfies some group. -/
theorem test_of_testable {e : Filter} {r : Record} (he : e.Testable r) :
    ∃ b, e.test r = .ok b ∧ (b = true ↔ e.Accepts r) := by
  induction e with
  | everything => exact ⟨true, rfl, by simp [accepts_everything]⟩
  | atom p =>
    obtain ⟨b, htest⟩ := he p (by simp [predicates])
    exact ⟨b, htest, (Predicate.satisfied_iff_of_test htest).trans accepts_atom.symm⟩
  | and a b iha ihb =>
    obtain ⟨x, hx, hax⟩ := iha fun p hp => he p (List.mem_append_left _ hp)
    obtain ⟨y, hy, hby⟩ := ihb fun p hp => he p (List.mem_append_right _ hp)
    refine ⟨x && y, ?_, ?_⟩
    · cases x <;> simp [test, hx, hy]
    · rw [Bool.and_eq_true, hax, hby, accepts_and]
  | or a b iha ihb =>
    obtain ⟨x, hx, hax⟩ := iha fun p hp => he p (List.mem_append_left _ hp)
    obtain ⟨y, hy, hby⟩ := ihb fun p hp => he p (List.mem_append_right _ hp)
    refine ⟨x || y, ?_, ?_⟩
    · cases x <;> simp [test, hx, hy]
    · rw [Bool.or_eq_true, hax, hby, accepts_or]

/-- Every predicate of a filter has the kind of its field. -/
def WellTyped (e : Filter) : Prop :=
  ∀ p ∈ e.predicates, p.wellTyped = true

/-- A filter of well typed predicates can be tested on every complete record, and the test tells
whether the record satisfies some group. -/
theorem test_of_complete {e : Filter} {r : Record} (he : e.WellTyped) (hr : r.Complete) :
    ∃ b, e.test r = .ok b ∧ (b = true ↔ e.Accepts r) :=
  test_of_testable fun p hp => Predicate.test_of_complete (he p hp) hr

end Filter

end CourseQuery
