import CourseQuery.Filter.Condition

/-!
# Filter expressions

A filter is everything, a predicate, or two filters joined by `and` or `or`. A sentence gives it as
groups: the predicates of a group are joined by `and`, the groups by `or`. `Filter.ofGroups` folds
groups into an expression and `Filter.groups` is the disjunctive normal form of one, in which
everything is a single empty group. A filter can be tested on a record by recursion or through its
groups; both stop at the first part that settles the answer or cannot be tested.
-/

set_option autoImplicit false

namespace CourseQuery

/-- A filter expression. -/
inductive Filter where
  /-- Satisfied by every record. -/
  | everything
  | atom (p : Predicate)
  | and (a b : Filter)
  | or (a b : Filter)
deriving DecidableEq, Repr

namespace Filter

instance : Inhabited Filter := ⟨everything⟩

/-- Joins a list of filters from the left; none for the empty list. -/
def join? (combine : Filter → Filter → Filter) : List Filter → Option Filter
  | [] => none
  | e :: es => some (es.foldl combine e)

/-- The expression of a list of groups. Empty groups are dropped; no groups at all are satisfied by
everything. -/
def ofGroups (groups : List (List Predicate)) : Filter :=
  (join? or (groups.filterMap fun group => join? and (group.map atom))).getD everything

/-- The disjunctive normal form. -/
def groups : Filter → List (List Predicate)
  | everything => [[]]
  | atom p => [[p]]
  | or a b => a.groups ++ b.groups
  | and a b => a.groups.flatMap fun l => b.groups.map fun r => l ++ r

/-- The predicates of an expression, in order. -/
def predicates : Filter → List Predicate
  | everything => []
  | atom p => [p]
  | and a b => a.predicates ++ b.predicates
  | or a b => a.predicates ++ b.predicates

/-- A filter as a person reads it; nothing shows how its parts are nested. -/
def shown : Filter → String
  | everything => "all entries"
  | atom p => p.shown
  | and a b => a.shown ++ " and " ++ b.shown
  | or a b => a.shown ++ " or " ++ b.shown

/-- Whether a record satisfies a filter. -/
def test : Filter → Record → Except Record.Defect Bool
  | everything, _ => .ok true
  | atom p, r => p.test r
  | and a b, r =>
    match a.test r with
    | .ok true => b.test r
    | answer => answer
  | or a b, r =>
    match a.test r with
    | .ok false => b.test r
    | answer => answer

/-- Whether a record satisfies every predicate of a group, tested from the left up to the first that
fails. -/
def testGroup : List Predicate → Record → Except Record.Defect Bool
  | [], _ => .ok true
  | p :: ps, r =>
    match p.test r with
    | .ok true => testGroup ps r
    | answer => answer

/-- Whether a record satisfies some group, tested from the left up to the first that holds. -/
def testGroups : List (List Predicate) → Record → Except Record.Defect Bool
  | [], _ => .ok false
  | g :: gs, r =>
    match testGroup g r with
    | .ok false => testGroups gs r
    | answer => answer

end Filter

end CourseQuery
