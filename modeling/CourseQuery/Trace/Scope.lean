import CourseQuery.Trace.Entry

/-!
# Scopes

A scope is a piece of work that traces its beginning and its end. Its fields stand on the entries of
its beginning and of its regular end; a scope that is given up without an end traces only that.
-/

set_option autoImplicit false

namespace CourseQuery.Trace

/-- A piece of work with a name and the fields of its entries. -/
structure Scope where
  name : String
  fields : List (String × String)
deriving DecidableEq, Repr

namespace Scope

/-- The entry of the beginning. -/
def begun (s : Scope) : Entry :=
  ⟨.info, s.name ++ "_BEGIN", s.fields, false⟩

/-- The entry of a successful end, with more fields; it tells the time taken. -/
def completed (s : Scope) (more : List (String × String)) : Entry :=
  ⟨.info, s.name ++ "_COMPLETE", s.fields ++ more, true⟩

/-- The entry of a failure. -/
def failed (s : Scope) (reason : String) : Entry :=
  ⟨.error, s.name ++ "_FAILED", s.fields ++ [("reason", reason)], false⟩

/-- The entry of a scope without an end. -/
def abandoned (s : Scope) : Entry :=
  ⟨.warn, s.name ++ "_INCOMPLETE", [("reason", "scope dropped without completion")], false⟩

end Scope

end CourseQuery.Trace
