import CourseQuery.Trace.Scope

/-!
# The logger

A logger writes the line of an entry at once if the threshold lets it through, and nothing else.
Work that logs carries the logger along; its scopes log their beginning and their end, and log again
when they are left without an end.
-/

set_option autoImplicit false

namespace CourseQuery.Trace

/-- A logger. -/
structure Logger where
  threshold : Severity
  /-- How many milliseconds each timed piece of work takes, in turn. -/
  stopwatch : Nat → Nat
  /-- How many pieces of work were timed. -/
  timed : Nat
  /-- The lines written, without their ends. -/
  written : List String

namespace Logger

/-- A logger that has written nothing. -/
def start (threshold : Severity) (stopwatch : Nat → Nat) : Logger :=
  ⟨threshold, stopwatch, 0, []⟩

/-- Logs an entry. The time is taken whether or not the line is written. -/
def log (e : Entry) (l : Logger) : Logger :=
  let elapsed := l.stopwatch l.timed
  { l with
    timed := if e.timed then l.timed + 1 else l.timed
    written :=
      if l.threshold.enabled e.severity then l.written ++ [e.line elapsed] else l.written }

/-- Logs entries in order. -/
def record (l : Logger) (trace : List Entry) : Logger :=
  trace.foldl (fun l e => l.log e) l

end Logger

/-- Work that logs. -/
abbrev Logging := StateM Logger

/-- Logs an entry. -/
def log (e : Entry) : Logging Unit :=
  modify (Logger.log e)

/-- A scope that was entered. -/
structure OpenScope where
  scope : Scope
  /-- Whether the end of the scope was logged. -/
  closed : Bool

/-- Enters a scope. -/
def Scope.enter (s : Scope) : Logging OpenScope := do
  log s.begun
  return ⟨s, false⟩

namespace OpenScope

/-- Ends a scope with success. -/
def complete (s : OpenScope) (more : List (String × String)) : Logging OpenScope := do
  log (s.scope.completed more)
  return { s with closed := true }

/-- Ends a scope with a failure. -/
def fail (s : OpenScope) (reason : String) : Logging OpenScope := do
  log (s.scope.failed reason)
  return { s with closed := true }

/-- Leaves a scope. One without an end logs that. -/
def leave (s : OpenScope) : Logging Unit := do
  unless s.closed do
    log s.scope.abandoned

end OpenScope

end CourseQuery.Trace
