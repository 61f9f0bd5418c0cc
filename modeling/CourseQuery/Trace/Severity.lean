/-!
# Severities

Every trace entry has a severity, and a threshold decides which entries are written: those whose
severity is at least the threshold. Settings name a threshold in lower case.
-/

set_option autoImplicit false

namespace CourseQuery.Trace

/-- How much an entry matters, least first. -/
inductive Severity where
  | trace
  | info
  | warn
  | error
  | fatal
deriving DecidableEq, Repr

namespace Severity

/-- Every severity, least first. -/
def all : List Severity := [trace, info, warn, error, fatal]

/-- The place of a severity in the order. -/
def rank : Severity → Nat
  | trace => 0
  | info => 1
  | warn => 2
  | error => 3
  | fatal => 4

/-- A severity is enabled when it is at least the threshold. -/
def enabled (threshold severity : Severity) : Bool :=
  threshold.rank ≤ severity.rank

/-- The name of a severity in an entry. -/
def name : Severity → String
  | trace => "TRACE"
  | info => "INFO"
  | warn => "WARN"
  | error => "ERROR"
  | fatal => "FATAL"

/-- The name of a severity in settings. -/
def level : Severity → String
  | trace => "trace"
  | info => "info"
  | warn => "warn"
  | error => "error"
  | fatal => "fatal"

/-- The severity that settings name. -/
def ofLevel? (s : String) : Option Severity :=
  all.find? fun severity => severity.level = s

end Severity

end CourseQuery.Trace
