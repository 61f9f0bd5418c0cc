import CourseQuery.Json.Writer
import CourseQuery.Trace.Severity

/-!
# Trace entries

Operations return the entries they trace beside their results, and nothing they return depends on
which entries are written. An entry is written as one line, a JSON object with the event, the
severity and then the fields in the order of their keys, equal keys in the order given. Its strings
escape every control character, so that no entry can break a line. How long a piece of work took is
known only to whoever writes the line, so a timed entry gets that field when it is written.
-/

set_option autoImplicit false

namespace CourseQuery.Trace

/-- One thing that happened. -/
structure Entry where
  severity : Severity
  event : String
  fields : List (String × String)
  /-- Whether the line tells how long the work took. -/
  timed : Bool := false
deriving DecidableEq, Repr

/-- The events of the library. -/
inductive Event where
  | configLoaded
  | queryReceived
  | queryParsed
  | queryExecuted
  | queryRejected
  | datasetLoaded
  | datasetRemoved
  | importRowSkipped
  | datasetUnreadable
  | serving
deriving DecidableEq, Repr

namespace Event

/-- Every event. -/
def all : List Event :=
  [configLoaded, queryReceived, queryParsed, queryExecuted, queryRejected, datasetLoaded,
   datasetRemoved, importRowSkipped, datasetUnreadable, serving]

/-- The name of an event in an entry. -/
def name : Event → String
  | configLoaded => "CONFIG_LOADED"
  | queryReceived => "QUERY_BEGIN"
  | queryParsed => "QUERY_PARSED"
  | queryExecuted => "QUERY_COMPLETE"
  | queryRejected => "QUERY_REJECTED"
  | datasetLoaded => "DATASET_LOADED"
  | datasetRemoved => "DATASET_REMOVED"
  | importRowSkipped => "IMPORT_ROW_SKIPPED"
  | datasetUnreadable => "DATASET_UNREADABLE"
  | serving => "COURSEQL_SERVING"

/-- The severity of an event. -/
def severity : Event → Severity
  | queryParsed | datasetLoaded => .trace
  | queryRejected | importRowSkipped | datasetUnreadable => .warn
  | configLoaded | queryReceived | queryExecuted | datasetRemoved | serving => .info

/-- The entry of an event. -/
def entry (e : Event) (fields : List (String × String)) : Entry :=
  ⟨e.severity, e.name, fields, false⟩

end Event

namespace Entry

/-- A control character of Unicode. -/
def isControl (c : Char) : Bool :=
  c.toNat < 0x20 || (0x7F ≤ c.toNat && c.toNat < 0xA0)

/-- A character inside a string of an entry. -/
def escapeChar (c : Char) : List Char :=
  if c = '"' then ['\\', '"']
  else if c = '\\' then ['\\', '\\']
  else if c = '\n' then ['\\', 'n']
  else if c = '\r' then ['\\', 'r']
  else if c = '\t' then ['\\', 't']
  else if isControl c then unicodeEscape c
  else [c]

/-- A string of an entry, in quotes. -/
def quoted (s : String) : List Char :=
  '"' :: s.toList.flatMap escapeChar ++ ['"']

/-- The fields of the line of an entry as given, the time taken, in milliseconds, coming last. -/
def timedFields (elapsed : Nat) (e : Entry) : List (String × String) :=
  if e.timed then e.fields ++ [("elapsed_ms", toString elapsed)] else e.fields

/-- The members of the line of an entry: the fields in the order of their keys, equal keys in the
order given, behind the event and the severity. -/
def members (elapsed : Nat) (e : Entry) : List (String × String) :=
  ("event", e.event) :: ("severity", e.severity.name) ::
    (e.timedFields elapsed).mergeSort fun a b => decide (a.1 ≤ b.1)

/-- The line of an entry, without its end. -/
def line (elapsed : Nat) (e : Entry) : String :=
  let parts := (e.members elapsed).map fun (key, value) => quoted key ++ ':' :: quoted value
  String.ofList ('\x7b' :: List.intercalate [','] parts ++ ['\x7d'])

/-- The lines that a threshold lets through. -/
def lines (threshold : Severity) (elapsed : Nat) (entries : List Entry) : List String :=
  (entries.filter fun e => threshold.enabled e.severity).map (line elapsed)

end Entry

/-- What is written of an event with its fields: a line with its end. -/
def written (severity : Severity) (event : String) (fields : List (String × String)) : String :=
  Entry.line 0 ⟨severity, event, fields, false⟩ ++ "\n"

end CourseQuery.Trace
