import CourseQuery.Bytes
import CourseQuery.Json.Reader
import CourseQuery.Text.Utf8
import CourseQuery.Trace.Entry

/-!
# Settings

The settings name the directory of the data and, if wanted, the least severity that is traced. They
are a JSON object; an array of the two says the same.
-/

set_option autoImplicit false

namespace CourseQuery.CommandLine

/-- The settings of the program. -/
structure Settings where
  dataDirectory : String
  level : Trace.Severity
deriving DecidableEq, Repr

namespace Settings

/-- Why a file holds no settings. -/
inductive Fault where
  | unreadable
  | document
  | noDirectory
  | level (name : String)
deriving DecidableEq, Repr

/-- The wording of a fault. -/
def Fault.message : Fault → String
  | unreadable => "Failed to read config: no such text file"
  | document => "Invalid config JSON: expected an object with the texts data_dir and log_level"
  | noDirectory => "data_dir must not be empty"
  | level name =>
    s!"Invalid log_level: '{name}'. Expected one of trace, info, warn, error, fatal."

/-- The names of the members. -/
def memberNames : List String := ["data_dir", "log_level"]

/-- The level when none is given. -/
def defaultLevel : String := "info"

/-- The directory and the level that a text names, whatever they are. -/
def parts? (s : String) : Option (String × String) := do
  let members ← Json.fields? memberNames s
  let directory ← (← Json.only? "data_dir" members).string?
  let level ←
    if (Json.valuesOf "log_level" members).isEmpty then some defaultLevel
    else (Json.only? "log_level" members).bind Json.string?
  some (directory, level)

/-- The settings that a text spells. -/
def parse (s : String) : Except Fault Settings :=
  match parts? s with
  | none => .error .document
  | some (directory, level) =>
    if directory = "" then .error .noDirectory
    else
      match Trace.Severity.ofLevel? level with
      | none => .error (.level level)
      | some severity => .ok ⟨directory, severity⟩

/-- The settings that a file holds, if there is one. -/
def ofFile (file : Option Bytes) : Except Fault Settings :=
  match file.bind Text.Utf8.decode? with
  | none => .error .unreadable
  | some s => parse s

/-- The trace entry of settings that were read. -/
def loadedEntry (s : Settings) : Trace.Entry :=
  Trace.Event.configLoaded.entry [("data_dir", s.dataDirectory), ("log_level", s.level.level)]

end Settings

end CourseQuery.CommandLine
