import CourseQuery.CommandLine.Settings
import CourseQuery.Dataset.Error

/-!
# Why a run fails

A request that fails has a response like any other. A run fails only when the settings, the store
or a file or stream it needs cannot be used.
-/

set_option autoImplicit false

namespace CourseQuery.CommandLine

/-- Why a run fails. -/
inductive Error where
  | settings (fault : Settings.Fault)
  | store (error : StoreError)
  | archive (path : String)
  /-- A line of the input is no text. -/
  | input
  /-- The command has no single response. -/
  | serving
deriving DecidableEq, Repr

namespace Error

/-- The code of an error. -/
def code : Error → String
  | settings _ => "CQ_CLI_CONFIG_ERROR"
  | store _ => "CQ_CLI_STORE_ERROR"
  | archive _ | input | serving => "CQ_CLI_IO_ERROR"

/-- The wording of an error. -/
def message : Error → String
  | settings fault => fault.message
  | store e => e.message
  | archive path => s!"Failed to read archive \"{path}\": no such file"
  | input => "stream did not contain valid UTF-8"
  | serving => "serve is not a one-shot command"

/-- An error as a person reads it. -/
def shown (e : Error) : String :=
  s!"{e.code}: {e.message}"

end Error

end CourseQuery.CommandLine
