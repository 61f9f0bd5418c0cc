/-!
# Arguments

The program takes a command, its options and its text, and `--config` before or after the command.
An option takes its value as the next argument or behind `=`, once; the value stands for itself and
cannot begin with a dash unless it is a dash alone or stands behind `=`. After `--` nothing is an
option. An option given to the command counts more than the same one given before it. Whatever does
not fit, a call for help included, is a matter of usage and starts nothing.
-/

set_option autoImplicit false

namespace CourseQuery.CommandLine

/-- What the program is told to do. -/
inductive Command where
  | query (sentence : String)
  | explain (sentence : String)
  | add (id archive kind : String)
  | remove (id : String)
  | list
  | serve
deriving DecidableEq, Repr

/-- The arguments of a call. -/
structure Arguments where
  /-- The path of the settings. -/
  config : String
  command : Command
deriving DecidableEq, Repr

namespace Arguments

/-- The path of the settings when none is given. -/
def defaultConfig : String := "./courseql.json"

/-- The kind of an added dataset when none is given. -/
def defaultKind : String := "courses"

/-- What was given at one level of a call, in order. -/
structure Given where
  options : List (String × String)
  texts : List String
deriving DecidableEq, Repr

/-- An argument that is read as an option and not as a text. -/
def isOption (argument : String) : Bool :=
  match argument.toList with
  | '-' :: _ :: _ => true
  | _ => false

/-- The name of an option and its value behind `=`, if it has one. -/
def optionParts (argument : String) : String × Option String :=
  let chars := argument.toList
  let name := String.ofList (chars.takeWhile (· ≠ '='))
  match chars.dropWhile (· ≠ '=') with
  | [] => (name, none)
  | _ :: v => (name, some (String.ofList v))

/-- Adds an option that must be known and new, and whose value must not be empty if it is a path. -/
def Given.withOption (g : Given) (known paths : List String) (name v : String) : Option Given :=
  let isNew := known.contains name ∧ (g.options.lookup name).isNone
  if ¬ isNew ∨ (paths.contains name ∧ v = "") then none
  else some ⟨g.options ++ [(name, v)], g.texts⟩

/-- Reads the options and texts of a command. -/
def read (known paths : List String) (g : Given) : List String → Option Given
  | [] => some g
  | argument :: rest =>
    if argument = "--" then some ⟨g.options, g.texts ++ rest⟩
    else if isOption argument then
      match optionParts argument, rest with
      | (name, some v), rest => do read known paths (← g.withOption known paths name v) rest
      | (_, none), [] => none
      | (name, none), v :: rest =>
        if isOption v then none else do read known paths (← g.withOption known paths name v) rest
    else read known paths ⟨g.options, g.texts ++ [argument]⟩ rest

/-- The options whose values are paths. -/
def pathOptions : List String := ["--config", "--archive"]

/-- The options before a command, and the arguments from the command on. -/
def front (g : Given) : List String → Option (Given × List String)
  | [] => none
  | argument :: rest =>
    if isOption argument then
      match optionParts argument, rest with
      | (name, some v), rest => do front (← g.withOption ["--config"] pathOptions name v) rest
      | (_, none), [] => none
      | (name, none), v :: rest =>
        if isOption v then none
        else do front (← g.withOption ["--config"] pathOptions name v) rest
    else some (g, argument :: rest)

/-- The options of a command by its name, if there is such a command. -/
def optionsOf? (name : String) : Option (List String) :=
  if name = "query" ∨ name = "explain" ∨ name = "list" ∨ name = "serve" then some ["--config"]
  else if name = "add" then some ["--config", "--id", "--archive", "--kind"]
  else if name = "remove" then some ["--config", "--id"]
  else none

/-- The command with a name, options and texts. -/
def command? (name : String) (g : Given) : Option Command :=
  match name, g.texts with
  | "query", [sentence] => some (.query sentence)
  | "explain", [sentence] => some (.explain sentence)
  | "add", [] => do
    let id ← g.options.lookup "--id"
    let archive ← g.options.lookup "--archive"
    some (.add id archive ((g.options.lookup "--kind").getD defaultKind))
  | "remove", [] => (g.options.lookup "--id").map .remove
  | "list", [] => some .list
  | "serve", [] => some .serve
  | _, _ => none

/-- The arguments of a call, if they fit. -/
def parse? (arguments : List String) : Option Arguments := do
  match ← front ⟨[], []⟩ arguments with
  | (_, []) => none
  | (outer, name :: rest) =>
    let inner ← read (← optionsOf? name) pathOptions ⟨[], []⟩ rest
    let config := (inner.options.lookup "--config").or (outer.options.lookup "--config")
    some ⟨config.getD defaultConfig, ← command? name inner⟩

end Arguments

end CourseQuery.CommandLine
