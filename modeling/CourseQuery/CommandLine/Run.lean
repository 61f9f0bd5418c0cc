import CourseQuery.CommandLine.Arguments
import CourseQuery.CommandLine.Error
import CourseQuery.CommandLine.Workspace
import CourseQuery.Service.Responding

/-!
# Running a command

A run reads the settings, sets the threshold of the trace, opens the folder of the datasets and then
does what it is told: a single request, whose response is the one line it writes, or every request
on its input in turn. What it runs on is a `System`. The program runs on the files and streams of
the machine, and `CommandLine.World` is a system that is a value, in which a run can be followed and
repeated.
-/

set_option autoImplicit false

namespace CourseQuery.CommandLine

/-- A piece of work of the service at a time, the same for every kind of store. -/
abbrev Work (α : Type) :=
  {σ : Type} → [Store σ] → (now : String) → (store : σ) → Service.Outcome σ α

/-- What a run asks of the system that it runs on. -/
class System (m : Type → Type) where
  /-- The content of the file at a path, if it can be read. -/
  readFile : (path : String) → m (Option Bytes)
  /-- Opens a folder by its path, making what is missing on the way, unless something is in the
  way. -/
  openFolder : (path : String) → m Bool
  /-- Sets the least severity that is traced. -/
  setThreshold : Trace.Severity → m Unit
  /-- Traces entries in order. -/
  trace : List Trace.Entry → m Unit
  /-- Does a piece of work over the store behind the path of a folder, at the time that it is, and
  traces what the work traces. -/
  work : {α : Type} → (folder : String) → Work α → m α
  /-- Writes a line. -/
  respond : (line : String) → m Unit
  /-- Hands over the lines of the input one by one, without their ends, until they end or one
  fails. -/
  eachLine : (Bytes → m (Except Error Unit)) → m (Except Error Unit)

/-- The path of the folder of the datasets, inside the directory of the data. -/
def Settings.datasets (s : Settings) : String :=
  Workspace.pathBehind s.dataDirectory "datasets"

/-- The failure when something is in the way of the folder of the datasets. -/
def blockedError : Error :=
  .store (.access "cannot create the directory of the datasets")

/-- A line without one carriage return at its end. -/
def withoutReturn (line : Bytes) : Bytes :=
  if line.getLast? = some 13 then line.dropLast else line

/-- The lines of an input. The last may lack its end and is then kept as it is, unless empty. -/
def inputLines (input : Bytes) : List Bytes :=
  let parts := Text.split 10 input
  parts.dropLast.map withoutReturn ++ parts.getLast?.toList.filter (!·.isEmpty)

/-- The request on a line, unless the line is blank. -/
def requestOf? (line : Bytes) : Option (Except Error String) :=
  match Text.Utf8.decode? line with
  | none => some (.error .input)
  | some s => if Text.allBlank s then none else some (.ok s)

/-- The path of the archive that a command takes in, if it takes one in. -/
def Command.archive? : Command → Option String
  | .add _ path _ => some path
  | _ => none

section

variable {σ : Type} [Store σ]

/-- Does what a command says that has a single response. An archive is read as `read?` says. -/
def execute (now : String) (store : σ) (read? : String → Option Bytes) :
    Command → Except Error (Service.Outcome σ Service.Response)
  | .query sentence => .ok (Service.respondQuery store sentence)
  | .explain sentence => .ok (Service.respondExplain store sentence)
  | .add id path kind =>
    match read? path with
    | none => .error (.archive path)
    | some archive =>
      .ok ((Service.addNamed now store id kind archive).map (.ofExcept fun _ => .noContent))
  | .remove id => .ok (Service.respondRemove store id)
  | .list => .ok (Service.respondList store)
  | .serve => .error .serving

/-- Does what a command says when the archive that it takes in was read, if it can be. A command
that fails leaves the store as it is. -/
def executeWith (archive : Option Bytes) (command : Command) (now : String) (store : σ) :
    Service.Outcome σ (Except Error Service.Response) :=
  match execute now store (fun _ => archive) command with
  | .error e => ⟨.error e, store, []⟩
  | .ok outcome => outcome.map .ok

end

section

variable {m : Type → Type} [Monad m] [System m]

/-- Answers the request on a line of the input with a line, unless the line is blank. -/
def answerLine (folder : String) (line : Bytes) : m (Except Error Unit) :=
  match requestOf? line with
  | none => return .ok ()
  | some (.error e) => return .error e
  | some (.ok request) => do
    let response ← System.work folder fun now store => Service.respondLine now store request
    System.respond response.text
    return .ok ()

/-- Writes a response, if there is one. -/
def deliver : Except Error Service.Response → m (Except Error Unit)
  | .error e => return .error e
  | .ok response => do
    System.respond response.text
    return .ok ()

/-- Does what a command says over the datasets in a folder. -/
def perform (folder : String) : Command → m (Except Error Unit)
  | .serve => do
    System.trace [Trace.Event.serving.entry []]
    System.eachLine (answerLine folder)
  | command => do
    let archive ← match command.archive? with
      | none => pure none
      | some path => System.readFile path
    deliver (← System.work folder fun now store => executeWith archive command now store)

/-- Does what a command says with the settings, if they could be read. -/
def runWith (command : Command) : Except Settings.Fault Settings → m (Except Error Unit)
  | .error fault => return .error (.settings fault)
  | .ok settings => do
    System.setThreshold settings.level
    System.trace [settings.loadedEntry]
    if ← System.openFolder settings.datasets then perform settings.datasets command
    else return .error blockedError

/-- Runs the program. -/
def run (arguments : Arguments) : m (Except Error Unit) := do
  runWith arguments.command (Settings.ofFile (← System.readFile arguments.config))

end

end CourseQuery.CommandLine
