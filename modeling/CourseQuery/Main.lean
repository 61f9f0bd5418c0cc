import CourseQuery.CommandLine.Run
import CourseQuery.Dataset.Disk
import Std.Time

/-!
# The program

The program runs `CommandLine.run` on the files and streams of the machine. The folder of the
datasets is read before each piece of work and what the work changed is written after it, records
before their manifest. The work is done over the folder as a directory of its own, which comes to
the same as walking every path (`Location.Opened`).
-/

set_option autoImplicit false

namespace CourseQuery.Program

open CommandLine

/-- The content of the file at a path, if it can be read. -/
def readFile? (path : String) : IO (Option Bytes) := do
  try
    return some (← IO.FS.readBinFile path).toList
  catch _ =>
    return none

/-- What a folder holds. A file that cannot be read is taken for a folder. -/
def readFolder (folder : String) : IO Directory := do
  let mut contents := Folder.empty
  for entry in ← (← IO.FS.realPath folder).readDir do
    match ← readFile? (Workspace.pathBehind folder entry.fileName) with
    | some content =>
      contents := { contents with files := contents.files.insert entry.fileName content }
    | none => contents := contents.addFolder entry.fileName
  return ⟨contents, Workspace.roomBehind folder⟩

/-- Writes what changed between two states of a folder. Removals go in the order of the names and
writings against it, so a manifest is the first file to go and the last to come. -/
def writeChanges (folder : String) (before after : Catalog Bytes) : IO Unit := do
  for name in before.names do
    if !after.contains name then IO.FS.removeFile (Workspace.pathBehind folder name)
  for (name, content) in after.entries.reverse do
    if before.find? name != some content then
      IO.FS.writeBinFile (Workspace.pathBehind folder name) (ByteArray.mk content.toArray)

/-- The time, to the second, in universal time. -/
def timestamp : IO String := do
  let now := (← Std.Time.Timestamp.now).toWallTime .zero
  return (Std.Time.PlainDateTime.ofWallTime now).format "uuuu-MM-dd'T'HH:mm:ss'Z'"

/-- Writes the lines of a trace. -/
def writeTrace (threshold : Trace.Severity) (elapsed : Nat) (trace : List Trace.Entry) :
    IO Unit := do
  for line in Trace.Entry.lines threshold elapsed trace do
    IO.eprintln line

/-- Does a piece of work over the files of a folder: the result, after the changes are written and
what is traced is shown. -/
def overFolder {α : Type} (threshold : Trace.Severity) (folder : String) (work : Work α) :
    IO α := do
  let began ← IO.monoMsNow
  let before ← readFolder folder
  let outcome := work (← timestamp) before
  writeChanges folder before.folder.files outcome.store.folder.files
  writeTrace threshold ((← IO.monoMsNow) - began) outcome.trace
  return outcome.result

/-- Opens a folder, and tells whether it is open. -/
def openFolder (folder : String) : IO Bool := do
  try
    IO.FS.createDirAll folder
    return true
  catch _ =>
    return false

/-- The bytes of an input up to and with the next end of a line, behind those read already. -/
partial def readLine (input : IO.FS.Stream) (line : ByteArray) : IO ByteArray := do
  let byte ← input.read 1
  if byte.isEmpty || byte.toList = [10] then return line ++ byte else readLine input (line ++ byte)

/-- A program knows the least severity that it traces. -/
abbrev Process := StateT Trace.Severity IO

/-- Hands over the lines of the input one by one until they end or one fails. -/
partial def eachLine (f : Bytes → Process (Except Error Unit)) : Process (Except Error Unit) := do
  match inputLines (← readLine (← IO.getStdin) .empty).toList with
  | [] => return .ok ()
  | line :: _ =>
    match ← f line with
    | .error e => return .error e
    | .ok () => eachLine f

instance : System Process where
  readFile path := readFile? path
  openFolder path := openFolder path
  setThreshold := set
  trace entries := do writeTrace (← get) 0 entries
  work folder f := do overFolder (← get) folder f
  respond line := do
    IO.println line
    (← IO.getStdout).flush
  eachLine := eachLine

/-- How the program is called. -/
def usage : List String :=
  ["usage: courseql [--config PATH] COMMAND",
   "  query TEXT", "  explain TEXT", "  add --id ID --archive PATH [--kind KIND]",
   "  remove --id ID", "  list", "  serve"]

end CourseQuery.Program

/-- Runs the program; a wrong call ends with 2 and a failure with 1. -/
def main (arguments : List String) : IO UInt32 := do
  match CourseQuery.CommandLine.Arguments.parse? arguments with
  | none =>
    CourseQuery.Program.usage.forM IO.eprintln
    return 2
  | some arguments =>
    let result : Except CourseQuery.CommandLine.Error Unit ←
      (CourseQuery.CommandLine.run arguments : CourseQuery.Program.Process _).run' .info
    match result with
    | .error e =>
      IO.eprintln e.shown
      return 1
    | .ok () => return 0
