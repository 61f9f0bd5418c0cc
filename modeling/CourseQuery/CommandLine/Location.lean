import CourseQuery.CommandLine.Workspace
import CourseQuery.Dataset.Disk

/-!
# Files behind a path

A store on disk knows its folder by a path, and it finds a file by putting a name behind this path.
The whole path is walked anew each time, so a name with a separator in it, or with `..`, leads out
of the folder like any other path does. That none of the store's operations ever leaves its folder
is therefore a matter of the names that it asks for.
-/

set_option autoImplicit false

namespace CourseQuery.CommandLine

/-- A path in a workspace, behind which a store keeps its files. -/
structure Location where
  workspace : Workspace
  /-- The path of the folder. -/
  root : String

namespace Location

/-- The path that a name stands for. -/
def path (l : Location) (name : String) : String :=
  Workspace.pathBehind l.root name

/-- The folder as a directory of its own, which is the folder at a place. -/
def directory (l : Location) (place : Place) : Directory :=
  l.workspace.directory place l.root

/-- What the folder holds, if it is there. -/
def entries (l : Location) : List (String × Option Bytes) :=
  match l.workspace.reach? l.root with
  | none => []
  | some place => (l.directory place).entries

instance : Files Location where
  find? l name := l.workspace.read? (l.path name)
  containsFolder l name := l.workspace.containsFolder (l.path name)
  write? l name content :=
    (l.workspace.create? (l.path name) content).map fun workspace => { l with workspace }
  erase l name := { l with workspace := l.workspace.erase (l.path name) }
  entries := entries

end Location

end CourseQuery.CommandLine
