import CourseQuery.Dataset.Directory
import CourseQuery.Text.Split

/-!
# Workspaces

A workspace is the tree of folders and files that a run of the program sees. A folder is known by
the names that lead to it from where the program runs; a name of its own, the empty one, stands for
the root of the whole tree, and `..` leads out of the workspace. A path is walked name by name, and
whatever it passes through must be a folder.
-/

set_option autoImplicit false

namespace CourseQuery.CommandLine

/-- Where a folder is. -/
abbrev Place := List String

/-- The folders of a tree. -/
structure Workspace where
  /-- What the folder at a place holds, if there is such a folder. -/
  folder : Place → Option Folder

/-- What comes of opening a folder: the workspace afterwards, and where the folder is, unless
something was in the way. -/
structure Opening where
  workspace : Workspace
  place : Option Place

namespace Workspace

/-- The workspace of one folder that holds nothing. -/
def empty : Workspace :=
  ⟨fun place => if place = [] ∨ place = [""] then some .empty else none⟩

instance : Inhabited Workspace := ⟨empty⟩

/-- Sets what the folder at a place holds. -/
def setFolder (w : Workspace) (place : Place) (folder : Folder) : Workspace :=
  ⟨fun other => if other = place then some folder else w.folder other⟩

/-- The greatest number of bytes in a path. -/
def longestPath : Nat := 4095

/-- The path of a folder with the separator that a name stands behind. The empty path needs none. -/
def separated (folder : String) : String :=
  if folder = "" ∨ folder.toList.getLast? = some '/' then folder else folder ++ "/"

/-- The path of a name behind the path of a folder. A name that begins with a separator is a path of
its own. -/
def pathBehind (folder name : String) : String :=
  if name.toList.head? = some '/' then name else separated folder ++ name

/-- The greatest number of bytes in a name inside the folder at a path. -/
def roomBehind (folder : String) : Nat :=
  min longestName (longestPath - Text.Utf8.size (separated folder).toList)

/-- The directory that a path leads to, which is the folder at a place. -/
def directory (w : Workspace) (place : Place) (path : String) : Directory :=
  ⟨(w.folder place).getD .empty, roomBehind path⟩

/-- The place a path begins at. -/
def start (path : List Char) : Place :=
  if path.head? = some '/' then [""] else []

/-- The names of a path. A path that is too long or holds the character 0 leads nowhere. -/
def names? (path : List Char) : Option (List String) :=
  if Text.Utf8.size path ≤ longestPath ∧ Char.ofNat 0 ∉ path then
    some ((Text.split '/' path).map String.ofList)
  else none

/-- The folder that holds a folder. -/
def parent (place : Place) : Place :=
  if place = [""] then place
  else if place = [] ∨ place.getLast? = some ".." then place ++ [".."]
  else place.dropLast

/-- A name that leads to the folder itself. -/
def staysAt (name : String) : Bool :=
  name = "" || name = "."

/-- Whether a folder holds a file with a name. -/
def holdsFile (w : Workspace) (place : Place) (name : String) : Bool :=
  (w.folder place).any fun folder => folder.files.contains name

/-- The place that a name leads to from a folder. -/
def next (place : Place) (name : String) : Place :=
  if staysAt name then place else if name = ".." then parent place else place ++ [name]

/-- Whether a folder can be made under a name inside a folder. -/
def isFree (w : Workspace) (place : Place) (name : String) : Bool :=
  !w.holdsFile place name && (isFileName name || staysAt name)

/-- Makes a folder under a name inside the folder at a place. What leads out of the folder does not
show inside it. -/
def makeFolder (w : Workspace) (place : Place) (name : String) : Workspace :=
  let w := if name = ".." then w
    else w.setFolder place (((w.folder place).getD .empty).addFolder name)
  w.setFolder (next place name) .empty

/-- Goes on from the folder that was opened to the one that a name leads to, which is made if it is
missing. -/
def enter (o : Opening) (name : String) : Opening :=
  match o.place with
  | none => o
  | some place =>
    if (o.workspace.folder (next place name)).isSome then { o with place := some (next place name) }
    else if o.workspace.isFree place name then
      ⟨o.workspace.makeFolder place name, some (next place name)⟩
    else { o with place := none }

/-- Goes from a folder to the place that a name leads to, if it is there. -/
def visit? (w : Workspace) (place : Place) (name : String) : Option Place :=
  if (w.folder (next place name)).isSome then some (next place name) else none

/-- Opens the folder behind names from a place on. -/
def openFrom (w : Workspace) (place : Place) (names : List String) : Opening :=
  names.foldl enter ⟨w, some place⟩

/-- Opens a folder by its path, making what is missing on the way. What was made stays even if
something further on is in the way. -/
def openFolder (w : Workspace) (path : String) : Opening :=
  match names? path.toList with
  | none => ⟨w, none⟩
  | some names => w.openFrom (start path.toList) names

/-- Where the folder at a path is, if it is there. -/
def reach? (w : Workspace) (path : String) : Option Place := do
  (← names? path.toList).foldlM w.visit? (start path.toList)

/-- Where the folder is that a path leads through to a file, and the name that a file may have
there. -/
def locate? (w : Workspace) (path : String) : Option (Place × String) := do
  let names ← names? path.toList
  let place ← names.dropLast.foldlM w.visit? (start path.toList)
  let name ← names.getLast?
  if isFileName name then some (place, name) else none

/-- The content of the file at a path, if there is one. -/
def read? (w : Workspace) (path : String) : Option Bytes := do
  let (place, name) ← w.locate? path
  (← w.folder place).files.find? name

/-- Whether a folder shows at a path. -/
def containsFolder (w : Workspace) (path : String) : Bool :=
  (w.locate? path).any fun (place, name) =>
    (w.folder place).any fun folder => folder.folders.contains name

/-- Writes a file at a path, in place of the one that was there, unless a folder on the way is
missing or there is a folder at the path. -/
def create? (w : Workspace) (path : String) (content : Bytes) : Option Workspace := do
  let (place, name) ← w.locate? path
  let folder ← (← w.folder place).write? name content
  some (w.setFolder place folder)

/-- Writes a file at a path, making the folders on the way. -/
def write? (w : Workspace) (path : String) (content : Bytes) : Option Workspace := do
  let names ← names? path.toList
  (w.openFrom (start path.toList) names.dropLast).workspace.create? path content

/-- Removes the file at a path, if there is one. -/
def erase (w : Workspace) (path : String) : Workspace :=
  match w.locate? path with
  | none => w
  | some (place, name) =>
    match w.folder place with
    | none => w
    | some folder => w.setFolder place (folder.erase name)

end Workspace

end CourseQuery.CommandLine
