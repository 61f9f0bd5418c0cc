import CourseQuery.Bytes
import CourseQuery.Catalog
import CourseQuery.Text.Utf8

/-!
# Folders and directories

A folder holds files and other folders, all by name. A directory is a folder together with the room
that the path to it leaves for a name: what has a longer name is there, but it cannot be reached. A
file never takes the place of a folder.

A store on disk keeps its files under names behind the path of one folder, and what such a name
leads to is for the file system to say. `Files` is all that a store asks of it. In a directory taken
for itself a name leads nowhere but into the folder; `CommandLine.Location` has the paths of a whole
tree.
-/

set_option autoImplicit false

namespace CourseQuery

/-- The greatest number of bytes in a name. -/
def longestName : Nat := 255

/-- A name that a file can have. -/
def isFileName (name : String) : Bool :=
  let chars := name.toList
  !chars.isEmpty && Text.Utf8.size chars ≤ longestName && !chars.contains '/' &&
    !chars.contains (Char.ofNat 0)

/-- What a folder holds. -/
structure Folder where
  files : Catalog Bytes
  /-- The names of the folders inside. -/
  folders : Catalog Unit

namespace Folder

/-- The folder that holds nothing. -/
def empty : Folder := ⟨.empty, .empty⟩

instance : Inhabited Folder := ⟨empty⟩

/-- Writes a file, in place of the one that was there. -/
def write? (f : Folder) (name : String) (content : Bytes) : Option Folder :=
  if f.folders.contains name then none else some { f with files := f.files.insert name content }

/-- Removes a file. -/
def erase (f : Folder) (name : String) : Folder :=
  { f with files := f.files.erase name }

/-- Adds the name of a folder inside. -/
def addFolder (f : Folder) (name : String) : Folder :=
  { f with folders := f.folders.insert name () }

end Folder

/-- A folder as a path leads to it. -/
structure Directory where
  folder : Folder
  /-- The greatest number of bytes that the path leaves for a name. -/
  room : Nat

namespace Directory

/-- The directory that holds nothing, with room for every name. -/
def empty : Directory := ⟨.empty, longestName⟩

instance : Inhabited Directory := ⟨empty⟩

/-- A name that can be reached. -/
def reaches (d : Directory) (name : String) : Bool :=
  isFileName name && Text.Utf8.size name.toList ≤ d.room

/-- The content of the file with a name, if there is one and it can be reached. -/
def find? (d : Directory) (name : String) : Option Bytes :=
  if d.reaches name then d.folder.files.find? name else none

/-- Whether a folder that can be reached has a name. -/
def containsFolder (d : Directory) (name : String) : Bool :=
  d.reaches name && d.folder.folders.contains name

/-- Whether a file or a folder that can be reached has a name. -/
def contains (d : Directory) (name : String) : Bool :=
  (d.find? name).isSome || d.containsFolder name

/-- Writes a file, in place of the one that was there, unless the name cannot be reached or a folder
has it. -/
def write? (d : Directory) (name : String) (content : Bytes) : Option Directory :=
  if d.reaches name then
    (d.folder.write? name content).map fun folder => { d with folder }
  else none

/-- Removes a file. -/
def erase (d : Directory) (name : String) : Directory :=
  { d with folder := d.folder.erase name }

/-- The files and folders in the order of their names, with the content of every file that can be
reached. -/
def entries (d : Directory) : List (String × Option Bytes) :=
  let files := d.folder.files.names.map fun name => (name, d.find? name)
  let folders := d.folder.folders.names.map fun name => (name, none)
  files.merge folders fun a b => decide (a.1 ≤ b.1)

end Directory

/-- What a store on disk sees and changes of the files behind the path of its folder. A name is only
what stands behind that path: it leads wherever the file system lets it lead. -/
class Files (δ : Type) where
  /-- The content of the file that a name leads to, if it leads to one. -/
  find? : δ → (name : String) → Option Bytes
  /-- Whether a name leads to a folder. -/
  containsFolder : δ → (name : String) → Bool
  /-- Writes the file that a name leads to, in place of the one that was there, if there can be
  one. -/
  write? : δ → (name : String) → (content : Bytes) → Option δ
  /-- Removes the file that a name leads to. -/
  erase : δ → (name : String) → δ
  /-- The files and folders in the folder itself, in the order of their names, with the content of
  every file that can be read. -/
  entries : δ → List (String × Option Bytes)

/-- Whether a name leads to a file or a folder. -/
def Files.contains {δ : Type} [Files δ] (d : δ) (name : String) : Bool :=
  (find? d name).isSome || containsFolder d name

instance : Files Directory where
  find? := Directory.find?
  containsFolder := Directory.containsFolder
  write? := Directory.write?
  erase := Directory.erase
  entries := Directory.entries

end CourseQuery
