import CourseQuery.Dataset.Disk
import CourseQuery.Proofs.Catalog
import CourseQuery.Proofs.Text.Utf8

/-!
# The files of a dataset

Both files of a dataset are named after its id. For an id that is path safe the names can be reached
when they hold no NUL and are short enough, and the name of the manifest is one byte longer than
that of the records.
-/

set_option autoImplicit false

namespace CourseQuery

open Text.Utf8 (size size_append)

namespace Directory

variable {d d' : Directory} {name other : String} {content : Bytes}

/-! ## A directory as files -/

/-- In a directory taken for itself a name leads to the file that has it. -/
@[simp]
theorem files_find? (d : Directory) (name : String) : Files.find? d name = d.find? name := rfl

/-- In a directory taken for itself a name leads to the folder that has it. -/
@[simp]
theorem files_containsFolder (d : Directory) (name : String) :
    Files.containsFolder d name = d.containsFolder name := rfl

/-- In a directory taken for itself a name leads to what has it. -/
@[simp]
theorem files_contains (d : Directory) (name : String) :
    Files.contains d name = d.contains name := rfl

/-- In a directory taken for itself a file is written under its name. -/
@[simp]
theorem files_write? (d : Directory) (name : String) (content : Bytes) :
    Files.write? d name content = d.write? name content := rfl

/-- In a directory taken for itself a file is removed under its name. -/
@[simp]
theorem files_erase (d : Directory) (name : String) : Files.erase d name = d.erase name := rfl

/-- A directory taken for itself has the entries of its folder. -/
@[simp]
theorem files_entries (d : Directory) : Files.entries d = d.entries := rfl

/-! ## Names that can be reached -/

/-- The greatest number of bytes in a name that can be reached. -/
def limit (d : Directory) : Nat :=
  min longestName d.room

/-- A name reaches into a directory if it is a name of one component that is short enough. -/
theorem reaches_iff :
    d.reaches name = true ↔
      name.toList ≠ [] ∧ '/' ∉ name.toList ∧ Char.ofNat 0 ∉ name.toList ∧
        size name.toList ≤ d.limit := by
  unfold reaches isFileName limit
  simp only [Bool.and_eq_true, Bool.not_eq_true', decide_eq_true_eq, List.isEmpty_eq_false_iff,
    List.contains_eq_mem, decide_eq_false_iff_not]
  rw [Nat.le_min]
  exact ⟨fun ⟨⟨⟨⟨h1, h2⟩, h3⟩, h4⟩, h5⟩ => ⟨h1, h3, h4, h2, h5⟩,
    fun ⟨h1, h3, h4, h2, h5⟩ => ⟨⟨⟨⟨h1, h2⟩, h3⟩, h4⟩, h5⟩⟩

/-- Nothing is found in the empty directory. -/
@[simp]
theorem find?_empty (name : String) : empty.find? name = none :=
  ite_self none

/-- The empty directory contains no folder. -/
@[simp]
theorem containsFolder_empty (name : String) : empty.containsFolder name = false :=
  Bool.and_false _

/-- The directory with a file in it. -/
def withFile (d : Directory) (name : String) (content : Bytes) : Directory :=
  { d with folder := { d.folder with files := d.folder.files.insert name content } }

/-- Writing a file changes nothing about the room for names. -/
@[simp]
theorem room_withFile : (d.withFile name content).room = d.room := rfl

/-- Writing a file changes nothing about the folders. -/
@[simp]
theorem folders_withFile : (d.withFile name content).folder.folders = d.folder.folders := rfl

/-- A file that was written is found under its name, and any other as before. -/
theorem find?_withFile :
    (d.withFile name content).folder.files.find? other =
      if other = name then some content else d.folder.files.find? other :=
  Catalog.find?_insert _

/-- A file that was there has its new content once it is written. -/
theorem find?_withFile_of_find? {old : Bytes} (h : d.find? name = some old) :
    (d.withFile name content).find? name = some content := by
  rw [find?, Option.ite_none_right_eq_some] at h
  have hreach : (d.withFile name content).reaches name = true := h.1
  rw [find?, if_pos hreach, find?_withFile, if_pos rfl]

/-- A file that was removed is not found any more, and any other is as before. -/
theorem find?_erase :
    (d.erase name).folder.files.find? other =
      if other = name then none else d.folder.files.find? other :=
  Catalog.find?_erase _

/-- A file is written when its name can be reached and no folder has it. -/
theorem write?_eq_some_iff :
    d.write? name content = some d' ↔
      d.reaches name = true ∧ d.containsFolder name = false ∧ d' = d.withFile name content := by
  unfold write? Folder.write? containsFolder withFile
  cases hreach : d.reaches name with
  | false => simp
  | true =>
    cases hfolder : d.folder.folders.contains name with
    | false => simp [eq_comm]
    | true => simp

/-- A file cannot be written where the name does not reach or a folder stands. -/
theorem write?_eq_none_iff :
    d.write? name content = none ↔ d.reaches name = false ∨ d.containsFolder name = true := by
  unfold write? Folder.write? containsFolder
  cases hreach : d.reaches name with
  | false => simp
  | true =>
    cases hfolder : d.folder.folders.contains name with
    | false => simp
    | true => simp

/-- Writing a file changes the directory unless the file was there with the same content. -/
theorem write?_eq_self_iff (h : d.write? name content = some d') :
    d' = d ↔ d.find? name = some content := by
  obtain ⟨hreach, -, rfl⟩ := write?_eq_some_iff.1 h
  rw [find?, if_pos hreach, ← Catalog.insert_eq_self_iff]
  constructor
  · intro heq
    exact congrArg (fun d => d.folder.files) heq
  · intro heq
    rw [withFile, heq]

end Directory

namespace Disk

variable {d : Directory} {id : String}

/-- The name of a records file is 13 bytes longer than the id. -/
theorem size_recordsFile (id : String) : size (recordsFile id).toList = size id.toList + 13 := by
  rw [recordsFile, String.toList_append, size_append]
  rfl

/-- The name of a manifest is 14 bytes longer than the id. -/
theorem size_manifestFile (id : String) : size (manifestFile id).toList = size id.toList + 14 := by
  rw [manifestFile, String.toList_append, size_append]
  rfl

/-- A file of a dataset can be reached when the id holds no NUL and the name is short enough. -/
theorem reaches_iff_of_pathSafe {ending : String} (hid : isPathSafe id = true)
    (hending : '/' ∉ ending.toList ∧ Char.ofNat 0 ∉ ending.toList) :
    d.reaches (id ++ ending) = true ↔
      Char.ofNat 0 ∉ id.toList ∧ size (id ++ ending).toList ≤ d.limit := by
  simp only [isPathSafe, Bool.and_eq_true, Bool.not_eq_true', List.isEmpty_eq_false_iff,
    List.contains_eq_mem, decide_eq_false_iff_not] at hid
  obtain ⟨⟨⟨hne, -⟩, hslash⟩, -⟩ := hid
  simp [Directory.reaches_iff, hne, hslash, hending]

/-- The records file of a path safe id can be reached if the id is short enough and holds no NUL. -/
theorem reaches_recordsFile (hid : isPathSafe id = true) :
    d.reaches (recordsFile id) = true ↔
      Char.ofNat 0 ∉ id.toList ∧ size id.toList + 13 ≤ d.limit := by
  rw [← size_recordsFile]
  exact reaches_iff_of_pathSafe hid (by decide)

/-- The manifest of a path safe id can be reached if the id is short enough and holds no NUL. -/
theorem reaches_manifestFile (hid : isPathSafe id = true) :
    d.reaches (manifestFile id) = true ↔
      Char.ofNat 0 ∉ id.toList ∧ size id.toList + 14 ≤ d.limit := by
  rw [← size_manifestFile]
  exact reaches_iff_of_pathSafe hid (by decide)

/-- The two files of datasets have different names, whatever the ids. -/
theorem recordsFile_ne_manifestFile (id other : String) : recordsFile id ≠ manifestFile other := by
  intro h
  have hlist := congrArg String.toList h
  simp only [recordsFile, manifestFile, String.toList_append] at hlist
  have hdrop := congrArg (fun l => l.reverse.take 13) hlist
  simp [recordsEnding, manifestEnding] at hdrop

/-- Each id has a records file of its own. -/
theorem recordsFile_inj {id other : String} : recordsFile id = recordsFile other ↔ id = other := by
  rw [recordsFile, recordsFile, ← String.toList_inj, String.toList_append, String.toList_append,
    List.append_cancel_right_eq, String.toList_inj]

/-- Each id has a manifest of its own. -/
theorem manifestFile_inj {id other : String} :
    manifestFile id = manifestFile other ↔ id = other := by
  rw [manifestFile, manifestFile, ← String.toList_inj, String.toList_append, String.toList_append,
    List.append_cancel_right_eq, String.toList_inj]

/-- The name of a manifest is told by its end. -/
@[simp]
theorem isManifestFile_manifestFile (id : String) : isManifestFile (manifestFile id) = true := by
  rw [isManifestFile, List.isSuffixOf_iff_suffix, manifestFile, String.toList_append]
  exact List.suffix_append _ _

/-- The name of a records file is not taken for that of a manifest. -/
@[simp]
theorem isManifestFile_recordsFile (id : String) : isManifestFile (recordsFile id) = false := by
  rw [← Bool.not_eq_true, isManifestFile, List.isSuffixOf_iff_suffix]
  rintro ⟨front, hfront⟩
  apply recordsFile_ne_manifestFile id (String.ofList front)
  rw [← String.toList_inj, ← hfront, manifestFile, String.toList_append, String.toList_ofList]

/-- Where nothing is in the way of a dataset, its id is valid and path safe and its manifest is not
there. -/
theorem obstacle?_eq_none_iff :
    obstacle? d id = none ↔
      DatasetId.Valid id ∧ isPathSafe id = true ∧ d.contains (manifestFile id) = false := by
  unfold obstacle? StoreError.ofId? DatasetId.Valid
  rw [Directory.files_contains]
  cases DatasetId.fault? id with
  | some fault => simp
  | none => cases isPathSafe id <;> simp

end Disk

end CourseQuery
