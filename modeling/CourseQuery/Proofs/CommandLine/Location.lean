import CourseQuery.CommandLine.Location
import CourseQuery.Proofs.CommandLine.Workspace
import CourseQuery.Proofs.Dataset.Isolation
import CourseQuery.Proofs.Dataset.Loading

/-!
# A store behind a path

A store finds its files by paths, and a path can lead anywhere in the workspace. Still the
operations of a store come to the same as those on the folder at its root, taken as a directory of
its own: a name that lies inside the folder leads into it, and an id of which no operation could
tell where its names lead is refused before a path is made of it. So whatever the id, an operation
changes no folder but the one that was opened.
-/

set_option autoImplicit false

namespace CourseQuery.CommandLine

open Disk (IsInside filesOf isPathSafe manifestFile recordsFile)
open Text.Utf8 (size size_append)

namespace Workspace

variable {w : Workspace} {place : Place} {root name : String}

/-! ## A name behind the path of a folder -/

/-- A name inside a folder begins with no separator and is not empty. -/
theorem ne_nil_of_isInside (h : IsInside name) :
    name.toList ≠ [] ∧ name.toList.head? ≠ some '/' := by
  have hne : name.toList ≠ [] := by
    intro hnil
    have hnext := h.2 []
    rw [next, staysAt, String.toList_eq_nil_iff.1 hnil] at hnext
    exact absurd hnext (by decide)
  refine ⟨hne, fun hhead => ?_⟩
  obtain ⟨rest, hrest⟩ := List.head?_eq_some_iff.1 hhead
  have hsplit := h.1
  rw [hrest, ← List.nil_append ('/' :: rest), Text.split_append_cons _ List.not_mem_nil] at hsplit
  exact List.cons_ne_nil _ _ (List.cons.inj hsplit).1.symm

/-- A folder that is reached has a path that is short enough and holds no NUL. -/
theorem names?_of_reach? (h : w.reach? root = some place) :
    Char.ofNat 0 ∉ root.toList ∧
      ((Text.split '/' root.toList).map String.ofList).foldlM w.visit? (start root.toList) =
        some place := by
  unfold reach? names? at h
  split at h
  · rename_i hroot
    exact ⟨hroot.2, h⟩
  · contradiction

/-- Where a path begins is told by its first character. -/
theorem start_append {path rest : List Char} (h : path ≠ [] ∨ rest.head? ≠ some '/') :
    start (path ++ rest) = start path := by
  cases path with
  | nil => exact if_neg (h.resolve_left (not_not_intro rfl))
  | cons c path => rfl

/-- A path that needs no separator has an empty name last, in whose place another name stands when
it is put behind the path. -/
theorem split_of_separated (h : root = "" ∨ root.toList.getLast? = some '/')
    (hname : IsInside name) :
    ∃ front, Text.split '/' root.toList = front ++ [[]] ∧
      Text.split '/' (root.toList ++ name.toList) = front ++ [name.toList] := by
  rcases h with rfl | hslash
  · exact ⟨[], rfl, hname.1⟩
  · obtain ⟨path, hpath⟩ := List.getLast?_eq_some_iff.1 hslash
    refine ⟨Text.split '/' path, ?_, ?_⟩
    · rw [hpath, Text.split_append_mark]
      rfl
    · rw [hpath, List.append_assoc, List.singleton_append, Text.split_append_mark, hname.1]

/-- The names in front of one that is put behind the path of a folder are walked to the folder. -/
theorem walk_separated (h : w.reach? root = some place) (hname : IsInside name) :
    let path := (separated root).toList ++ name.toList
    ∃ front : List String, front.foldlM w.visit? (start path) = some place ∧
      (Text.split '/' path).map String.ofList = front ++ [name] := by
  obtain ⟨hne, hhead⟩ := ne_nil_of_isInside hname
  obtain ⟨-, hwalk⟩ := names?_of_reach? h
  have hlast : [name.toList].map String.ofList = [name] := by
    rw [List.map_singleton, String.ofList_toList]
  unfold separated
  split
  · rename_i hmarked
    obtain ⟨front, hroot, hpath⟩ := split_of_separated hmarked hname
    refine ⟨front.map String.ofList, ?_, by rw [hpath, List.map_append, hlast]⟩
    rw [start_append (Or.inr hhead)]
    rw [hroot, List.map_append, List.foldlM_append, Option.bind_eq_bind,
      Option.bind_eq_some_iff] at hwalk
    obtain ⟨there, hwalk, hstay⟩ := hwalk
    -- the empty name at the end of the path stays at the folder
    have hthere : there = place := by
      simp only [List.map_singleton, List.foldlM_cons, List.foldlM_nil, visit?] at hstay
      split at hstay
      · exact Option.some.inj hstay
      · contradiction
    rw [hwalk, hthere]
  · rename_i hunmarked
    have hroot : root.toList ≠ [] := fun hnil =>
      hunmarked (Or.inl (String.toList_eq_nil_iff.1 hnil))
    refine ⟨(Text.split '/' root.toList).map String.ofList, ?_, ?_⟩
    · rw [String.toList_append, List.append_assoc, start_append (Or.inl hroot)]
      exact hwalk
    · rw [String.toList_append, show "/".toList = ['/'] from rfl, List.append_assoc,
        List.singleton_append, Text.split_append_mark, hname.1, List.map_append, hlast]

/-- The path with its separator holds no NUL either. -/
theorem not_mem_separated (h : Char.ofNat 0 ∉ root.toList) :
    Char.ofNat 0 ∉ (separated root).toList := by
  unfold separated
  split
  · exact h
  · rw [String.toList_append, List.mem_append, not_or]
    exact ⟨h, by decide⟩

/-- A name behind the path of a folder leads to that name in the folder, if the folder taken as a
directory can reach the name, and nowhere otherwise. -/
theorem locate?_pathBehind (h : w.reach? root = some place) (hname : IsInside name) :
    w.locate? (pathBehind root name) =
      if (w.directory place root).reaches name then some (place, name) else none := by
  obtain ⟨hne, hhead⟩ := ne_nil_of_isInside hname
  obtain ⟨front, hwalk, hnames⟩ := walk_separated h hname
  have hnul := not_mem_separated (names?_of_reach? h).1
  have hsize := Text.Utf8.size_pos hne
  have hreach : (w.directory place root).reaches name = true ↔
      (size ((separated root).toList ++ name.toList) ≤ longestPath ∧
        Char.ofNat 0 ∉ (separated root).toList ++ name.toList) ∧ isFileName name = true := by
    have hnul' : isFileName name = true → Char.ofNat 0 ∉ name.toList := by
      intro hfile
      simp only [isFileName, Bool.and_eq_true, Bool.not_eq_true', List.contains_eq_mem,
        decide_eq_false_iff_not] at hfile
      exact hfile.2
    have hshort : isFileName name = true → size name.toList ≤ longestName := by
      intro hfile
      simp only [isFileName, Bool.and_eq_true, decide_eq_true_eq] at hfile
      exact hfile.1.1.2
    rw [Directory.reaches, Bool.and_eq_true, decide_eq_true_eq, size_append, List.mem_append]
    show _ ∧ size name.toList ≤ min longestName (longestPath - size (separated root).toList) ↔ _
    constructor
    · rintro ⟨hfile, hroom⟩
      exact ⟨⟨by omega, not_or.2 ⟨hnul, hnul' hfile⟩⟩, hfile⟩
    · rintro ⟨⟨hroom, -⟩, hfile⟩
      have := hshort hfile
      exact ⟨hfile, by omega⟩
  rw [locate?, pathBehind, if_neg hhead, String.toList_append, names?]
  by_cases hpath : size ((separated root).toList ++ name.toList) ≤ longestPath ∧
      Char.ofNat 0 ∉ (separated root).toList ++ name.toList
  · rw [if_pos hpath, hnames]
    simp only [Option.bind_eq_bind, Option.bind_some, List.dropLast_concat, hwalk,
      List.getLast?_concat, hreach, and_iff_right hpath]
  · rw [if_neg hpath, if_neg (fun hreaches => hpath (hreach.1 hreaches).1)]
    rfl

/-- Setting what a folder holds a second time leaves nothing of the first. -/
theorem setFolder_setFolder (w : Workspace) (place : Place) (folder folder' : Folder) :
    (w.setFolder place folder).setFolder place folder' = w.setFolder place folder' := by
  have hfolder : ((w.setFolder place folder).setFolder place folder').folder =
      (w.setFolder place folder').folder := by
    funext other
    by_cases hother : other = place
    · rw [hother, folder_setFolder, folder_setFolder]
    · exact (if_neg hother).trans ((if_neg hother).trans (if_neg hother).symm)
  exact congrArg Workspace.mk hfolder

end Workspace

namespace Location

/-! ## A location whose folder is open -/

/-- The folder of a location is there, at a place. -/
def Opened (l : Location) (place : Place) : Prop :=
  l.workspace.reach? l.root = some place

/-- The location after its folder, which is at a place, came to be as a directory is. -/
def put (l : Location) (place : Place) (d : Directory) : Location :=
  { l with workspace := l.workspace.setFolder place d.folder }

variable {l : Location} {place : Place} {name : String} {content : Bytes} {d : Directory}

/-- Where a folder was opened there is a location whose folder is open. -/
theorem opened_of_openFolder {w : Workspace} {root : String}
    (h : (w.openFolder root).place = some place) :
    Opened ⟨(w.openFolder root).workspace, root⟩ place :=
  Workspace.reach?_openFolder h

/-- What the folder of a location holds is what its directory holds. -/
theorem Opened.folder_eq (h : l.Opened place) :
    l.workspace.folder place = some (l.directory place).folder := by
  obtain ⟨folder, hfolder⟩ :=
    Option.isSome_iff_exists.1 (Workspace.isSome_folder_of_reach? h)
  rw [directory, Workspace.directory, hfolder]
  rfl

/-- The folder stays open whatever it comes to hold. -/
theorem Opened.put (h : l.Opened place) (d : Directory) : (l.put place d).Opened place :=
  Workspace.reach?_of_within (Workspace.within_setFolder _ _ _) h

/-- What is put in the place of a directory is found there, with the room that the path leaves. -/
theorem directory_put (hroom : d.room = (l.directory place).room) :
    (l.put place d).directory place = d := by
  obtain ⟨folder, room⟩ := d
  obtain rfl : room = (l.directory place).room := hroom
  rw [directory, Workspace.directory, Location.put, Workspace.folder_setFolder]
  rfl

/-- Putting the directory back that is there changes nothing. -/
theorem Opened.put_directory (h : l.Opened place) : l.put place (l.directory place) = l := by
  rw [Location.put, Workspace.setFolder_self h.folder_eq]

/-- Of two directories that are put in one place the second stays. -/
theorem put_put (l : Location) (place : Place) (d d' : Directory) :
    (l.put place d).put place d' = l.put place d' := by
  rw [Location.put, Location.put, Workspace.setFolder_setFolder]
  rfl

/-- A name inside the folder leads to that name in the folder, if the name can be reached. -/
theorem Opened.locate?_eq (h : l.Opened place) (hname : IsInside name) :
    l.workspace.locate? (l.path name) =
      if (l.directory place).reaches name then some (place, name) else none :=
  Workspace.locate?_pathBehind h hname

/-! ## Names inside the folder -/

/-- A name inside the folder leads to the file that has it there. -/
theorem Opened.find?_eq (h : l.Opened place) (hname : IsInside name) :
    Files.find? l name = (l.directory place).find? name := by
  show l.workspace.read? (l.path name) = _
  rw [Workspace.read?, h.locate?_eq hname, Directory.find?]
  split
  · simp only [Option.bind_eq_bind, Option.bind_some, h.folder_eq]
  · rfl

/-- A name inside the folder leads to the folder that has it there. -/
theorem Opened.containsFolder_eq (h : l.Opened place) (hname : IsInside name) :
    Files.containsFolder l name = (l.directory place).containsFolder name := by
  show l.workspace.containsFolder (l.path name) = _
  rw [Workspace.containsFolder, h.locate?_eq hname, Directory.containsFolder]
  cases (l.directory place).reaches name with
  | true => simp only [if_true, Option.any_some, h.folder_eq, Bool.true_and]
  | false => rfl

/-- Under a name inside the folder a file is written there. -/
theorem Opened.write?_eq (h : l.Opened place) (hname : IsInside name) (content : Bytes) :
    Files.write? l name content =
      ((l.directory place).write? name content).map (l.put place) := by
  show (l.workspace.create? (l.path name) content).map _ = _
  rw [Workspace.create?, h.locate?_eq hname, Directory.write?]
  split
  · simp only [Option.bind_eq_bind, Option.bind_some, h.folder_eq, Option.map_map]
    cases (l.directory place).folder.write? name content <;> rfl
  · rfl

/-- Under a name inside the folder that can be reached a file is removed there. -/
theorem Opened.erase_eq (h : l.Opened place) (hname : IsInside name)
    (hreach : (l.directory place).reaches name = true) :
    Files.erase l name = l.put place ((l.directory place).erase name) := by
  show { l with workspace := l.workspace.erase (l.path name) } = _
  rw [Workspace.erase, h.locate?_eq hname, if_pos hreach]
  simp only [h.folder_eq]
  rfl

/-! ## The store behind the path -/

/-- The manifest that is looked for behind the path is the one in the folder. An id that could lead
elsewhere is refused without looking. -/
theorem Opened.manifestBytes_eq (h : l.Opened place) (id : String) :
    Disk.manifestBytes l id = Disk.manifestBytes (l.directory place) id := by
  unfold Disk.manifestBytes
  cases hid : isPathSafe id with
  | false => rfl
  | true =>
    have hname := Disk.isInside_of_pathSafe hid _ (Disk.manifestFile_mem id)
    rw [h.find?_eq hname, Directory.files_find?]

/-- What is loaded behind the path is what is loaded from the folder. -/
theorem Opened.load_eq (h : l.Opened place) (id : String) :
    Disk.load l id = Disk.load (l.directory place) id := by
  have hmanifest : Disk.manifest l id = Disk.manifest (l.directory place) id := by
    rw [Disk.manifest, Disk.manifest, h.manifestBytes_eq]
  unfold Disk.load
  rw [hmanifest]
  cases hm : Disk.manifest (l.directory place) id with
  | error error => rfl
  | ok m =>
    -- there is a manifest, so the id is path safe and the records lie in the folder as well
    obtain ⟨hid, -⟩ := Disk.manifest_eq_ok_iff.1 hm
    have hname := Disk.isInside_of_pathSafe hid _ (Disk.recordsFile_mem id)
    rw [h.find?_eq hname, Directory.files_find?]

/-- The same is in the way of an import behind the path as in the folder. -/
theorem Opened.obstacle?_eq (h : l.Opened place) (id : String) :
    Disk.obstacle? l id = Disk.obstacle? (l.directory place) id := by
  unfold Disk.obstacle?
  cases StoreError.ofId? id with
  | some error => rfl
  | none =>
    cases hid : isPathSafe id with
    | false => rfl
    | true =>
      have hname := Disk.isInside_of_pathSafe hid _ (Disk.manifestFile_mem id)
      rw [Files.contains, h.find?_eq hname, h.containsFolder_eq hname, Directory.files_contains,
        Directory.contains]

/-- The two files of a dataset are written into the folder. -/
theorem Opened.writeDataset_eq (h : l.Opened place) {id : String} (hid : isPathSafe id = true)
    (now : String) (kind : DatasetKind) (records : List Record) :
    let written := Disk.writeDataset (l.directory place) now id kind records
    Disk.writeDataset l now id kind records = (written.1, l.put place written.2) := by
  have hrecords := Disk.isInside_of_pathSafe hid _ (Disk.recordsFile_mem id)
  have hmanifest := Disk.isInside_of_pathSafe hid _ (Disk.manifestFile_mem id)
  simp only [Disk.writeDataset, Directory.files_write?, h.write?_eq hrecords]
  cases hfirst : (l.directory place).write? (recordsFile id) (Disk.recordsBytes records) with
  | none => simp only [Option.map_none, h.put_directory]
  | some d =>
    -- the second file is written behind the same path, over the folder as the first one left it
    have hroom : d.room = (l.directory place).room := by
      obtain ⟨-, -, rfl⟩ := Directory.write?_eq_some_iff.1 hfirst
      rfl
    simp only [Option.map_some, (h.put d).write?_eq hmanifest, directory_put hroom]
    cases d.write? (manifestFile id) _ with
    | none => rfl
    | some d' => simp only [Option.map_some, put_put]

/-- An import behind the path is an import into the folder. -/
theorem Opened.add_eq (h : l.Opened place) (now id : String) (archive : Bytes)
    (kind : DatasetKind) :
    let addition := Disk.add (l.directory place) now id archive kind
    Disk.add l now id archive kind =
      ⟨addition.result, l.put place addition.store, addition.trace⟩ := by
  simp only [Disk.add, h.obstacle?_eq]
  cases hobstacle : Disk.obstacle? (l.directory place) id with
  | some error => simp only [h.put_directory]
  | none =>
    obtain ⟨-, hid, -⟩ := Disk.obstacle?_eq_none_iff.1 hobstacle
    cases Import.ofArchive archive kind with
    | mk imported trace =>
      cases imported with
      | error fault => simp only [h.put_directory]
      | ok records => simp only [h.writeDataset_eq hid]

/-- A removal behind the path is a removal from the folder. -/
theorem Opened.remove_eq (h : l.Opened place) (id : String) :
    let removal := Disk.remove (l.directory place) id
    Disk.remove l id = ⟨removal.result, l.put place removal.store⟩ := by
  simp only [Disk.remove, h.manifestBytes_eq]
  cases hbytes : Disk.manifestBytes (l.directory place) id with
  | error error => simp only [h.put_directory]
  | ok file =>
    -- the manifest was found, so its name can be reached, and the shorter one of the records too
    obtain ⟨hid, hfound⟩ := Disk.manifestBytes_eq_ok_iff.1 hbytes
    have hreach : (l.directory place).reaches (manifestFile id) = true := by
      rw [Directory.find?, Option.ite_none_right_eq_some] at hfound
      exact hfound.1
    have hreach' : ((l.directory place).erase (manifestFile id)).reaches (recordsFile id) =
        true := by
      obtain ⟨hnul, hsize⟩ := (Disk.reaches_manifestFile hid).1 hreach
      exact (Disk.reaches_recordsFile hid).2 ⟨hnul, Nat.le_trans (by omega) hsize⟩
    have hrecords := Disk.isInside_of_pathSafe hid _ (Disk.recordsFile_mem id)
    have hmanifest := Disk.isInside_of_pathSafe hid _ (Disk.manifestFile_mem id)
    have hafter : (l.put place ((l.directory place).erase (manifestFile id))).directory place =
        (l.directory place).erase (manifestFile id) := directory_put rfl
    simp only [h.erase_eq hmanifest hreach, (h.put _).containsFolder_eq hrecords, hafter,
      (h.put _).erase_eq hrecords (hafter.symm ▸ hreach'), put_put, Directory.files_erase,
      Directory.files_containsFolder]
    split <;> rfl

/-- A listing behind the path is one of the folder. -/
theorem Opened.list_eq (h : l.Opened place) : Disk.list l = Disk.list (l.directory place) := by
  show Disk.listingOf l.entries = _
  rw [entries, show l.workspace.reach? l.root = some place from h]
  rfl

/-- Whatever the id is made of, an operation behind the path leaves every other folder of the
workspace as it was. -/
theorem Opened.elsewhere (h : l.Opened place) {other : Place} (hne : other ≠ place)
    (now id : String) (archive : Bytes) (kind : DatasetKind) :
    (Disk.add l now id archive kind).store.workspace.folder other = l.workspace.folder other ∧
      (Disk.remove l id).store.workspace.folder other = l.workspace.folder other := by
  rw [h.add_eq, h.remove_eq]
  exact ⟨if_neg hne, if_neg hne⟩

-- A name that leads out of the folder finds what is there, but no dataset is loaded from it.
example :
    let folder := Folder.empty.addFolder "d"
    let l : Location := ⟨(Workspace.empty.makeFolder [] "d").setFolder []
      { folder with files := folder.files.insert "x.manifest.json" [1] }, "d"⟩
    Files.find? l (manifestFile "../x") = some [1] ∧
      Disk.load l "../x" = .error (.notFound "../x") :=
  ⟨by decide +kernel, rfl⟩

end Location

end CourseQuery.CommandLine
