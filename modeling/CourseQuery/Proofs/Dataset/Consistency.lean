import CourseQuery.Proofs.Dataset.History

/-!
# What a store on disk shows of its history

After every run of operations that began with an empty directory the manifests can be read, the
records beside each of them are those of the last import under its id, and they are what is loaded.
A listing shows each of these datasets once, in the order of the ids, in whatever order the files
are looked at. None of this depends on the folder having been opened only once.
-/

set_option autoImplicit false

namespace CourseQuery

open CommandLine (Opening Place Workspace)

namespace Disk

/-- What stands in a directory under an id after a run: a manifest with that id, and beside it the
records of the last import. -/
structure Stands (start : Directory) (run : List Operation) (d : Directory) (id : String)
    (m : Manifest) (data : Bytes) (records : List Record) : Prop where
  id_eq : m.id = id
  kind_eq : m.kind = .courses
  version_eq : m.version = 1
  found : d.find? (recordsFile id) = some data
  checksum_eq : Checksum.crc32 data = m.checksum
  counted : (recordsOfBytes? data).map List.length = some m.rows
  nonempty : 1 ≤ m.rows
  last : LastImport start id records run
  loaded : load d id = .ok (records.map Record.stored)
  equal : ∀ r ∈ records, r.equal r.stored = true

/-- What a directory holds and shows after a run. -/
structure Consistent (start : Directory) (run : List Operation) (d : Directory) : Prop where
  dataset : ∀ id file, d.folder.files.find? (manifestFile id) = some file →
    ∃ m data records, Manifest.ofBytes file = .ok m ∧ Stands start run d id m data records
  listing : ∀ files : List (String × Option Bytes), files.Perm d.entries →
    (listingOf files).infos.Pairwise (fun a b => a.id < b.id) ∧
      ∀ info, info ∈ (listingOf files).infos ↔
        ∃ id file m, d.folder.files.find? (manifestFile id) = some file ∧
          Manifest.ofBytes file = .ok m ∧ info = ⟨id, .courses, m.rows⟩

section

variable {start d : Directory} {run : List Operation} {id now : String} {records : List Record}
  {file : Bytes}

/-! ## Loading -/

/-- A file that vouches for records is read as their manifest. -/
theorem Vouches.ofBytes (h : Vouches start run d id records now file) :
    Manifest.ofBytes file = .ok (manifestOf id ⟨.courses, records⟩ now) := by
  rw [h.manifest]
  exact Manifest.ofBytes_toBytes h.keepable.counted

/-- A manifest that is found stands for the records it vouches for. -/
theorem Vouched.stands (h : Vouched start run d)
    (hfile : d.folder.files.find? (manifestFile id) = some file)
    (hvouches : Vouches start run d id records now file) :
    Stands start run d id (manifestOf id ⟨.courses, records⟩ now) (recordsBytes records)
      records := by
  have hfound : d.find? (recordsFile id) = some (recordsBytes records) := by
    rw [h.plain.find?_eq, hvouches.records]
  have hread := recordsOfBytes?_recordsBytes hvouches.keepable.storable
  have hmanifest : d.find? (manifestFile id) =
      some (manifestOf id ⟨.courses, records⟩ now).toBytes := by
    rw [h.plain.find?_eq, hfile, hvouches.manifest]
  have hloaded := load_of_files hvouches.pathSafe hvouches.keepable.counted
    hvouches.keepable.complete hmanifest hfound
  refine ⟨rfl, rfl, rfl, hfound, rfl, ?_, ?_, hvouches.last, ?_, ?_⟩
  · rw [hread, Option.map_some, List.length_map]
    rfl
  · exact List.length_pos_iff.2 hvouches.nonempty
  · rw [hloaded, map_reread_eq_stored hvouches.keepable.storable]
  · intro r hr
    exact Record.equal_stored (hvouches.keepable.storable r hr).finite

/-! ## Listing -/

/-- Every manifest of a vouched directory can be read. -/
theorem Vouched.legible (h : Vouched start run d) : Legible d where
  toPlain := h.plain
  manifest hfile := by
    obtain ⟨records, now, hvouches⟩ := h.manifest hfile
    exact ⟨_, hvouches.ofBytes, rfl, rfl⟩

/-- What a run leaves is consistent. -/
theorem Vouched.consistent (h : Vouched start run d) : Consistent start run d where
  dataset id file hfile := by
    obtain ⟨records, now, hvouches⟩ := h.manifest hfile
    exact ⟨_, _, records, hvouches.ofBytes, h.stands hfile hvouches⟩
  listing files hfiles := by
    have hinfos := hfiles.filterMap infoOf?
    constructor
    · apply listingOf_infos_pairwise
      exact hinfos.symm.pairwise h.legible.infos_pairwise fun hab => hab.symm
    · intro info
      rw [← h.legible.mem_infos, ← hinfos.mem_iff]
      exact (List.mergeSort_perm _ _).mem_iff

end

/-! ## Opening the folder again -/

/-- No operation changes the room for names. -/
theorem room_after (op : Operation) (d : Directory) : (op.after d).room = d.room := by
  cases op with
  | add now id archive kind =>
    change (add d now id archive kind).store.room = d.room
    rcases add_cases d now id archive kind with
      ⟨-, hstore⟩ | ⟨records, -, -, -, -, ⟨-, hstore⟩ | ⟨-, hstore, -⟩⟩
    · rw [hstore]
    · rw [hstore]
      rfl
    · rw [hstore]
      rfl
  | remove id =>
    change (remove d id).store.room = d.room
    rcases remove_cases d id with ⟨-, hstore⟩ | ⟨-, -, ⟨-, -, hstore⟩ | ⟨-, -, hstore⟩⟩
    · rw [hstore]
    · rw [hstore]
      rfl
    · rw [hstore]
      rfl
  | load | list | reopen => rfl

/-- In a folder that was opened, an operation does what it does to the directory, and the folder is
still open at the same place. -/
theorem perform_eq {path : String} {o : Opening} {place : Place}
    (hopen : o.workspace.openFolder path = o) (hplace : o.place = some place) (op : Operation) :
    (op.perform path o).workspace.openFolder path = op.perform path o ∧
      (op.perform path o).place = some place ∧
      (op.perform path o).workspace.directory place path =
        op.after (o.workspace.directory place path) := by
  have hset : ∀ folder : Folder, (o.workspace.setFolder place folder).openFolder path =
      ⟨o.workspace.setFolder place folder, some place⟩ := by
    intro folder
    apply Workspace.openFolder_again (w := o.workspace)
    · rw [hopen, hplace]
    · rw [hopen]
      exact Workspace.within_setFolder o.workspace place folder
  have hdirectory : ∀ d : Directory, d.room = (o.workspace.directory place path).room →
      (o.workspace.setFolder place d.folder).directory place path = d := by
    intro d hroom
    rw [Workspace.directory, Workspace.folder_setFolder, Option.getD_some]
    cases d
    cases hroom
    rfl
  obtain ⟨w, place₀⟩ := o
  obtain rfl : place₀ = some place := hplace
  cases op with
  | reopen =>
    have hreopen : Operation.reopen.perform path ⟨w, some place⟩ = ⟨w, some place⟩ := hopen
    rw [hreopen]
    exact ⟨hopen, rfl, rfl⟩
  | add | remove | load | list => exact ⟨hset _, rfl, hdirectory _ (room_after _ _)⟩

/-- A run of operations in a folder that was opened does what it does to the directory. -/
theorem foldl_perform {path : String} {o : Opening} {place : Place}
    (hopen : o.workspace.openFolder path = o) (hplace : o.place = some place)
    (run : List Operation) :
    (run.foldl (Operation.perform path) o).place = some place ∧
      (run.foldl (Operation.perform path) o).workspace.directory place path =
        afterAll (o.workspace.directory place path) run := by
  induction run generalizing o with
  | nil => exact ⟨hplace, rfl⟩
  | cons op run ih =>
    obtain ⟨hopen', hplace', hafter⟩ := perform_eq hopen hplace op
    obtain ⟨hend, hdirectory⟩ := ih hopen' hplace'
    rw [hafter] at hdirectory
    exact ⟨hend, hdirectory⟩

/-- Whatever is done with a store on disk from an empty folder on, and however often the folder is
opened again, each manifest in it can be read, names its id and vouches for the records beside it,
which are those of the last import under the id and are loaded with the same values; and a listing
shows each of these datasets once, in the order of their ids. -/
theorem consistent_of_opened {w : Workspace} {path : String} {place : Place}
    (hopen : (w.openFolder path).place = some place)
    (hempty : (w.openFolder path).workspace.folder place = some .empty) (run : List Operation)
    (hkeep : ∀ op ∈ run, op.Keepable) :
    (run.foldl (Operation.perform path) (w.openFolder path)).place = some place ∧
      Consistent ((w.openFolder path).workspace.directory place path) run
        ((run.foldl (Operation.perform path) (w.openFolder path)).workspace.directory place
          path) := by
  obtain ⟨hplace, hdirectory⟩ :=
    foldl_perform (Workspace.openFolder_openFolder hopen) hopen run
  rw [hdirectory]
  refine ⟨hplace, (vouched_afterAll ?_ hkeep).consistent⟩
  rw [Workspace.directory, hempty]
  rfl

/-- An import into an empty directory of a dataset that can be kept leaves a manifest. -/
theorem find?_manifestFile_add (now : String) {id : String} {archive : Bytes}
    {records : List Record} (himport : (Import.ofArchive archive .courses).1 = .ok records)
    (hkept : Kept id ⟨.courses, records⟩) :
    (add Directory.empty now id archive .courses).store.folder.files.find? (manifestFile id) =
      some (manifestOf id ⟨.courses, records⟩ now).toBytes := by
  have hobstacle : obstacle? Directory.empty id = none :=
    obstacle?_eq_none_iff.2 ⟨hkept.valid, hkept.isPathSafe, by simp [Directory.contains]⟩
  obtain ⟨-, hstore⟩ := add_eq_writeDataset now hobstacle himport
  have hwrite := mirrors_empty.writeDataset_eq now hkept
  dsimp only at hwrite
  rw [hstore, hwrite, find?_withDataset, if_pos rfl]

/-- Operations that import an archive, open the folder again and look at the dataset. -/
def lookAgain (now id : String) (archive : Bytes) : List Operation :=
  [.add now id archive .courses, .reopen, .load id, .list]

/-- Looking again after an import leaves what the import left. -/
theorem afterAll_lookAgain (start : Directory) (now id : String) (archive : Bytes) :
    afterAll start (lookAgain now id archive) = (add start now id archive .courses).store := rfl

/-- An archive of one record holds records that can be kept. -/
theorem exists_kept_oneRecord : ∃ records,
    (Import.ofArchive Import.oneRecord .courses).1 = .ok records ∧
      Kept "abc" ⟨.courses, records⟩ := by
  obtain ⟨r, himport, -⟩ := Import.cells_oneRecord
  have hkeepable : KeepableId "abc" := by
    constructor <;> decide
  exact ⟨[r], himport, by decide, hkeepable,
    .of_import himport (Import.keepable_oneRecord himport)⟩

/-- A folder that is opened in an empty workspace holds nothing. -/
theorem folder_openFolder_empty :
    (Workspace.empty.openFolder "datasets").workspace.folder ["datasets"] = some .empty := rfl

/-- Taken as a directory of its own it is the empty one. -/
theorem directory_openFolder_empty :
    (Workspace.empty.openFolder "datasets").workspace.directory ["datasets"] "datasets" =
      .empty := by
  rw [Workspace.directory, folder_openFolder_empty]
  rfl

/-- A dataset that was imported into an empty workspace stands there after the folder was opened
again. -/
theorem stands_lookAgain :
    (Workspace.empty.openFolder "datasets").place = some ["datasets"] ∧
      (Workspace.empty.openFolder "datasets").workspace.folder ["datasets"] = some .empty ∧
      (∀ op ∈ lookAgain "now" "abc" Import.oneRecord, op.Keepable) ∧
      ∃ m data records, Stands .empty (lookAgain "now" "abc" Import.oneRecord)
        (((lookAgain "now" "abc" Import.oneRecord).foldl (Operation.perform "datasets")
          (Workspace.empty.openFolder "datasets")).workspace.directory ["datasets"] "datasets")
        "abc" m data records := by
  have hopen : (Workspace.empty.openFolder "datasets").place = some ["datasets"] := by
    decide +kernel
  have hkeep : ∀ op ∈ lookAgain "now" "abc" Import.oneRecord, op.Keepable := by
    simp only [lookAgain, List.forall_mem_cons, List.not_mem_nil, false_implies,
      implies_true, and_true]
    exact ⟨fun _ himport => Import.keepable_oneRecord himport, trivial, trivial, trivial⟩
  refine ⟨hopen, folder_openFolder_empty, hkeep, ?_⟩
  obtain ⟨-, hdirectory⟩ := foldl_perform (Workspace.openFolder_openFolder hopen) hopen
    (lookAgain "now" "abc" Import.oneRecord)
  obtain ⟨-, hconsistent⟩ := consistent_of_opened hopen folder_openFolder_empty _ hkeep
  rw [hdirectory, directory_openFolder_empty] at hconsistent ⊢
  -- the manifest that the import wrote is still there at the end
  obtain ⟨records, himport, hkept⟩ := exists_kept_oneRecord
  have hfile := find?_manifestFile_add "now" himport hkept
  rw [← afterAll_lookAgain] at hfile
  obtain ⟨m, data, found, -, hstands⟩ := hconsistent.dataset _ _ hfile
  exact ⟨m, data, found, hstands⟩

end Disk

end CourseQuery
