import CourseQuery.Proofs.Dataset.Damage
import CourseQuery.Proofs.Dataset.Stray

/-!
# Dropping a damaged dataset

A dataset is dropped by the names of its files, and neither file is opened for it. So any two files
under these names can be dropped, whatever they hold, and so can a manifest whose records are
missing. What is left is the rest of the directory, in which the id is free; and an import writes
both files anew, so that what is loaded after it is the archive's and nothing else.
-/

set_option autoImplicit false

namespace CourseQuery.Disk

variable {d e : Directory} {id : String}

/-- A dataset whose manifest is a file and whose records are a file or missing. -/
structure Droppable (d : Directory) (id : String) : Prop where
  safe : isPathSafe id = true
  manifest : ∃ file, d.find? (manifestFile id) = some file
  noFolder : ∀ name ∈ filesOf id, d.containsFolder name = false

/-- A directory after a dataset was dropped: the files of the dataset are gone, and all else is as
it was. -/
structure Dropped (id : String) (d e : Directory) : Prop where
  gone : ∀ name ∈ filesOf id, e.folder.files.find? name = none
  others : DifferOnlyAt id d e
  folders : e.folder.folders = d.folder.folders

/-! ## Dropping -/

/-- A dataset that can be dropped is dropped with both its files. -/
theorem Droppable.remove_eq (h : Droppable d id) : remove d id = ⟨.ok (), withoutDataset d id⟩ := by
  obtain ⟨file, hfile⟩ := h.manifest
  have hfolder : (d.erase (manifestFile id)).containsFolder (recordsFile id) = false :=
    h.noFolder _ (recordsFile_mem id)
  rw [remove, manifestBytes_eq_ok_iff.2 ⟨h.safe, hfile⟩]
  dsimp only
  rw [Directory.files_erase, Directory.files_containsFolder, hfolder, if_neg Bool.false_ne_true]
  rfl

/-- Both files can be reached, since the name of the manifest is the longer one. -/
theorem Droppable.reaches (h : Droppable d id) : ∀ name ∈ filesOf id, d.reaches name = true := by
  obtain ⟨file, hfile⟩ := h.manifest
  rw [Directory.find?, Option.ite_none_right_eq_some] at hfile
  obtain ⟨hnul, hsize⟩ := (reaches_manifestFile h.safe).1 hfile.1
  intro name hname
  rcases mem_filesOf.1 hname with rfl | rfl
  · exact (reaches_recordsFile h.safe).2 ⟨hnul, Nat.le_of_succ_le hsize⟩
  · exact hfile.1

/-- A directory without the two files of a dataset is one from which it was dropped. -/
theorem dropped_withoutDataset (d : Directory) (id : String) :
    Dropped id d (withoutDataset d id) where
  gone := by
    intro name hname
    rw [find?_withoutDataset]
    rcases mem_filesOf.1 hname with rfl | rfl
    · rw [if_pos rfl]
    · rw [if_pos rfl, ite_self]
  others := ((differOnlyAt_refl id d).erase (manifestFile_mem id)).erase (recordsFile_mem id)
  folders := rfl

namespace Dropped

variable (h : Dropped id d e)

include h

/-- Neither file of a dropped dataset is found. -/
theorem find?_eq_none {name : String} (hname : name ∈ filesOf id) : e.find? name = none := by
  rw [Directory.find?, h.gone name hname, ite_self]

/-- Dropping a dataset changes nothing about which names can be reached. -/
theorem reaches_eq (name : String) : e.reaches name = d.reaches name := by
  rw [Directory.reaches, Directory.reaches, h.others.room]

/-- Dropping a dataset changes no folder. -/
theorem containsFolder_eq (name : String) : e.containsFolder name = d.containsFolder name := by
  rw [Directory.containsFolder, Directory.containsFolder, h.reaches_eq, h.folders]

/-- Both files can be written again. -/
theorem writable (hdroppable : Droppable d id) :
    ∀ name ∈ filesOf id, e.reaches name = true ∧ e.containsFolder name = false := by
  intro name hname
  rw [h.reaches_eq, h.containsFolder_eq]
  exact ⟨hdroppable.reaches name hname, hdroppable.noFolder name hname⟩

/-- A dataset that was dropped is not there to be dropped again. -/
theorem remove_eq : remove e id = ⟨.error (.notFound id), e⟩ := by
  have hbytes : manifestBytes e id = .error (.notFound id) := by
    rw [manifestBytes, Directory.files_find?, h.find?_eq_none (manifestFile_mem id), ite_self]
  rw [remove, hbytes]

/-! ## Importing again -/

/-- Nothing is in the way of importing a dropped dataset anew. -/
theorem obstacle?_eq_none (hdroppable : Droppable d id) (hvalid : DatasetId.Valid id) :
    obstacle? e id = none := by
  refine obstacle?_eq_none_iff.2 ⟨hvalid, hdroppable.safe, ?_⟩
  rw [Directory.contains, h.find?_eq_none (manifestFile_mem id),
    (h.writable hdroppable _ (manifestFile_mem id)).2]
  rfl

/-- Nothing is in the way of an import under the id of a dataset that was dropped. -/
theorem add_result {archive : Bytes} {kind : DatasetKind} {records : List Record} (now : String)
    (hdroppable : Droppable d id) (hvalid : DatasetId.Valid id)
    (himport : (Import.ofArchive archive kind).1 = .ok records) :
    (add e now id archive kind).result = .ok ⟨id, kind, records.length⟩ := by
  have hwritable := h.writable hdroppable
  have hwrite := writeDataset_eq_withDataset now ⟨kind, records⟩
    (hwritable _ (recordsFile_mem id)) (hwritable _ (manifestFile_mem id))
  obtain ⟨hresult, -⟩ := add_eq_writeDataset now (h.obstacle?_eq_none hdroppable hvalid) himport
  rw [hresult, hwrite]
  rfl

end Dropped

/-- A dataset whose manifest is a file can be dropped, whatever this file and that of the records
hold, and even if the latter is missing. Then both files are gone, all else in the directory is as
it was, and the dataset is not there to be dropped again. Every archive that can be imported is
imported under the id. If its records can be counted with 64 bits and the numbers that are not
stored as integers are read back, then exactly these records are loaded, as they are stored. -/
theorem drop_and_reimport (h : Droppable d id) (hvalid : DatasetId.Valid id) :
    ∃ dropped, remove d id = ⟨.ok (), dropped⟩ ∧ Dropped id d dropped ∧
      remove dropped id = ⟨.error (.notFound id), dropped⟩ ∧
      ∀ now archive kind records, (Import.ofArchive archive kind).1 = .ok records →
        (add dropped now id archive kind).result = .ok ⟨id, kind, records.length⟩ ∧
        (records.length < UInt64.size → (∀ r ∈ records, r.ReadsBack) →
          load (add dropped now id archive kind).store id = .ok (records.map Record.stored) ∧
            SameValues records (records.map Record.stored)) := by
  have hdropped := dropped_withoutDataset d id
  refine ⟨withoutDataset d id, h.remove_eq, hdropped, hdropped.remove_eq, ?_⟩
  intro now archive kind records himport
  have hresult := hdropped.add_result now h hvalid himport
  refine ⟨hresult, fun hcounted hback => ?_⟩
  have hkeep := KeepableRecords.of_import himport ⟨hcounted, hback⟩
  rw [← map_reread_eq_stored hkeep.storable]
  refine ⟨load_add hresult himport hcounted, (sameValues_reread_iff fun r hr => ?_).2 hback⟩
  exact (hkeep.storable r hr).finite

/-- The dataset with a manifest of one byte that begins no character is dropped, and an archive is
imported in its place. -/
theorem drop_and_reimport_withManifest :
    Droppable (withManifest [255]) "abc" ∧ DatasetId.Valid "abc" ∧
      ∃ dropped records, remove (withManifest [255]) "abc" = ⟨.ok (), dropped⟩ ∧
        (Import.ofArchive Import.oneRecord .courses).1 = .ok records ∧
        (add dropped "now" "abc" Import.oneRecord .courses).result =
          .ok ⟨"abc", .courses, records.length⟩ ∧
        load (add dropped "now" "abc" Import.oneRecord .courses).store "abc" =
          .ok (records.map Record.stored) := by
  have hdroppable : Droppable (withManifest [255]) "abc" := by
    refine ⟨by decide, ⟨[255], (find?_withManifest [255]).1⟩, fun name _ => ?_⟩
    exact Directory.containsFolder_empty name
  have hvalid : DatasetId.Valid "abc" := by decide
  obtain ⟨dropped, hremove, -, -, himports⟩ := drop_and_reimport hdroppable hvalid
  obtain ⟨r, himport, -⟩ := Import.cells_oneRecord
  obtain ⟨hcounted, hback⟩ := Import.keepable_oneRecord himport
  obtain ⟨hresult, hloads⟩ := himports "now" Import.oneRecord .courses [r] himport
  exact ⟨hdroppable, hvalid, dropped, [r], hremove, himport, hresult, (hloads hcounted hback).1⟩

end CourseQuery.Disk
