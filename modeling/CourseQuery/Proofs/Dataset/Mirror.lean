import CourseQuery.Proofs.Dataset.Directory
import CourseQuery.Proofs.Dataset.Loading
import CourseQuery.Proofs.Dataset.Manifest
import CourseQuery.Proofs.Dataset.Memory
import CourseQuery.Proofs.Import.Records
import CourseQuery.Proofs.Record.Stored

/-!
# The directory of a store in memory

A directory mirrors a store in memory when it holds the two files of every dataset of that store
and nothing else. Every operation then does the same in both stores and leaves a directory that
mirrors the store again, as long as the ids that are added can be kept: they are path safe, hold
no NUL and leave room for the names of both files, and the numbers of the records are read back
from their text. What is loaded from the directory are the records read back, in which a negative
zero has become a plain one.
-/

set_option autoImplicit false

namespace CourseQuery

open Text.Utf8 (size)

/-- An id under which both files can be written, if it is an id at all: it does not lead out of the
directory, holds no NUL and leaves room for the longer of the two endings. -/
structure KeepableId (id : String) : Prop where
  noDot : id.toList.head? ≠ some '.'
  noSlash : '/' ∉ id.toList
  noBackslash : '\\' ∉ id.toList
  noNul : Char.ofNat 0 ∉ id.toList
  short : size id.toList ≤ 241

/-- An id that can be kept is path safe. -/
theorem KeepableId.pathSafe {id : String} (h : KeepableId id) (hvalid : DatasetId.Valid id) :
    Disk.isPathSafe id = true := by
  have hne : id.toList ≠ [] := by
    intro hnil
    simp [DatasetId.Valid, DatasetId.fault?, hnil] at hvalid
  simp [Disk.isPathSafe, hne, h.noDot, h.noSlash, h.noBackslash]

/-- Records that are read back from their file: they can be counted with 64 bits, and each of them
is storable. -/
structure KeepableRecords (records : List Record) : Prop where
  counted : records.length < UInt64.size
  storable : ∀ r ∈ records, r.Storable

/-- Records that can be kept are complete and finite. -/
theorem KeepableRecords.complete {records : List Record} (h : KeepableRecords records) :
    ∀ r ∈ records, r.Complete ∧ r.Finite :=
  fun r hr => ⟨(h.storable r hr).complete, (h.storable r hr).finite⟩

/-- What is imported can be kept when its records can be counted and their numbers are read back. -/
theorem KeepableRecords.of_import {archive : Bytes} {kind : DatasetKind} {records : List Record}
    (h : (Import.ofArchive archive kind).1 = .ok records)
    (hkeep : records.length < UInt64.size ∧ ∀ r ∈ records, r.ReadsBack) :
    KeepableRecords records := by
  obtain ⟨-, hrecords⟩ := Import.ofArchive_complete h
  exact ⟨hkeep.1, fun r hr => ⟨(hrecords r hr).1, (hrecords r hr).2, hkeep.2 r hr⟩⟩

set_option maxRecDepth 100000 in
/-- The one record of the archive has an average that is read back. -/
theorem Import.keepable_oneRecord {records : List Record}
    (h : (ofArchive oneRecord .courses).1 = .ok records) :
    records.length < UInt64.size ∧ ∀ r ∈ records, r.ReadsBack := by
  have hback : ∀ m ∈ oneRecordCells, ∀ x ∈ m.2.storedReal?, x.ReadsBack := by
    decide +kernel
  obtain ⟨r, hr, hcells⟩ := cells_oneRecord
  obtain rfl : [r] = records := Except.ok.inj (hr.symm.trans h)
  refine ⟨show 1 < UInt64.size by decide, fun t ht f c x hc hx => ?_⟩
  rw [List.mem_singleton.1 ht, ← Record.mem_cells, hcells] at hc
  exact hback (f, c) hc x (Cell.mem_storedReal?.2 hx)

namespace Disk

/-- The manifest of a dataset that was imported at a time. -/
def manifestOf (id : String) (dataset : Dataset) (now : String) : Manifest :=
  Manifest.ofRecords id dataset.kind dataset.records.length now (recordsBytes dataset.records)

/-- The manifest of a dataset tells of it what the listing in memory tells. -/
theorem info_manifestOf (id : String) (dataset : Dataset) (now : String) :
    (manifestOf id dataset now).info = dataset.info id := rfl

/-- A dataset of which both files can be written and read back. -/
structure Kept (id : String) (dataset : Dataset) : Prop where
  valid : DatasetId.Valid id
  keepable : KeepableId id
  records : KeepableRecords dataset.records

/-- The id of a dataset that is kept is path safe. -/
theorem Kept.isPathSafe {id : String} {dataset : Dataset} (h : Kept id dataset) :
    isPathSafe id = true :=
  h.keepable.pathSafe h.valid

/-- A dataset that is kept has so few rows that their number fits in 64 bits. -/
theorem Kept.rows_lt {id : String} {dataset : Dataset} (h : Kept id dataset) (now : String) :
    (manifestOf id dataset now).rows < UInt64.size :=
  h.records.counted

/-- The directory with both files of a dataset. -/
def withDataset (d : Directory) (id : String) (dataset : Dataset) (now : String) : Directory :=
  (d.withFile (recordsFile id) (recordsBytes dataset.records)).withFile (manifestFile id)
    (manifestOf id dataset now).toBytes

/-- A dataset that is written has its manifest and its records, and other files are as before. -/
theorem find?_withDataset {d : Directory} {id now name : String} {dataset : Dataset} :
    (withDataset d id dataset now).folder.files.find? name =
      if name = manifestFile id then some (manifestOf id dataset now).toBytes
      else if name = recordsFile id then some (recordsBytes dataset.records)
      else d.folder.files.find? name := by
  simp only [withDataset, Directory.withFile, Catalog.find?_insert]

/-- Where both files can be reached and no folder has their names, they are written. -/
theorem writeDataset_eq_withDataset {d : Directory} {id : String} (now : String) (dataset : Dataset)
    (hrecords : d.reaches (recordsFile id) = true ∧ d.containsFolder (recordsFile id) = false)
    (hmanifest : d.reaches (manifestFile id) = true ∧ d.containsFolder (manifestFile id) = false) :
    writeDataset d now id dataset.kind dataset.records =
      (.ok (dataset.info id), withDataset d id dataset now) := by
  have hfirst : d.write? (recordsFile id) (recordsBytes dataset.records) =
      some (d.withFile (recordsFile id) (recordsBytes dataset.records)) :=
    Directory.write?_eq_some_iff.2 ⟨hrecords.1, hrecords.2, rfl⟩
  have hsecond : (d.withFile (recordsFile id) (recordsBytes dataset.records)).write?
      (manifestFile id) (manifestOf id dataset now).toBytes =
        some (withDataset d id dataset now) :=
    Directory.write?_eq_some_iff.2 ⟨hmanifest.1, hmanifest.2, rfl⟩
  simp only [writeDataset, Directory.files_write?, hfirst]
  rw [← manifestOf, hsecond]
  simp only [info_manifestOf]

/-- The directory without the files of a dataset. -/
def withoutDataset (d : Directory) (id : String) : Directory :=
  (d.erase (manifestFile id)).erase (recordsFile id)

/-- A dataset that is removed has neither records nor manifest, and other files are as before. -/
theorem find?_withoutDataset {d : Directory} {id name : String} :
    (withoutDataset d id).folder.files.find? name =
      if name = recordsFile id then none
      else if name = manifestFile id then none else d.folder.files.find? name := by
  simp only [withoutDataset, Directory.erase, Folder.erase, Catalog.find?_erase]

/-- A directory holds the files of the datasets of a store in memory and nothing else. -/
structure Mirrors (s : MemoryStore) (d : Directory) : Prop where
  room : d.room = longestName
  noFolders : d.folder.folders = .empty
  kept : ∀ {id dataset}, s.datasets.find? id = some dataset → Kept id dataset
  records : ∀ {id dataset}, s.datasets.find? id = some dataset →
    d.folder.files.find? (recordsFile id) = some (recordsBytes dataset.records)
  manifest : ∀ {id dataset}, s.datasets.find? id = some dataset →
    ∃ now, d.folder.files.find? (manifestFile id) = some (manifestOf id dataset now).toBytes
  only : ∀ {name content}, d.folder.files.find? name = some content →
    ∃ id dataset, s.datasets.find? id = some dataset ∧
      (name = recordsFile id ∨ name = manifestFile id)

/-- The empty directory mirrors the empty store. -/
theorem mirrors_empty : Mirrors .empty .empty where
  room := rfl
  noFolders := rfl
  kept h := nomatch h
  records h := nomatch h
  manifest h := nomatch h
  only h := nomatch h

namespace Mirrors

variable {s : MemoryStore} {d : Directory} {id : String} {dataset : Dataset}

/-! ## Finding the files of a dataset -/

/-- Both files of a dataset that is kept can be reached. -/
theorem reaches (h : Mirrors s d) (hkept : Kept id dataset) :
    d.reaches (recordsFile id) = true ∧ d.reaches (manifestFile id) = true := by
  have hlimit : d.limit = 255 := by
    rw [Directory.limit, h.room]
    rfl
  have hshort := hkept.keepable.short
  have hnul := hkept.keepable.noNul
  rw [reaches_recordsFile hkept.isPathSafe, reaches_manifestFile hkept.isPathSafe, hlimit]
  exact ⟨⟨hnul, by omega⟩, ⟨hnul, by omega⟩⟩

/-- A directory that mirrors a store contains no folder. -/
theorem containsFolder (h : Mirrors s d) (name : String) : d.containsFolder name = false := by
  rw [Directory.containsFolder, h.noFolders]
  exact Bool.and_false _

/-- The records of a dataset in memory stand in its records file. -/
theorem find?_recordsFile (h : Mirrors s d) (hs : s.datasets.find? id = some dataset) :
    d.find? (recordsFile id) = some (recordsBytes dataset.records) := by
  rw [Directory.find?, if_pos (h.reaches (h.kept hs)).1, h.records hs]

/-- A dataset in memory has its manifest. -/
theorem find?_manifestFile (h : Mirrors s d) (hs : s.datasets.find? id = some dataset) :
    ∃ now, d.find? (manifestFile id) = some (manifestOf id dataset now).toBytes := by
  obtain ⟨now, hnow⟩ := h.manifest hs
  exact ⟨now, by rw [Directory.find?, if_pos (h.reaches (h.kept hs)).2, hnow]⟩

/-- What is not in memory has no manifest. -/
theorem find?_manifestFile_none (h : Mirrors s d) (hs : s.datasets.find? id = none) :
    d.folder.files.find? (manifestFile id) = none := by
  refine Option.eq_none_iff_forall_ne_some.2 fun content hcontent => ?_
  obtain ⟨other, dataset, hother, hname⟩ := h.only hcontent
  rcases hname with hname | hname
  · exact recordsFile_ne_manifestFile other id hname.symm
  · rw [manifestFile_inj] at hname
    rw [hname, hother] at hs
    contradiction

/-- A manifest stands in the directory if the dataset is in memory. -/
theorem contains_manifestFile (h : Mirrors s d) (id : String) :
    d.contains (manifestFile id) = s.datasets.contains id := by
  rw [Directory.contains, h.containsFolder, Bool.or_false, Catalog.contains]
  cases hs : s.datasets.find? id with
  | none =>
    rw [Directory.find?, h.find?_manifestFile_none hs, ite_self, Option.isSome_none,
      Option.isSome_none]
  | some dataset =>
    obtain ⟨now, hnow⟩ := h.find?_manifestFile hs
    rw [hnow, Option.isSome_some, Option.isSome_some]

/-! ## Loading -/

/-- No manifest is found of what is not in memory. -/
theorem manifestBytes_none (h : Mirrors s d) (hs : s.datasets.find? id = none) :
    manifestBytes d id = .error (.notFound id) := by
  have hfind : d.find? (manifestFile id) = none := by
    rw [Directory.find?, h.find?_manifestFile_none hs, ite_self]
  unfold manifestBytes
  split
  · rw [Directory.files_find?, hfind]
  · rfl

/-- The manifest of a dataset in memory is found. -/
theorem manifestBytes_some (h : Mirrors s d) (hs : s.datasets.find? id = some dataset) :
    ∃ now, manifestBytes d id = .ok (manifestOf id dataset now).toBytes := by
  obtain ⟨now, hnow⟩ := h.find?_manifestFile hs
  refine ⟨now, ?_⟩
  simp only [manifestBytes, if_pos (h.kept hs).isPathSafe, Directory.files_find?, hnow]

end Mirrors

/-- Records with finite numbers come back from their file one by one. -/
theorem recordsOfBytes?_reread {records : List Record} (h : ∀ r ∈ records, r.Finite) :
    recordsOfBytes? (recordsBytes records) = some (records.map Record.reread) := by
  rw [recordsOfBytes?, recordsBytes, Text.Utf8.decode?_encode, Option.bind_some,
    Record.listOfText?_reread h]

/-- The records of a file that was written with its manifest pass every check and come back. -/
theorem verified_reread (id now : String) {dataset : Dataset}
    (h : ∀ r ∈ dataset.records, r.Complete ∧ r.Finite) :
    verified (manifestOf id dataset now) (recordsBytes dataset.records) =
      .ok (dataset.records.map Record.reread) := by
  refine verified_eq_ok_iff.2 ⟨rfl, recordsOfBytes?_reread fun r hr => (h r hr).2,
    List.length_map _, fun r hr => ?_⟩
  obtain ⟨t, ht, rfl⟩ := List.mem_map.1 hr
  exact (h t ht).1.reread

/-- The two files of a dataset are loaded as the records that come back. -/
theorem load_of_files {d : Directory} {id now : String} {dataset : Dataset}
    (hsafe : isPathSafe id = true) (hcounted : dataset.records.length < UInt64.size)
    (hcomplete : ∀ r ∈ dataset.records, r.Complete ∧ r.Finite)
    (hmanifest : d.find? (manifestFile id) = some (manifestOf id dataset now).toBytes)
    (hrecords : d.find? (recordsFile id) = some (recordsBytes dataset.records)) :
    Disk.load d id = .ok (dataset.records.map Record.reread) := by
  have hread : Disk.manifest d id = .ok (manifestOf id dataset now) :=
    manifest_eq_ok_iff.2 ⟨hsafe, _, hmanifest, Manifest.ofBytes_toBytes hcounted⟩
  exact load_eq_ok_iff.2 ⟨_, _, hread, hrecords, verified_reread id now hcomplete⟩

/-- Storable records are read back as they are stored. -/
theorem map_reread_eq_stored {records : List Record} (h : ∀ r ∈ records, r.Storable) :
    records.map Record.reread = records.map Record.stored :=
  List.map_congr_left fun r hr => Record.reread_eq_stored (h r hr).readsBack

/-- The file of storable records is read as the records as they are stored. -/
theorem recordsOfBytes?_recordsBytes {records : List Record} (h : ∀ r ∈ records, r.Storable) :
    recordsOfBytes? (recordsBytes records) = some (records.map Record.stored) := by
  rw [recordsOfBytes?_reread fun r hr => (h r hr).finite, map_reread_eq_stored h]

/-- A listing stands in the order of the ids, in whatever order the files are looked at. -/
theorem listingOf_infos_sorted (files : List (String × Option Bytes)) :
    (listingOf files).infos.Pairwise fun a b => a.id ≤ b.id := by
  refine (List.pairwise_mergeSort (fun a b c hab hbc => ?_) (fun a b => ?_) _).imp
    of_decide_eq_true
  · exact decide_eq_true (String.le_trans (of_decide_eq_true hab) (of_decide_eq_true hbc))
  · simpa using String.le_total a.id b.id

namespace Mirrors

variable {s : MemoryStore} {d : Directory} {id : String} {dataset : Dataset}

/-- What is loaded are the records in memory, read back. -/
theorem load (h : Mirrors s d) (id : String) :
    Disk.load d id = (s.load id).map (List.map Record.stored) := by
  cases hs : s.datasets.find? id with
  | none =>
    simp only [Disk.load, Disk.manifest, h.manifestBytes_none hs, MemoryStore.load, hs]
    rfl
  | some dataset =>
    have hkept := h.kept hs
    obtain ⟨now, hnow⟩ := h.find?_manifestFile hs
    rw [load_of_files hkept.isPathSafe hkept.records.counted hkept.records.complete hnow
      (h.find?_recordsFile hs), map_reread_eq_stored hkept.records.storable]
    simp only [MemoryStore.load, hs, Except.map]

/-! ## Adding -/

/-- The same is in the way of an import into the directory and into memory. -/
theorem obstacle? (h : Mirrors s d) (hid : KeepableId id) :
    Disk.obstacle? d id = s.obstacle? id := by
  unfold Disk.obstacle? MemoryStore.obstacle?
  cases hvalid : StoreError.ofId? id with
  | some error => rfl
  | none =>
    have hsafe := hid.pathSafe (Option.map_eq_none_iff.1 hvalid)
    simp only [if_pos hsafe, Directory.files_contains, h.contains_manifestFile id]

/-- With the files of a dataset the directory mirrors the store with the dataset. -/
theorem put (h : Mirrors s d) (now : String) (hkept : Kept id dataset) :
    Mirrors (s.put id dataset) (withDataset d id dataset now) := by
  refine ⟨h.room, h.noFolders, fun hs => ?_, fun hs => ?_, fun hs => ?_, fun hfound => ?_⟩
  · rcases Catalog.find?_insert_eq_some_iff.1 hs with ⟨rfl, rfl⟩ | ⟨-, hs⟩
    · exact hkept
    · exact h.kept hs
  · rw [find?_withDataset, if_neg (recordsFile_ne_manifestFile _ _)]
    rcases Catalog.find?_insert_eq_some_iff.1 hs with ⟨rfl, rfl⟩ | ⟨hne, hs⟩
    · rw [if_pos rfl]
    · rw [if_neg (fun heq => hne (recordsFile_inj.1 heq)), h.records hs]
  · rcases Catalog.find?_insert_eq_some_iff.1 hs with ⟨rfl, rfl⟩ | ⟨hne, hs⟩
    · exact ⟨now, by rw [find?_withDataset, if_pos rfl]⟩
    · obtain ⟨then', hthen⟩ := h.manifest hs
      refine ⟨then', ?_⟩
      rw [find?_withDataset, if_neg (fun heq => hne (manifestFile_inj.1 heq)),
        if_neg (recordsFile_ne_manifestFile _ _).symm, hthen]
  · have hput : (s.put id dataset).datasets.find? id = some dataset :=
      Catalog.find?_insert_eq_some_iff.2 (.inl ⟨rfl, rfl⟩)
    rw [find?_withDataset] at hfound
    split at hfound
    · rename_i hname
      exact ⟨id, dataset, hput, Or.inr hname⟩
    · split at hfound
      · rename_i hname
        exact ⟨id, dataset, hput, Or.inl hname⟩
      · obtain ⟨other, otherDataset, hs, hname⟩ := h.only hfound
        by_cases hother : other = id
        · exact ⟨other, dataset, hother ▸ hput, hname⟩
        · refine ⟨other, otherDataset, ?_, hname⟩
          exact Catalog.find?_insert_eq_some_iff.2 (.inr ⟨hother, hs⟩)

/-- A dataset that can be kept is written whole. -/
theorem writeDataset_eq (h : Mirrors s d) (now : String) (hkept : Kept id dataset) :
    Disk.writeDataset d now id dataset.kind dataset.records =
      (.ok (dataset.info id), withDataset d id dataset now) := by
  obtain ⟨hrecords, hmanifest⟩ := h.reaches hkept
  exact writeDataset_eq_withDataset now dataset ⟨hrecords, h.containsFolder _⟩
    ⟨hmanifest, h.containsFolder _⟩

/-- An import has the same result in both stores and leaves a directory that mirrors the store. -/
theorem add (h : Mirrors s d) (now : String) (hid : KeepableId id) {archive : Bytes}
    {kind : DatasetKind} (hkeep : ∀ records, (Import.ofArchive archive kind).1 = .ok records →
      KeepableRecords records) :
    (Disk.add d now id archive kind).result = (s.add id archive kind).result ∧
      Mirrors (s.add id archive kind).store (Disk.add d now id archive kind).store := by
  unfold Disk.add MemoryStore.add
  rw [h.obstacle? hid]
  cases hobstacle : s.obstacle? id with
  | some error => exact ⟨rfl, h⟩
  | none =>
    obtain ⟨hvalid, -⟩ := MemoryStore.obstacle?_eq_none_iff.1 hobstacle
    cases himport : Import.ofArchive archive kind with
    | mk imported trace =>
      cases imported with
      | error fault => exact ⟨rfl, h⟩
      | ok records =>
        have hkept : Kept id ⟨kind, records⟩ := ⟨hvalid, hid, hkeep records (by rw [himport])⟩
        have hwrite := h.writeDataset_eq now hkept
        dsimp only at hwrite ⊢
        rw [hwrite]
        exact ⟨rfl, h.put now hkept⟩

/-! ## Removing -/

/-- Without the files of a dataset the directory mirrors the store without the dataset. -/
theorem erase (h : Mirrors s d) (id : String) :
    Mirrors ⟨s.datasets.erase id⟩ (withoutDataset d id) := by
  refine ⟨h.room, h.noFolders, fun hs => ?_, fun hs => ?_, fun hs => ?_, fun hfound => ?_⟩
  · exact h.kept (Catalog.find?_erase_eq_some_iff.1 hs).2
  · obtain ⟨hne, hs⟩ := Catalog.find?_erase_eq_some_iff.1 hs
    rw [find?_withoutDataset, if_neg (fun heq => hne (recordsFile_inj.1 heq)),
      if_neg (recordsFile_ne_manifestFile _ _), h.records hs]
  · obtain ⟨hne, hs⟩ := Catalog.find?_erase_eq_some_iff.1 hs
    obtain ⟨now, hnow⟩ := h.manifest hs
    refine ⟨now, ?_⟩
    rw [find?_withoutDataset, if_neg (recordsFile_ne_manifestFile _ _).symm,
      if_neg (fun heq => hne (manifestFile_inj.1 heq)), hnow]
  · rw [find?_withoutDataset] at hfound
    split at hfound
    · contradiction
    · rename_i hrecords
      split at hfound
      · contradiction
      · rename_i hmanifest
        obtain ⟨other, dataset, hs, hname⟩ := h.only hfound
        refine ⟨other, dataset, Catalog.find?_erase_eq_some_iff.2 ⟨?_, hs⟩, hname⟩
        rintro rfl
        rcases hname with hname | hname
        · exact hrecords hname
        · exact hmanifest hname

/-- Removing has the same result in both stores and leaves a directory that mirrors the store. -/
theorem remove (h : Mirrors s d) (id : String) :
    (Disk.remove d id).result = (s.remove id).result ∧
      Mirrors (s.remove id).store (Disk.remove d id).store := by
  cases hs : s.datasets.find? id with
  | none =>
    have hcontains : s.datasets.contains id = false := by rw [Catalog.contains, hs]; rfl
    simp only [Disk.remove, MemoryStore.remove, h.manifestBytes_none hs, hcontains,
      Bool.false_eq_true, if_false]
    exact ⟨trivial, h⟩
  | some dataset =>
    have hcontains : s.datasets.contains id = true := by rw [Catalog.contains, hs]; rfl
    obtain ⟨now, hnow⟩ := h.manifestBytes_some hs
    have hfolder : (d.erase (manifestFile id)).containsFolder (recordsFile id) = false :=
      h.containsFolder (recordsFile id)
    simp only [Disk.remove, MemoryStore.remove, hnow, hcontains, Directory.files_erase,
      Directory.files_containsFolder, hfolder, Bool.false_eq_true, if_false, if_true]
    exact ⟨trivial, h.erase id⟩

/-! ## Listing -/

/-- The directory lists the names of its files. -/
theorem entries_eq (h : Mirrors s d) :
    d.entries = d.folder.files.names.map fun name => (name, d.find? name) := by
  unfold Directory.entries
  rw [h.noFolders]
  exact List.merge_right _

/-- Every file that a listing looks at is a records file, which it passes over, or the manifest of a
dataset, of which it shows what the store in memory does. -/
theorem eq_info_of_infoOf? (h : Mirrors s d) {name : String} (hname : name ∈ d.folder.files.names)
    {info : DatasetInfo} (hinfo : infoOf? (name, d.find? name) = some info) :
    ∃ id dataset, s.datasets.find? id = some dataset ∧ name = manifestFile id ∧
      info = dataset.info id := by
  obtain ⟨⟨_, content⟩, hmem, rfl⟩ := List.mem_map.1 hname
  obtain ⟨id, dataset, hs, rfl | rfl⟩ := h.only (Catalog.find?_eq_some_iff.2 hmem)
  · simp [infoOf?] at hinfo
  · obtain ⟨now, hnow⟩ := h.find?_manifestFile hs
    simp only [infoOf?, isManifestFile_manifestFile, if_true, hnow, readManifest,
      Manifest.ofBytes_toBytes ((h.kept hs).rows_lt now)] at hinfo
    exact ⟨id, dataset, hs, rfl, (Option.some.inj hinfo).symm⟩

/-- The listing of a directory shows the datasets of the store in memory. -/
theorem mem_infos (h : Mirrors s d) {info : DatasetInfo} :
    info ∈ d.entries.filterMap infoOf? ↔
      ∃ id dataset, s.datasets.find? id = some dataset ∧ info = dataset.info id := by
  rw [h.entries_eq, List.mem_filterMap]
  constructor
  · rintro ⟨_, hmem, hinfo⟩
    obtain ⟨name, hname, rfl⟩ := List.mem_map.1 hmem
    obtain ⟨id, dataset, hs, -, hinfo⟩ := h.eq_info_of_infoOf? hname hinfo
    exact ⟨id, dataset, hs, hinfo⟩
  · rintro ⟨id, dataset, hs, rfl⟩
    obtain ⟨now, hnow⟩ := h.manifest hs
    have hname : manifestFile id ∈ d.folder.files.names :=
      List.mem_map_of_mem (Catalog.find?_eq_some_iff.1 hnow)
    refine ⟨_, List.mem_map_of_mem hname, ?_⟩
    rw [Directory.find?, if_pos (h.reaches (h.kept hs)).2, hnow]
    simp only [infoOf?, isManifestFile_manifestFile, if_true, readManifest,
      Manifest.ofBytes_toBytes ((h.kept hs).rows_lt now)]
    rfl

/-- A listing shows no id twice. -/
theorem infos_pairwise (h : Mirrors s d) :
    (d.entries.filterMap infoOf?).Pairwise fun a b => a.id ≠ b.id := by
  rw [h.entries_eq, List.filterMap_map, List.pairwise_filterMap]
  have hnames : d.folder.files.names.Pairwise (· < ·) :=
    List.pairwise_map.2 d.folder.files.sorted
  refine hnames.imp_of_mem fun {name other} hname hother hlt info hinfo info' hinfo' heq => ?_
  obtain ⟨id, dataset, -, rfl, rfl⟩ := h.eq_info_of_infoOf? hname hinfo
  obtain ⟨id', dataset', -, rfl, rfl⟩ := h.eq_info_of_infoOf? hother hinfo'
  obtain rfl : id = id' := heq
  exact String.lt_irrefl _ hlt

/-- Both stores list the same datasets. -/
theorem list (h : Mirrors s d) : (Disk.list d).infos = s.list.infos := by
  have hperm : (d.entries.filterMap infoOf?).Perm s.list.infos := by
    refine (List.perm_ext_iff_of_nodup (h.infos_pairwise.imp ?_)
      (s.list_sorted.imp ?_)).2 fun info => ?_
    · rintro a _ hne rfl
      exact hne rfl
    · rintro a _ hlt rfl
      exact String.lt_irrefl _ hlt
    · rw [h.mem_infos, MemoryStore.mem_list_iff]
  have hle : (Disk.list d).infos.Pairwise fun a b => a.id ≤ b.id :=
    listingOf_infos_sorted d.entries
  refine List.Perm.eq_of_pairwise (fun a b ha hb hab hba => ?_) hle
    (s.list_sorted.imp fun hlt => Std.le_of_lt hlt) ((List.mergeSort_perm _ _).trans hperm)
  have ha := hperm.mem_iff.1 ((List.mergeSort_perm _ _).mem_iff.1 ha)
  obtain ⟨id, dataset, hs, rfl⟩ := MemoryStore.mem_list_iff.1 ha
  obtain ⟨id', dataset', hs', rfl⟩ := MemoryStore.mem_list_iff.1 hb
  obtain rfl : id = id' := String.le_antisymm hab hba
  rw [Option.some.inj (hs.symm.trans hs')]

end Mirrors

end Disk

end CourseQuery
