import CourseQuery.Proofs.Dataset.Changes

/-!
# Directories that a store has to itself

A directory is plain when it holds no folder and all its files can be reached; then what is found in
it are its files. It stays so whatever a store does in it. A plain directory is legible when every
manifest in it can be read and is that of a dataset of courses under the id that its file is named
after. A listing of a legible directory shows each of these manifests once.
-/

set_option autoImplicit false

namespace CourseQuery.Disk

/-- A directory without folders, all of whose files can be reached. -/
structure Plain (d : Directory) : Prop where
  noFolders : d.folder.folders = .empty
  reached : ∀ {name file}, d.folder.files.find? name = some file → d.reaches name = true

namespace Plain

variable {d : Directory} {name : String}

/-- An empty directory is plain. -/
theorem of_empty (h : d.folder = .empty) : Plain d where
  noFolders := by rw [h]; rfl
  reached hfile := by rw [h] at hfile; exact nomatch hfile

/-- Every file of a plain directory can be reached. -/
theorem find?_eq (h : Plain d) (name : String) : d.find? name = d.folder.files.find? name := by
  unfold Directory.find?
  split
  · rfl
  · rename_i hreach
    cases hfile : d.folder.files.find? name with
    | none => rfl
    | some file => exact absurd (h.reached hfile) hreach

/-- A plain directory contains no folder. -/
theorem containsFolder (h : Plain d) (name : String) : d.containsFolder name = false := by
  rw [Directory.containsFolder, h.noFolders]
  exact Bool.and_false _

/-- A plain directory lists its files. -/
theorem entries_eq (h : Plain d) :
    d.entries = d.folder.files.entries.map fun e => (e.1, some e.2) := by
  have hfiles : d.folder.files.names.map (fun name => (name, d.find? name)) =
      d.folder.files.entries.map fun e => (e.1, some e.2) := by
    rw [Catalog.names, List.map_map]
    refine List.map_congr_left fun e he => ?_
    have hfound : d.folder.files.find? e.1 = some e.2 := Catalog.find?_eq_some_iff.2 he
    rw [Function.comp_apply, h.find?_eq, hfound]
  unfold Directory.entries
  rw [hfiles, h.noFolders]
  exact List.merge_right _

/-- Writing a file that can be reached keeps a directory plain. -/
theorem withFile (h : Plain d) (content : Bytes) (hname : d.reaches name = true) :
    Plain (d.withFile name content) where
  noFolders := h.noFolders
  reached := by
    intro other file hfile
    rcases Catalog.find?_insert_eq_some_iff.1 hfile with ⟨rfl, -⟩ | ⟨-, hfile⟩
    · exact hname
    · exact h.reached hfile

/-- Removing a file keeps a directory plain. -/
theorem erase (h : Plain d) (name : String) : Plain (d.erase name) where
  noFolders := h.noFolders
  reached hfile := h.reached (Catalog.find?_erase_eq_some_iff.1 hfile).2

/-- Writing a dataset whose files can be reached keeps a directory plain. -/
theorem withDataset (h : Plain d) {id : String} (dataset : Dataset) (now : String)
    (hrecords : d.reaches (recordsFile id) = true)
    (hmanifest : d.reaches (manifestFile id) = true) : Plain (withDataset d id dataset now) :=
  (h.withFile _ hrecords).withFile _ hmanifest

/-- Removing a dataset keeps a directory plain. -/
theorem withoutDataset (h : Plain d) (id : String) : Plain (withoutDataset d id) :=
  (h.erase _).erase _

end Plain

/-- A name with the end of a manifest is the manifest of some id. -/
theorem exists_of_isManifestFile {name : String} (h : isManifestFile name = true) :
    ∃ id, name = manifestFile id := by
  rw [isManifestFile, List.isSuffixOf_iff_suffix] at h
  obtain ⟨front, hfront⟩ := h
  refine ⟨String.ofList front, ?_⟩
  rw [← String.toList_inj, ← hfront, manifestFile, String.toList_append, String.toList_ofList]

/-- A plain directory whose manifests can be read and fit the names of their files. -/
structure Legible (d : Directory) : Prop extends Plain d where
  manifest : ∀ {id file}, d.folder.files.find? (manifestFile id) = some file →
    ∃ m, Manifest.ofBytes file = .ok m ∧ m.id = id ∧ m.kind = .courses

namespace Legible

variable {d : Directory} {name : String} {info : DatasetInfo}

/-- A listing shows what stands under the name of a manifest. -/
theorem infoOf?_eq_some_iff (h : Legible d) {file : Bytes}
    (hfile : d.folder.files.find? name = some file) :
    infoOf? (name, some file) = some info ↔
      ∃ id m, name = manifestFile id ∧ Manifest.ofBytes file = .ok m ∧
        info = ⟨id, .courses, m.rows⟩ := by
  constructor
  · intro hinfo
    simp only [infoOf?, Option.ite_none_right_eq_some] at hinfo
    obtain ⟨hmanifest, hinfo⟩ := hinfo
    obtain ⟨id, rfl⟩ := exists_of_isManifestFile hmanifest
    obtain ⟨m, hm, hid, hkind⟩ := h.manifest hfile
    rw [readManifest, hm] at hinfo
    refine ⟨id, m, rfl, hm, ?_⟩
    rw [← Option.some.inj hinfo, ← hid, ← hkind]
    rfl
  · rintro ⟨id, m, rfl, hm, rfl⟩
    obtain ⟨m', hm', hid, hkind⟩ := h.manifest hfile
    obtain rfl := Except.ok.inj (hm'.symm.trans hm)
    simp only [infoOf?, isManifestFile_manifestFile, if_true, readManifest, hm]
    rw [← hid, ← hkind]
    rfl

/-- The listing of a legible directory tells of each manifest in it and of nothing else. -/
theorem mem_infos (h : Legible d) :
    info ∈ d.entries.filterMap infoOf? ↔
      ∃ id file m, d.folder.files.find? (manifestFile id) = some file ∧
        Manifest.ofBytes file = .ok m ∧ info = ⟨id, .courses, m.rows⟩ := by
  rw [h.entries_eq, List.filterMap_map, List.mem_filterMap]
  constructor
  · rintro ⟨⟨name, file⟩, hmem, hinfo⟩
    have hfile := Catalog.find?_eq_some_iff.2 hmem
    obtain ⟨id, m, rfl, hm, rfl⟩ := (h.infoOf?_eq_some_iff hfile).1 hinfo
    exact ⟨id, file, m, hfile, hm, rfl⟩
  · rintro ⟨id, file, m, hfile, hm, rfl⟩
    refine ⟨(manifestFile id, file), Catalog.find?_eq_some_iff.1 hfile, ?_⟩
    exact (h.infoOf?_eq_some_iff hfile).2 ⟨id, m, rfl, hm, rfl⟩

/-- Files with different names show different ids. -/
theorem infos_pairwise (h : Legible d) :
    (d.entries.filterMap infoOf?).Pairwise fun a b => a.id ≠ b.id := by
  rw [h.entries_eq, List.filterMap_map, List.pairwise_filterMap]
  refine d.folder.files.sorted.imp_of_mem ?_
  intro a b ha hb hlt info hinfo info' hinfo' heq
  obtain ⟨id, m, hname, -, rfl⟩ :=
    (h.infoOf?_eq_some_iff (Catalog.find?_eq_some_iff.2 ha)).1 hinfo
  obtain ⟨id', m', hname', -, rfl⟩ :=
    (h.infoOf?_eq_some_iff (Catalog.find?_eq_some_iff.2 hb)).1 hinfo'
  obtain rfl : id = id' := heq
  rw [hname, hname'] at hlt
  exact String.lt_irrefl _ hlt

end Legible

/-- A listing of files whose ids differ is sorted strictly. -/
theorem listingOf_infos_pairwise {files : List (String × Option Bytes)}
    (h : (files.filterMap infoOf?).Pairwise fun a b => a.id ≠ b.id) :
    (listingOf files).infos.Pairwise fun a b => a.id < b.id := by
  -- that ids differ does not depend on the order in which the files were looked at
  have hperm : (listingOf files).infos.Perm (files.filterMap infoOf?) := List.mergeSort_perm _ _
  have hne : (listingOf files).infos.Pairwise fun a b => a.id ≠ b.id :=
    hperm.symm.pairwise h fun hab => hab.symm
  have hle := listingOf_infos_sorted files
  exact hle.imp₂ (fun _ _ hab hdiff => Std.lt_of_le_of_ne hab hdiff) hne

end CourseQuery.Disk
