import CourseQuery.Proofs.Dataset.Plain
import Mathlib.Logic.Function.Basic

/-!
# A directory that keeps what is held

A directory keeps what is held when it is plain, both files of everything that is held stand in it,
and it has no other manifest. There may be records files besides, which an import left that came no
further. An import that succeeds and a removal carry this along, under any ids, and a failed import
does not disturb it. What is loaded are the records that are held, as they come back from their
file.
-/

set_option autoImplicit false

namespace CourseQuery.Disk

variable {held : String → Option (List Record)} {d d' : Directory} {id now : String}
  {records : List Record}

/-- Both files of some records stand in a directory under an id that a store accepts. -/
structure Stored (id : String) (records : List Record) (d : Directory) : Prop where
  valid : DatasetId.Valid id
  pathSafe : isPathSafe id = true
  complete : ∀ r ∈ records, r.Complete ∧ r.Finite
  manifest : ∃ now, d.folder.files.find? (manifestFile id) =
    some (manifestOf id ⟨.courses, records⟩ now).toBytes
  records : d.folder.files.find? (recordsFile id) = some (recordsBytes records)

/-- A dataset is stored wherever its two files are the same. -/
theorem Stored.of_eq (h : Stored id records d)
    (hmanifest : d'.folder.files.find? (manifestFile id) =
      d.folder.files.find? (manifestFile id))
    (hrecords : d'.folder.files.find? (recordsFile id) = d.folder.files.find? (recordsFile id)) :
    Stored id records d' where
  valid := h.valid
  pathSafe := h.pathSafe
  complete := h.complete
  manifest := by rw [hmanifest]; exact h.manifest
  records := by rw [hrecords]; exact h.records

/-- A directory holds the files of what is held and no other manifest. -/
structure Keeps (held : String → Option (List Record)) (d : Directory) : Prop extends Plain d where
  stored : ∀ {id records}, held id = some records → Stored id records d
  only : ∀ {id file}, d.folder.files.find? (manifestFile id) = some file →
    ∃ records, held id = some records

/-- An empty directory keeps nothing. -/
theorem keeps_of_empty (h : d.folder = .empty) : Keeps (fun _ => none) d where
  toPlain := .of_empty h
  stored hheld := nomatch hheld
  only hfile := by rw [h] at hfile; exact nomatch hfile

namespace Keeps

variable (h : Keeps held d)

include h

/-- Where nothing is held there is no manifest. -/
theorem find?_manifestFile_eq_none (hheld : held id = none) :
    d.folder.files.find? (manifestFile id) = none := by
  apply Option.eq_none_iff_forall_ne_some.2
  intro file hfile
  obtain ⟨records, hrecords⟩ := h.only hfile
  rw [hheld] at hrecords
  contradiction

/-- Nothing is held where nothing is in the way of a dataset. -/
theorem free_of_obstacle? (hfree : obstacle? d id = none) : held id = none := by
  obtain ⟨-, -, habsent⟩ := obstacle?_eq_none_iff.1 hfree
  apply Option.eq_none_iff_forall_ne_some.2
  intro records hrecords
  obtain ⟨now, hmanifest⟩ := (h.stored hrecords).manifest
  rw [Directory.contains, h.find?_eq, hmanifest] at habsent
  contradiction

/-! ## Adding and removing -/

/-- Records without a manifest do not disturb what is held. -/
theorem withRecords (hheld : held id = none) (content : Bytes)
    (hreach : d.reaches (recordsFile id) = true) :
    Keeps held (d.withFile (recordsFile id) content) where
  toPlain := h.toPlain.withFile content hreach
  stored := by
    intro other found hother
    have hne : other ≠ id := by
      rintro rfl
      rw [hheld] at hother
      contradiction
    apply (h.stored hother).of_eq
    · rw [Directory.find?_withFile, if_neg (recordsFile_ne_manifestFile _ _).symm]
    · rw [Directory.find?_withFile, if_neg fun heq => hne (recordsFile_inj.1 heq)]
  only := by
    intro other file hfile
    rw [Directory.find?_withFile, if_neg (recordsFile_ne_manifestFile _ _).symm] at hfile
    exact h.only hfile

/-- With both files of a dataset its records are held. -/
theorem put (hvalid : DatasetId.Valid id) (hsafe : isPathSafe id = true)
    (hcomplete : ∀ r ∈ records, r.Complete ∧ r.Finite)
    (hrecords : d.reaches (recordsFile id) = true)
    (hmanifest : d.reaches (manifestFile id) = true) :
    Keeps (Function.update held id (some records)) (withDataset d id ⟨.courses, records⟩ now) where
  toPlain := h.toPlain.withDataset _ now hrecords hmanifest
  stored := by
    intro other found hother
    rw [Function.update_apply] at hother
    split at hother
    · rename_i heq
      obtain rfl := heq
      obtain rfl := Option.some.inj hother
      refine ⟨hvalid, hsafe, hcomplete, ⟨now, ?_⟩, ?_⟩
      · rw [find?_withDataset, if_pos rfl]
      · rw [find?_withDataset, if_neg (recordsFile_ne_manifestFile _ _), if_pos rfl]
    · rename_i hne
      apply (h.stored hother).of_eq
      · rw [find?_withDataset, if_neg fun heq => hne (manifestFile_inj.1 heq),
          if_neg (recordsFile_ne_manifestFile _ _).symm]
      · rw [find?_withDataset, if_neg (recordsFile_ne_manifestFile _ _),
          if_neg fun heq => hne (recordsFile_inj.1 heq)]
  only := by
    intro other file hfile
    rw [Function.update_apply]
    split
    · exact ⟨records, rfl⟩
    · rename_i hne
      rw [find?_withDataset, if_neg fun heq => hne (manifestFile_inj.1 heq),
        if_neg (recordsFile_ne_manifestFile _ _).symm] at hfile
      exact h.only hfile

/-- Without the files of a dataset nothing is held under its id. -/
theorem drop (id : String) : Keeps (Function.update held id none) (withoutDataset d id) where
  toPlain := h.toPlain.withoutDataset id
  stored := by
    intro other found hother
    rw [Function.update_apply] at hother
    split at hother
    · contradiction
    · rename_i hne
      apply (h.stored hother).of_eq
      · rw [find?_withoutDataset, if_neg (recordsFile_ne_manifestFile _ _).symm,
          if_neg fun heq => hne (manifestFile_inj.1 heq)]
      · rw [find?_withoutDataset, if_neg fun heq => hne (recordsFile_inj.1 heq),
          if_neg (recordsFile_ne_manifestFile _ _)]
  only := by
    intro other file hfile
    rw [find?_withoutDataset, if_neg (recordsFile_ne_manifestFile _ _).symm] at hfile
    split at hfile
    · contradiction
    · rename_i hne
      rw [Function.update_of_ne fun heq => hne (manifestFile_inj.2 heq)]
      exact h.only hfile

/-- The step lemma for an import. -/
theorem add (now id : String) (archive : Bytes) (kind : DatasetKind) :
    ((∃ error, (Disk.add d now id archive kind).result = .error error) ∧
        Keeps held (Disk.add d now id archive kind).store) ∨
      ∃ info records, (Disk.add d now id archive kind).result = .ok info ∧
        (Import.ofArchive archive kind).1 = .ok records ∧ held id = none ∧
        Keeps (Function.update held id (some records))
          (Disk.add d now id archive kind).store := by
  rcases add_cases d now id archive kind with
    ⟨hfails, hstore⟩ | ⟨records, hobstacle, himport, hreach, -, hleft⟩
  · rw [hstore]
    exact Or.inl ⟨hfails, h⟩
  have hfree := h.free_of_obstacle? hobstacle
  rcases hleft with ⟨hfails, hstore⟩ | ⟨hresult, hstore, hreach'⟩
  · rw [hstore]
    exact Or.inl ⟨hfails, h.withRecords hfree _ hreach⟩
  · obtain ⟨hvalid, hsafe, -⟩ := obstacle?_eq_none_iff.1 hobstacle
    obtain ⟨rfl, hcomplete⟩ := Import.ofArchive_complete himport
    rw [hstore]
    exact Or.inr ⟨_, records, hresult, himport, hfree,
      h.put hvalid hsafe hcomplete hreach hreach'⟩

/-- The step lemma for a removal. -/
theorem remove (id : String) :
    ((∃ error, (Disk.remove d id).result = .error error) ∧
        Keeps held (Disk.remove d id).store) ∨
      (Disk.remove d id).result = .ok () ∧
        Keeps (Function.update held id none) (Disk.remove d id).store := by
  rcases remove_cases d id with
    ⟨hfails, hstore⟩ | ⟨-, -, ⟨-, hfolder, -⟩ | ⟨hresult, -, hstore⟩⟩
  · rw [hstore]
    exact Or.inl ⟨hfails, h⟩
  · rw [h.containsFolder] at hfolder
    contradiction
  · rw [hstore]
    exact Or.inr ⟨hresult, h.drop id⟩

/-! ## Loading and listing -/

/-- What is loaded are the records that are held, as they come back from their file. -/
theorem load_of_held (hheld : held id = some records) (hcounted : records.length < UInt64.size) :
    Disk.load d id = .ok (records.map Record.reread) := by
  have hstored := h.stored hheld
  obtain ⟨now, hmanifest⟩ := hstored.manifest
  have hrecords := hstored.records
  rw [← h.find?_eq] at hmanifest hrecords
  exact @load_of_files d id now ⟨.courses, records⟩ hstored.pathSafe hcounted hstored.complete
    hmanifest hrecords

/-- Where nothing is held there is no dataset. -/
theorem load_of_free (hheld : held id = none) : Disk.load d id = .error (.notFound id) := by
  have hbytes : manifestBytes d id = .error (.notFound id) := by
    unfold manifestBytes
    split
    · rw [Directory.files_find?, h.find?_eq, h.find?_manifestFile_eq_none hheld]
    · rfl
  simp only [Disk.load, Disk.manifest, hbytes]
  rfl

variable (hcounted : ∀ id records, held id = some records → records.length < UInt64.size)

include hcounted

/-- A manifest that is found is that of the records that are held. -/
theorem ofBytes_of_held {file : Bytes}
    (hfile : d.folder.files.find? (manifestFile id) = some file) :
    ∃ records now, held id = some records ∧
      Manifest.ofBytes file = .ok (manifestOf id ⟨.courses, records⟩ now) := by
  obtain ⟨records, hheld⟩ := h.only hfile
  obtain ⟨now, hmanifest⟩ := (h.stored hheld).manifest
  rw [hfile] at hmanifest
  refine ⟨records, now, hheld, ?_⟩
  rw [Option.some.inj hmanifest]
  exact Manifest.ofBytes_toBytes (hcounted id records hheld)

/-- Every manifest of a directory that keeps what is held can be read. -/
theorem legible : Legible d where
  toPlain := h.toPlain
  manifest hfile := by
    obtain ⟨records, now, -, hread⟩ := h.ofBytes_of_held hcounted hfile
    exact ⟨_, hread, rfl, rfl⟩

/-- A listing shows what is held, each once and in the order of the ids. -/
theorem list_infos :
    (Disk.list d).infos.Pairwise (fun a b => a.id < b.id) ∧
      ∀ info, info ∈ (Disk.list d).infos ↔ ∃ records, held info.id = some records ∧
        info = ⟨info.id, .courses, records.length⟩ := by
  have hlegible := h.legible hcounted
  refine ⟨listingOf_infos_pairwise hlegible.infos_pairwise, fun info => ?_⟩
  have hmem : info ∈ (Disk.list d).infos ↔ info ∈ d.entries.filterMap infoOf? :=
    (List.mergeSort_perm _ _).mem_iff
  rw [hmem, hlegible.mem_infos]
  constructor
  · rintro ⟨id, file, m, hfile, hm, rfl⟩
    obtain ⟨records, now, hheld, hread⟩ := h.ofBytes_of_held hcounted hfile
    obtain rfl := Except.ok.inj (hread.symm.trans hm)
    exact ⟨records, hheld, rfl⟩
  · rintro ⟨records, hheld, hinfo⟩
    obtain ⟨now, hmanifest⟩ := (h.stored hheld).manifest
    obtain ⟨found, now', hfound, hread⟩ := h.ofBytes_of_held hcounted hmanifest
    obtain rfl := Option.some.inj (hheld.symm.trans hfound)
    exact ⟨info.id, _, _, hmanifest, hread, hinfo⟩

end Keeps

end CourseQuery.Disk
