import CourseQuery.Proofs.Dataset.FailedImport
import CourseQuery.Proofs.Dataset.Mirror

/-!
# What an operation changes

Of the operations on a store on disk only adding and removing change the directory, and each of
them in few ways: an import leaves everything, or adds the records alone, or adds both files; a
removal leaves everything, or takes the manifest alone, or takes both files. Invariants of the
directory are proved from these cases.
-/

set_option autoImplicit false

namespace CourseQuery.Disk

variable {d : Directory} {now id : String} {archive : Bytes} {kind : DatasetKind}
  {records : List Record}

/-- The directory that an import leaves when it comes as far as writing: with both files, or with
the records alone when the manifest cannot be written. -/
theorem writeDataset_cases (d : Directory) (now id : String) (kind : DatasetKind)
    (records : List Record) :
    ((∃ error, (writeDataset d now id kind records).1 = .error error) ∧
        (writeDataset d now id kind records).2 = d) ∨
      d.reaches (recordsFile id) = true ∧ d.containsFolder (recordsFile id) = false ∧
        (((∃ error, (writeDataset d now id kind records).1 = .error error) ∧
            (writeDataset d now id kind records).2 =
              d.withFile (recordsFile id) (recordsBytes records)) ∨
          (writeDataset d now id kind records).1 = .ok ⟨id, kind, records.length⟩ ∧
            (writeDataset d now id kind records).2 = withDataset d id ⟨kind, records⟩ now ∧
            d.reaches (manifestFile id) = true) := by
  simp only [writeDataset, Directory.files_write?]
  cases hrecords : d.write? (recordsFile id) (recordsBytes records) with
  | none => exact Or.inl ⟨⟨_, rfl⟩, rfl⟩
  | some d₁ =>
    obtain ⟨hreach, hfolder, rfl⟩ := Directory.write?_eq_some_iff.1 hrecords
    refine Or.inr ⟨hreach, hfolder, ?_⟩
    dsimp only
    cases hmanifest : (d.withFile (recordsFile id) (recordsBytes records)).write? (manifestFile id)
      (Manifest.ofRecords id kind records.length now (recordsBytes records)).toBytes with
    | none => exact Or.inl ⟨⟨_, rfl⟩, rfl⟩
    | some d₂ =>
      obtain ⟨hreach', -, rfl⟩ := Directory.write?_eq_some_iff.1 hmanifest
      exact Or.inr ⟨rfl, rfl, hreach'⟩

/-- An import fails and changes nothing, or nothing is in its way, the archive holds records, and
either these stand in the directory without a manifest or the import succeeds. -/
theorem add_cases (d : Directory) (now id : String) (archive : Bytes) (kind : DatasetKind) :
    ((∃ error, (add d now id archive kind).result = .error error) ∧
        (add d now id archive kind).store = d) ∨
      ∃ records, obstacle? d id = none ∧ (Import.ofArchive archive kind).1 = .ok records ∧
        d.reaches (recordsFile id) = true ∧ d.containsFolder (recordsFile id) = false ∧
        (((∃ error, (add d now id archive kind).result = .error error) ∧
            (add d now id archive kind).store =
              d.withFile (recordsFile id) (recordsBytes records)) ∨
          (add d now id archive kind).result = .ok ⟨id, kind, records.length⟩ ∧
            (add d now id archive kind).store = withDataset d id ⟨kind, records⟩ now ∧
            d.reaches (manifestFile id) = true) := by
  cases hobstacle : obstacle? d id with
  | some error =>
    refine Or.inl ⟨⟨error, ?_⟩, ?_⟩
    · simp only [add, hobstacle]
    · simp only [add, hobstacle]
  | none =>
    cases himport : (Import.ofArchive archive kind).1 with
    | error fault =>
      left
      unfold add
      rw [hobstacle]
      cases hread : Import.ofArchive archive kind with
      | mk imported trace =>
        rw [hread] at himport
        dsimp only at himport
        subst himport
        exact ⟨⟨_, rfl⟩, rfl⟩
    | ok records =>
      obtain ⟨hresult, hstore⟩ := add_eq_writeDataset now hobstacle himport
      rw [hresult, hstore]
      refine (writeDataset_cases d now id kind records).imp_right ?_
      rintro ⟨hreach, hfolder, hleft⟩
      exact ⟨records, rfl, rfl, hreach, hfolder, hleft⟩

/-- An import that succeeds leaves the records of the archive and the manifest that is made for
them. -/
theorem files_of_add {info : DatasetInfo} (h : (add d now id archive kind).result = .ok info) :
    ∃ records, (Import.ofArchive archive kind).1 = .ok records ∧
      info = ⟨id, kind, records.length⟩ ∧ isPathSafe id = true ∧
      (add d now id archive kind).store.find? (manifestFile id) =
        some (manifestOf id ⟨kind, records⟩ now).toBytes ∧
      (add d now id archive kind).store.find? (recordsFile id) = some (recordsBytes records) := by
  rcases add_cases d now id archive kind with
    ⟨⟨error, herror⟩, -⟩ | ⟨records, hobstacle, himport, hrecords, -, ⟨⟨error, herror⟩, -⟩ |
      ⟨hresult, hstore, hmanifest⟩⟩
  · have hclash := h.symm.trans herror
    contradiction
  · have hclash := h.symm.trans herror
    contradiction
  · obtain ⟨-, hsafe, -⟩ := obstacle?_eq_none_iff.1 hobstacle
    have hreach : ∀ name, (withDataset d id ⟨kind, records⟩ now).reaches name = d.reaches name :=
      fun _ => rfl
    refine ⟨records, himport, Except.ok.inj (h.symm.trans hresult), hsafe, ?_, ?_⟩
    · rw [hstore, Directory.find?, hreach, if_pos hmanifest, find?_withDataset, if_pos rfl]
    · rw [hstore, Directory.find?, hreach, if_pos hrecords, find?_withDataset,
        if_neg (recordsFile_ne_manifestFile _ _), if_pos rfl]

/-- A removal fails and changes nothing, or there is a manifest and it goes, and with it the records
unless a folder stands in their place. -/
theorem remove_cases (d : Directory) (id : String) :
    ((∃ error, (remove d id).result = .error error) ∧ (remove d id).store = d) ∨
      isPathSafe id = true ∧ (∃ file, d.find? (manifestFile id) = some file) ∧
        (((∃ error, (remove d id).result = .error error) ∧
            d.containsFolder (recordsFile id) = true ∧
            (remove d id).store = d.erase (manifestFile id)) ∨
          (remove d id).result = .ok () ∧ d.containsFolder (recordsFile id) = false ∧
            (remove d id).store = withoutDataset d id) := by
  unfold remove
  cases hbytes : manifestBytes d id with
  | error error => exact Or.inl ⟨⟨error, rfl⟩, rfl⟩
  | ok file =>
    right
    unfold manifestBytes at hbytes
    split at hbytes
    · rename_i hsafe
      split at hbytes
      · rename_i found hfound
        refine ⟨hsafe, ⟨found, hfound⟩, ?_⟩
        have hfolder : (d.erase (manifestFile id)).containsFolder (recordsFile id) =
            d.containsFolder (recordsFile id) := rfl
        simp only [Directory.files_erase, Directory.files_containsFolder, hfolder]
        cases d.containsFolder (recordsFile id) with
        | true => exact Or.inl ⟨⟨_, rfl⟩, rfl, rfl⟩
        | false => exact Or.inr ⟨rfl, rfl, rfl⟩
      · contradiction
    · contradiction

end CourseQuery.Disk
