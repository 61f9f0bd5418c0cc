import CourseQuery.CommandLine.Workspace
import CourseQuery.Proofs.CommandLine.Workspace
import CourseQuery.Proofs.Dataset.Plain
import Mathlib.Data.List.Induction

/-!
# A store on disk and its history

A run of operations begins with an empty directory. Whatever was done in it, each manifest that
stands in the directory afterwards is that of the last import under its id, and the records of the
same import stand beside it. This is `Vouched`. It does not say that every records file has a
manifest, since an import can fail between its two files.
-/

set_option autoImplicit false

namespace CourseQuery

open CommandLine (Opening Place Workspace)

namespace Disk

/-! ## Runs of operations -/

/-- What can be done with a store on disk. -/
inductive Operation where
  | add (now id : String) (archive : Bytes) (kind : DatasetKind)
  | remove (id : String)
  | load (id : String)
  | list
  | reopen

namespace Operation

/-- The directory that an operation leaves. -/
def after (d : Directory) : Operation → Directory
  | add now id archive kind => (Disk.add d now id archive kind).store
  | remove id => (Disk.remove d id).store
  | load _ | list | reopen => d

/-- What an operation on the store in the folder at a path leaves of an opening of that folder. -/
def perform (path : String) (o : Opening) (op : Operation) : Opening :=
  match op, o.place with
  | reopen, _ => o.workspace.openFolder path
  | _, none => o
  | op, some place =>
    let d := op.after (o.workspace.directory place path)
    { o with workspace := o.workspace.setFolder place d.folder }

/-- An operation imports records under an id and succeeds. -/
def Imports (op : Operation) (d : Directory) (id : String) (records : List Record) : Prop :=
  ∃ now archive kind info, op = add now id archive kind ∧
    (Disk.add d now id archive kind).result = .ok info ∧
    (Import.ofArchive archive kind).1 = .ok records

/-- If an operation imports records, they can be counted with 64 bits, and their numbers that are
not stored as integers are read back. -/
def Keepable : Operation → Prop
  | add _ _ archive kind => ∀ records, (Import.ofArchive archive kind).1 = .ok records →
    records.length < UInt64.size ∧ ∀ r ∈ records, r.ReadsBack
  | _ => True

end Operation

/-- The directory after a run of operations. -/
def afterAll (start : Directory) (run : List Operation) : Directory :=
  run.foldl Operation.after start

/-- One more operation is done over what the run before it left. -/
theorem afterAll_snoc (start : Directory) (run : List Operation) (op : Operation) :
    afterAll start (run ++ [op]) = op.after (afterAll start run) := by
  simp only [afterAll, List.foldl_append, List.foldl_cons, List.foldl_nil]

/-- The last import under an id that succeeds in a run is of these records. -/
inductive LastImport (start : Directory) (id : String) (records : List Record) :
    List Operation → Prop
  | here {run : List Operation} {op : Operation}
    (imported : op.Imports (afterAll start run) id records) :
    LastImport start id records (run ++ [op])
  | later {run : List Operation} {op : Operation} (before : LastImport start id records run)
    (other : ∀ found, ¬ op.Imports (afterAll start run) id found) :
    LastImport start id records (run ++ [op])

/-- An operation imports only one list of records under an id. -/
theorem Operation.Imports.unique {op : Operation} {d : Directory} {id : String}
    {records found : List Record} (h : op.Imports d id records) (h' : op.Imports d id found) :
    records = found := by
  obtain ⟨now, archive, kind, info, rfl, -, hrecords⟩ := h
  obtain ⟨now', archive', kind', info', hop, -, hfound⟩ := h'
  obtain ⟨-, -, rfl, rfl⟩ := Operation.add.inj hop
  exact Except.ok.inj (hrecords.symm.trans hfound)

/-- The last import of a run is its last operation, or that of the run before it. -/
theorem LastImport.snoc {start : Directory} {id : String} {records : List Record}
    {run : List Operation} {op : Operation} (h : LastImport start id records (run ++ [op])) :
    op.Imports (afterAll start run) id records ∨
      LastImport start id records run ∧ ∀ found, ¬ op.Imports (afterAll start run) id found := by
  generalize hwhole : run ++ [op] = whole at h
  cases h with
  | here imported =>
    obtain ⟨rfl, hop⟩ := List.append_inj' hwhole rfl
    obtain rfl := List.singleton_inj.1 hop
    exact Or.inl imported
  | later before other =>
    obtain ⟨rfl, hop⟩ := List.append_inj' hwhole rfl
    obtain rfl := List.singleton_inj.1 hop
    exact Or.inr ⟨before, other⟩

/-- A run has no more than one last import under an id. -/
theorem LastImport.unique {start : Directory} {id : String} {records found : List Record}
    {run : List Operation} (h : LastImport start id records run)
    (h' : LastImport start id found run) : records = found := by
  induction h with
  | here imported =>
    rcases h'.snoc with imported' | ⟨-, other⟩
    · exact imported.unique imported'
    · exact absurd imported (other records)
  | later before other ih =>
    rcases h'.snoc with imported' | ⟨before', -⟩
    · exact absurd imported' (other found)
    · exact ih before'

/-! ## The invariant -/

section

variable {start d : Directory} {run : List Operation} {op : Operation} {id name : String}
  {file : Bytes}

/-- A file is the manifest of the last import under an id, whose records stand beside it. -/
structure Vouches (start : Directory) (run : List Operation) (d : Directory) (id : String)
    (records : List Record) (now : String) (file : Bytes) : Prop where
  last : LastImport start id records run
  keepable : KeepableRecords records
  nonempty : records ≠ []
  pathSafe : isPathSafe id = true
  manifest : file = (manifestOf id ⟨.courses, records⟩ now).toBytes
  records : d.folder.files.find? (recordsFile id) = some (recordsBytes records)

/-- A directory is what a run leaves: it holds no folder, all its files can be reached, and every
manifest vouches for the records of the last import. -/
structure Vouched (start : Directory) (run : List Operation) (d : Directory) : Prop where
  noFolders : d.folder.folders = .empty
  reached : ∀ {name file}, d.folder.files.find? name = some file → d.reaches name = true
  manifest : ∀ {id file}, d.folder.files.find? (manifestFile id) = some file →
    ∃ records now, Vouches start run d id records now file

/-- In an empty directory no manifest needs to be vouched for. -/
theorem vouched_start (h : start.folder = .empty) : Vouched start [] start where
  noFolders := by rw [h]; rfl
  reached hfile := by rw [h] at hfile; exact nomatch hfile
  manifest hfile := by rw [h] at hfile; exact nomatch hfile

/-- A vouched directory holds nothing but files that can be reached. -/
theorem Vouched.plain (h : Vouched start run d) : Plain d :=
  ⟨h.noFolders, h.reached⟩

/-- What another operation leaves in place still vouches. -/
theorem Vouches.later {d' : Directory} {records : List Record} {now : String}
    (h : Vouches start run d id records now file)
    (hrecords : d'.folder.files.find? (recordsFile id) = d.folder.files.find? (recordsFile id))
    (hother : ∀ found, ¬ op.Imports (afterAll start run) id found) :
    Vouches start (run ++ [op]) d' id records now file where
  last := .later h.last hother
  keepable := h.keepable
  nonempty := h.nonempty
  pathSafe := h.pathSafe
  manifest := h.manifest
  records := by rw [hrecords, h.records]

/-- An operation that is no import, or fails, and leaves the directory as it is keeps the
invariant. -/
theorem Vouched.unchanged (h : Vouched start run d)
    (hother : ∀ id found, ¬ op.Imports (afterAll start run) id found) :
    Vouched start (run ++ [op]) d where
  noFolders := h.noFolders
  reached := h.reached
  manifest hfile := by
    obtain ⟨records, now, hvouches⟩ := h.manifest hfile
    exact ⟨records, now, hvouches.later rfl (hother _)⟩

end

section

variable {start : Directory} {run : List Operation} {now id : String} {archive : Bytes}
  {kind : DatasetKind}

/-- An import under another id, or one that fails, is not one under an id. -/
theorem Operation.not_imports_add {d : Directory} {other : String}
    (h : other ≠ id ∨ ∃ error, (Disk.add d now id archive kind).result = .error error)
    (found : List Record) : ¬ (Operation.add now id archive kind).Imports d other found := by
  rintro ⟨now', archive', kind', info, hop, hresult, -⟩
  obtain ⟨rfl, rfl, rfl, rfl⟩ := Operation.add.inj hop
  rcases h with hne | ⟨error, herror⟩
  · exact hne rfl
  · rw [herror] at hresult
    contradiction

/-- The step lemma for an import. -/
theorem Vouched.add (h : Vouched start run (afterAll start run))
    (hkeep : (Operation.add now id archive kind).Keepable) :
    Vouched start (run ++ [.add now id archive kind])
      (Disk.add (afterAll start run) now id archive kind).store := by
  rcases add_cases (afterAll start run) now id archive kind with
    ⟨hfails, hstore⟩ | ⟨records, hobstacle, himport, hreach, -, hleft⟩
  · rw [hstore]
    exact h.unchanged fun other found => Operation.not_imports_add (Or.inr hfails) found
  obtain ⟨-, hsafe, hfree⟩ := obstacle?_eq_none_iff.1 hobstacle
  -- no manifest stands under the id, so what is written belongs to no other dataset
  have hnone : (afterAll start run).folder.files.find? (manifestFile id) = none := by
    rw [Directory.contains, h.plain.find?_eq, Bool.or_eq_false_iff] at hfree
    exact Option.isNone_iff_eq_none.1 (Option.isSome_eq_false_iff.1 hfree.1)
  rcases hleft with ⟨hfails, hstore⟩ | ⟨hresult, hstore, hreach'⟩
  · rw [hstore]
    have hplain := h.plain.withFile (recordsBytes records) hreach
    refine ⟨hplain.noFolders, hplain.reached, fun {other file} hfile => ?_⟩
    · rcases Catalog.find?_insert_eq_some_iff.1 hfile with ⟨hname, -⟩ | ⟨-, hfile⟩
      · exact absurd hname.symm (recordsFile_ne_manifestFile _ _)
      · obtain ⟨found, then', hvouches⟩ := h.manifest hfile
        refine ⟨found, then', hvouches.later ?_ (Operation.not_imports_add (Or.inr hfails))⟩
        have hne : recordsFile other ≠ recordsFile id := by
          intro heq
          rw [recordsFile_inj.1 heq, hnone] at hfile
          contradiction
        rw [Directory.withFile, Catalog.find?_insert, if_neg hne]
  · have hrecords : KeepableRecords records := .of_import himport (hkeep records himport)
    obtain ⟨rfl, -⟩ := Import.ofArchive_complete himport
    rw [hstore]
    have hplain := h.plain.withDataset ⟨.courses, records⟩ now hreach hreach'
    refine ⟨hplain.noFolders, hplain.reached, fun {other file} hfile => ?_⟩
    · rw [find?_withDataset] at hfile
      by_cases hother : other = id
      · subst hother
        rw [if_pos rfl] at hfile
        refine ⟨records, now, .here ⟨now, archive, .courses, _, rfl, hresult, himport⟩, hrecords,
          Import.ofArchive_ne_nil himport, hsafe, (Option.some.inj hfile).symm, ?_⟩
        rw [find?_withDataset, if_neg (recordsFile_ne_manifestFile _ _), if_pos rfl]
      · rw [if_neg (fun heq => hother (manifestFile_inj.1 heq)),
          if_neg (recordsFile_ne_manifestFile _ _).symm] at hfile
        obtain ⟨found, then', hvouches⟩ := h.manifest hfile
        refine ⟨found, then', hvouches.later ?_ (Operation.not_imports_add (Or.inl hother))⟩
        rw [find?_withDataset, if_neg (recordsFile_ne_manifestFile _ _),
          if_neg (fun heq => hother (recordsFile_inj.1 heq))]

/-- The step lemma for a removal. -/
theorem Vouched.remove (h : Vouched start run (afterAll start run)) (id : String) :
    Vouched start (run ++ [.remove id]) (Disk.remove (afterAll start run) id).store := by
  have hother : ∀ other found,
      ¬ (Operation.remove id).Imports (afterAll start run) other found := by
    rintro other found ⟨now, archive, kind, info, hop, -⟩
    contradiction
  rcases remove_cases (afterAll start run) id with
    ⟨-, hstore⟩ | ⟨-, -, ⟨-, hfolder, -⟩ | ⟨-, -, hstore⟩⟩
  · rw [hstore]
    exact h.unchanged hother
  · rw [h.plain.containsFolder] at hfolder
    contradiction
  · rw [hstore]
    have hplain := h.plain.withoutDataset id
    refine ⟨hplain.noFolders, hplain.reached, fun {other file} hfile => ?_⟩
    · rw [find?_withoutDataset, if_neg (recordsFile_ne_manifestFile _ _).symm] at hfile
      split at hfile
      · contradiction
      · rename_i hname
        obtain ⟨found, then', hvouches⟩ := h.manifest hfile
        refine ⟨found, then', hvouches.later ?_ (hother other)⟩
        have hne : recordsFile other ≠ recordsFile id := by
          intro heq
          rw [recordsFile_inj.1 heq] at hname
          exact hname rfl
        rw [find?_withoutDataset, if_neg hne, if_neg (recordsFile_ne_manifestFile _ _)]

/-- The invariant holds after every run, whatever was done and whatever of it failed. -/
theorem vouched_afterAll (hstart : start.folder = .empty) {run : List Operation}
    (hkeep : ∀ op ∈ run, op.Keepable) : Vouched start run (afterAll start run) := by
  induction run using List.reverseRecOn with
  | nil => exact vouched_start hstart
  | append_singleton run op ih =>
    have h := ih fun o ho => hkeep o (List.mem_append_left _ ho)
    rw [afterAll_snoc]
    cases op with
    | add now id archive kind =>
      exact h.add (hkeep _ (List.mem_append_right _ (List.mem_singleton_self _)))
    | remove id => exact h.remove id
    | load | list | reopen =>
      apply h.unchanged
      rintro other found ⟨now, archive, kind, info, hop, -⟩
      contradiction

end

end Disk

end CourseQuery
