import CourseQuery.Proofs.Dataset.History
import CourseQuery.Proofs.Dataset.Isolation
import Mathlib.Data.List.Basic
import Mathlib.Data.List.Forall2

/-!
# Records files without a manifest

An import that comes no further than its first file leaves records without a manifest. Such a file
is as good as none: a dataset is there when its manifest is, and no operation looks at the records
of a dataset that is not there. So directories that differ in such files alone are told apart by no
run of operations, and they never come to differ in anything else. An import writes over such a
file.

What is loaded after an import is what comes back of the records that were imported, and these are
the records themselves as long as their numbers are read back. A number whose text has an exponent
or many digits need not be.
-/

set_option autoImplicit false

namespace CourseQuery.Disk

open Import (oneRecord cells_oneRecord)

variable {d e : Directory} {id name : String}

/-! ## A dataset is there when its manifest is -/

/-- A file stands in the place of the manifest of a dataset whose files lie in the directory. -/
def HasManifest (d : Directory) (id : String) : Prop :=
  isPathSafe id = true ∧ ∃ file, d.find? (manifestFile id) = some file

/-- A manifest is looked for before anything else, and only then can a dataset be missing. -/
theorem manifestBytes_cases (d : Directory) (id : String) :
    (¬ HasManifest d id ∧ manifestBytes d id = .error (.notFound id)) ∨
      HasManifest d id ∧ ∃ file, d.find? (manifestFile id) = some file ∧
        manifestBytes d id = .ok file := by
  unfold manifestBytes HasManifest
  rw [Directory.files_find?]
  cases isPathSafe id with
  | false => simp
  | true =>
    cases d.find? (manifestFile id) with
    | none => simp
    | some file => simp

/-- Whatever is wrong with a manifest, it is told in another way. -/
theorem manifest_ne_notFound (h : HasManifest d id) :
    manifest d id ≠ .error (.notFound id) := by
  rcases manifestBytes_cases d id with ⟨hmissing, -⟩ | ⟨-, file, -, hbytes⟩
  · exact absurd h hmissing
  · simp only [manifest, hbytes, bind, Except.bind]
    cases hread : Manifest.ofBytes file with
    | ok m => simp
    | error error =>
      unfold Manifest.ofBytes at hread
      split at hread
      · rw [← Except.error.inj hread]
        simp
      · split at hread
        · rw [← Except.error.inj hread]
          simp
        · contradiction

/-- A dataset is not found when its id has no manifest. -/
theorem load_eq_notFound_iff : load d id = .error (.notFound id) ↔ ¬ HasManifest d id := by
  constructor
  · intro hload hthere
    unfold load at hload
    cases hmanifest : manifest d id with
    | error error =>
      rw [hmanifest] at hload
      obtain rfl := Except.error.inj hload
      exact manifest_ne_notFound hthere hmanifest
    | ok m =>
      simp only [hmanifest, bind, Except.bind] at hload
      split at hload
      · simp at hload
      · split at hload
        · simp at hload
        · contradiction
  · intro hmissing
    rcases manifestBytes_cases d id with ⟨-, hbytes⟩ | ⟨hthere, -⟩
    · simp only [load, manifest, hbytes]
      rfl
    · exact absurd hthere hmissing

/-- A dataset is not found to be removed when its id has no manifest. -/
theorem remove_eq_notFound_iff :
    (remove d id).result = .error (.notFound id) ↔ ¬ HasManifest d id := by
  unfold remove
  rcases manifestBytes_cases d id with ⟨hmissing, hbytes⟩ | ⟨hthere, file, -, hbytes⟩
  · simp only [hbytes, iff_true_right hmissing]
  · rw [hbytes]
    refine iff_of_false ?_ (not_not_intro hthere)
    dsimp only
    split <;> simp

/-- An id that a store accepts is taken when something stands in the place of the manifest. -/
theorem obstacle?_eq_exists_iff : obstacle? d id = some (.exists id) ↔
    DatasetId.Valid id ∧ isPathSafe id = true ∧ d.contains (manifestFile id) = true := by
  unfold obstacle? StoreError.ofId? DatasetId.Valid
  rw [Directory.files_contains]
  cases DatasetId.fault? id with
  | some fault => simp
  | none => cases isPathSafe id <;> simp

/-- A dataset exists already when a valid id has a manifest. -/
theorem add_eq_exists_iff (now : String) (archive : Bytes) (kind : DatasetKind) :
    (add d now id archive kind).result = .error (.exists id) ↔
      DatasetId.Valid id ∧ isPathSafe id = true ∧ d.contains (manifestFile id) = true := by
  rw [← obstacle?_eq_exists_iff]
  cases hobstacle : obstacle? d id with
  | some error =>
    simp only [add, hobstacle]
    exact ⟨fun h => congrArg some (Except.error.inj h), fun h => congrArg _ (Option.some.inj h)⟩
  | none =>
    refine iff_of_false (fun hresult => ?_) (Option.some_ne_none _).symm
    cases himport : (Import.ofArchive archive kind).1 with
    | error fault =>
      obtain ⟨trace, hread⟩ : ∃ trace, Import.ofArchive archive kind = (.error fault, trace) :=
        ⟨_, Prod.ext himport rfl⟩
      simp [add, hobstacle, hread] at hresult
    | ok records =>
      obtain ⟨hwrite, -⟩ := add_eq_writeDataset now hobstacle himport
      rw [hwrite] at hresult
      unfold writeDataset at hresult
      dsimp only at hresult
      split at hresult
      · simp at hresult
      · split at hresult
        · simp at hresult
        · contradiction

/-- Whether a dataset is there is told by its manifest. -/
structure KnownByManifest (d : Directory) (id : String) : Prop where
  load : load d id = .error (.notFound id) ↔ ¬ HasManifest d id
  remove : (remove d id).result = .error (.notFound id) ↔ ¬ HasManifest d id
  add : ∀ now archive kind, (add d now id archive kind).result = .error (.exists id) ↔
    DatasetId.Valid id ∧ isPathSafe id = true ∧ d.contains (manifestFile id) = true

/-- In any directory a dataset is known by its manifest. -/
theorem knownByManifest (d : Directory) (id : String) : KnownByManifest d id :=
  ⟨load_eq_notFound_iff, remove_eq_notFound_iff, add_eq_exists_iff⟩

/-- A listing looks at manifests alone. -/
theorem listingOf_manifests (files : List (String × Option Bytes)) :
    listingOf files = listingOf (files.filter fun file => isManifestFile file.1) := by
  have hinfos : (files.filter fun file => isManifestFile file.1).filterMap infoOf? =
      files.filterMap infoOf? := by
    rw [List.filterMap_filter]
    refine List.filterMap_congr fun file _ => ?_
    cases hmanifest : isManifestFile file.1 <;> simp [infoOf?, hmanifest]
  have htrace : (files.filter fun file => isManifestFile file.1).filterMap unreadable? =
      files.filterMap unreadable? := by
    rw [List.filterMap_filter]
    refine List.filterMap_congr fun file _ => ?_
    cases hmanifest : isManifestFile file.1 <;> simp [unreadable?, hmanifest]
  rw [listingOf, listingOf, hinfos, htrace]

/-! ## Directories that differ in stray records -/

/-- A name is that of a records file whose manifest is missing. -/
def IsStray (d : Directory) (name : String) : Prop :=
  ∃ id, name = recordsFile id ∧ d.folder.files.find? (manifestFile id) = none

/-- Two directories hold the same but for records files whose manifest is missing. -/
structure SameButStrays (d e : Directory) : Prop where
  room : d.room = e.room
  folder : ∀ name, d.folder.folders.contains name = e.folder.folders.contains name
  same : ∀ name, ¬ IsStray d name → SameAt d e name

/-- No manifest is a stray file. -/
theorem not_isStray_manifestFile (d : Directory) (id : String) :
    ¬ IsStray d (manifestFile id) := by
  rintro ⟨other, hname, -⟩
  exact recordsFile_ne_manifestFile other id hname.symm

/-- A stray file may stand in one directory and be missing in another one. -/
theorem sameButStrays_of_isStray (hname : IsStray d name) (content : Bytes) :
    SameButStrays (d.withFile name content) (d.erase name) := by
  obtain ⟨id, rfl, hmissing⟩ := hname
  refine ⟨rfl, fun _ => rfl, fun other hother => ?_⟩
  have hne : other ≠ recordsFile id := by
    rintro rfl
    apply hother
    refine ⟨id, rfl, ?_⟩
    rw [Directory.find?_withFile, if_neg (recordsFile_ne_manifestFile _ _).symm]
    exact hmissing
  exact (sameAt_withFile hne).symm.trans (sameAt_erase hne)

namespace SameButStrays

variable (h : SameButStrays d e)

include h

/-- Directories that differ in stray files alone are the same at every manifest. -/
theorem manifest (id : String) : SameAt d e (manifestFile id) :=
  h.same _ (not_isStray_manifestFile d id)

/-- Where the manifest is there, so are the same records. -/
theorem alikeFor (hmanifest : d.folder.files.find? (manifestFile id) ≠ none) :
    AlikeFor id d e := by
  refine ⟨h.room, fun name hname => ?_⟩
  rcases mem_filesOf.1 hname with rfl | rfl
  · apply h.same
    rintro ⟨other, hother, hmissing⟩
    obtain rfl := recordsFile_inj.1 hother
    exact hmanifest hmissing
  · exact h.manifest id

/-! ### What is written and taken away -/

/-- The same file may be written in both directories, a manifest only beside the same records. -/
theorem withFile (name : String) (content : Bytes)
    (hrecords : ∀ id, name = manifestFile id → SameAt d e (recordsFile id)) :
    SameButStrays (d.withFile name content) (e.withFile name content) := by
  refine ⟨h.room, h.folder, fun other hother => ?_⟩
  by_cases hstray : IsStray d other
  · -- either it is the file that is written, or its manifest is
    obtain ⟨id, rfl, hmissing⟩ := hstray
    by_cases hname : name = manifestFile id
    · exact (hrecords id hname).withFile name content
    · have hwritten : recordsFile id = name := by
        by_contra hne
        apply hother
        refine ⟨id, rfl, ?_⟩
        rw [Directory.find?_withFile, if_neg (Ne.symm hname)]
        exact hmissing
      refine ⟨?_, h.folder _⟩
      rw [Directory.find?_withFile, Directory.find?_withFile, if_pos hwritten, if_pos hwritten]
  · exact (h.same other hstray).withFile name content

/-- Writing the same records file keeps directories the same but for stray files. -/
theorem withRecords (id : String) (content : Bytes) :
    SameButStrays (d.withFile (recordsFile id) content) (e.withFile (recordsFile id) content) := by
  apply h.withFile
  intro other hother
  exact absurd hother (recordsFile_ne_manifestFile id other)

/-- Removing the same file keeps directories the same but for stray files. -/
theorem erase (name : String) : SameButStrays (d.erase name) (e.erase name) := by
  refine ⟨h.room, h.folder, fun other hother => ?_⟩
  apply SameAt.erase
  apply h.same
  rintro ⟨id, rfl, hmissing⟩
  apply hother
  refine ⟨id, rfl, ?_⟩
  rw [Directory.find?_erase, hmissing]
  exact ite_self none

/-! ### What is loaded and listed -/

/-- Stray files do not come into what is loaded. -/
theorem load_eq (id : String) : load d id = load e id := by
  by_cases hmanifest : d.folder.files.find? (manifestFile id) = none
  · have hmissing : ∀ x : Directory, x.folder.files.find? (manifestFile id) = none →
        load x id = .error (.notFound id) := by
      intro x hx
      apply load_eq_notFound_iff.2
      rintro ⟨-, file, hfile⟩
      rw [Directory.find?, hx, ite_self] at hfile
      contradiction
    rw [hmissing d hmanifest, hmissing e ((h.manifest id).file ▸ hmanifest)]
  · exact (h.alikeFor hmanifest).load_eq

/-- Stray files do not come into the listing. -/
theorem list_eq : list d = list e := by
  have hmanifests : (d.entries.filter fun file => isManifestFile file.1) =
      e.entries.filter fun file => isManifestFile file.1 := by
    apply filter_entries_eq h.room
    intro name hname
    obtain ⟨id, rfl⟩ := exists_of_isManifestFile hname
    exact h.manifest id
  rw [list, list, Directory.files_entries, Directory.files_entries, listingOf_manifests,
    hmanifests, ← listingOf_manifests]

end SameButStrays

/-- The operations on any dataset overlook stray records. -/
theorem overlooked_sameButStrays (id : String) : Overlooked SameButStrays id where
  room h := h.room
  manifest h := h.manifest id
  folder h := h.folder _
  withRecords h content := h.withRecords id content
  withBoth := by
    intro d e h content other
    -- the manifest comes beside the records that were just written on both sides
    apply (h.withRecords id content).withFile
    intro other hother
    obtain rfl := manifestFile_inj.1 hother
    refine ⟨?_, h.folder _⟩
    rw [Directory.find?_withFile, Directory.find?_withFile, if_pos rfl, if_pos rfl]
  withoutManifest h := h.erase _
  withoutBoth h := (h.erase _).erase _

/-! ## Runs of operations -/

/-- What an operation answers, with what it traces. -/
inductive Reply where
  | added (result : Except StoreError DatasetInfo) (trace : List Trace.Entry)
  | removed (result : Except StoreError Unit)
  | loaded (result : Except StoreError (List Record))
  | listed (listing : Listing)
  | reopened

/-- What an operation answers in a directory. -/
def Operation.reply (d : Directory) : Operation → Reply
  | .add now id archive kind =>
    .added (Disk.add d now id archive kind).result (Disk.add d now id archive kind).trace
  | .remove id => .removed (Disk.remove d id).result
  | .load id => .loaded (Disk.load d id)
  | .list => .listed (Disk.list d)
  | .reopen => .reopened

/-- What the operations of a run answer, one after the other. -/
def replies (start : Directory) : List Operation → List Reply
  | [] => []
  | op :: rest => op.reply start :: replies (op.after start) rest

/-- The step lemma: an operation answers the same and leaves directories that still differ only in
stray records. -/
theorem SameButStrays.step (h : SameButStrays d e) (op : Operation) :
    op.reply d = op.reply e ∧ SameButStrays (op.after d) (op.after e) := by
  cases op with
  | add now id archive kind =>
    obtain ⟨hresult, htrace, hstore⟩ := (overlooked_sameButStrays id).add h now archive kind
    refine ⟨?_, hstore⟩
    rw [Operation.reply, Operation.reply, hresult, htrace]
  | remove id =>
    obtain ⟨hresult, hstore⟩ := (overlooked_sameButStrays id).remove h
    exact ⟨congrArg Reply.removed hresult, hstore⟩
  | load id => exact ⟨congrArg Reply.loaded (h.load_eq id), h⟩
  | list => exact ⟨congrArg Reply.listed h.list_eq, h⟩
  | reopen => exact ⟨rfl, h⟩

/-- Stray files come into no reply of a run, and what it leaves differs in stray files alone. -/
theorem SameButStrays.run (h : SameButStrays d e) (ops : List Operation) :
    replies d ops = replies e ops ∧ SameButStrays (afterAll d ops) (afterAll e ops) := by
  induction ops generalizing d e with
  | nil => exact ⟨rfl, h⟩
  | cons op rest ih =>
    obtain ⟨hreply, hafter⟩ := h.step op
    obtain ⟨hrest, hlast⟩ := ih hafter
    refine ⟨?_, hlast⟩
    rw [replies, replies, hreply, hrest]

/-! ## Loading what was imported -/

/-- Records have the values of others, one by one. -/
def SameValues (records loaded : List Record) : Prop :=
  List.Forall₂ (fun r s => r.equal s = true) records loaded

/-- After an import the records are loaded as they come back. -/
theorem load_add {now : String} {archive : Bytes} {kind : DatasetKind} {info : DatasetInfo}
    {records : List Record} (hresult : (add d now id archive kind).result = .ok info)
    (himport : (Import.ofArchive archive kind).1 = .ok records)
    (hcounted : records.length < UInt64.size) :
    load (add d now id archive kind).store id = .ok (records.map Record.reread) := by
  obtain ⟨found, hfound, -, hsafe, hmanifest, hrecords⟩ := files_of_add hresult
  obtain rfl := Except.ok.inj (hfound.symm.trans himport)
  obtain ⟨-, hcomplete⟩ := Import.ofArchive_complete himport
  exact load_of_files hsafe hcounted hcomplete hmanifest hrecords

/-- What comes back of records has their values when their numbers are read back. -/
theorem sameValues_reread_iff {records : List Record} (h : ∀ r ∈ records, r.Finite) :
    SameValues records (records.map Record.reread) ↔ ∀ r ∈ records, r.ReadsBack := by
  rw [SameValues, List.forall₂_map_right_iff, List.forall₂_same]
  exact forall₂_congr fun r hr => Record.equal_reread_iff (h r hr)

/-! ## Stray records are invisible -/

/-- A dataset is there exactly when its manifest is, and stray records are invisible: no run of
operations tells two directories apart that differ in such files alone, nor makes them differ in
more. Over stray records an archive is imported just as without them, and then its own records are
loaded; they have the values that were imported exactly when the numbers that are not stored as
integers are read back. -/
theorem strays_invisible (d : Directory) :
    (∀ id, KnownByManifest d id) ∧
      list d = listingOf (d.entries.filter fun file => isManifestFile file.1) ∧
      (∀ (e : Directory) (run : List Operation), SameButStrays d e →
        replies d run = replies e run ∧ SameButStrays (afterAll d run) (afterAll e run)) ∧
      (∀ (id : String) (content : Bytes), IsStray d (recordsFile id) → ∀ now archive kind,
        (add (d.withFile (recordsFile id) content) now id archive kind).result =
          (add (d.erase (recordsFile id)) now id archive kind).result) ∧
      ∀ (now id : String) (archive : Bytes) (kind : DatasetKind) (info : DatasetInfo)
        (records : List Record), (add d now id archive kind).result = .ok info →
        (Import.ofArchive archive kind).1 = .ok records → records.length < UInt64.size →
          load (add d now id archive kind).store id = .ok (records.map Record.reread) ∧
            (SameValues records (records.map Record.reread) ↔ ∀ r ∈ records, r.ReadsBack) := by
  refine ⟨knownByManifest d, listingOf_manifests _, fun e run h => h.run run, ?_, ?_⟩
  · intro id content hstray now archive kind
    have hsame := sameButStrays_of_isStray hstray content
    exact ((overlooked_sameButStrays id).add hsame now archive kind).1
  · intro now id archive kind info records hresult himport hcounted
    refine ⟨load_add hresult himport hcounted, sameValues_reread_iff fun r hr => ?_⟩
    exact ((Import.ofArchive_complete himport).2 r hr).2

/-! ## A stray file, and imports over it -/

/-- A directory with a records file alone, in which there are no records. -/
def strayed : Directory :=
  Directory.empty.withFile (recordsFile "abc") (Text.Utf8.encode "[]")

/-- A directory with a stray file is the same but for it as one without. -/
theorem sameButStrays_strayed : SameButStrays strayed (Directory.empty.erase (recordsFile "abc")) :=
  sameButStrays_of_isStray ⟨"abc", rfl, rfl⟩ _

/-- The stray file is in the way of no import. -/
theorem add_strayed {archive : Bytes} {records : List Record} (now : String)
    (himport : (Import.ofArchive archive .courses).1 = .ok records) :
    (add strayed now "abc" archive .courses).result = .ok ⟨"abc", .courses, records.length⟩ := by
  have hobstacle : obstacle? strayed "abc" = none := by
    rw [obstacle?_eq_none_iff]
    decide
  have hreach : strayed.reaches (recordsFile "abc") = true ∧
      strayed.reaches (manifestFile "abc") = true := by decide
  have hfolder : ∀ name, strayed.containsFolder name = false := Directory.containsFolder_empty
  have hwrite := writeDataset_eq_withDataset now ⟨.courses, records⟩
    ⟨hreach.1, hfolder _⟩ ⟨hreach.2, hfolder _⟩
  obtain ⟨hresult, -⟩ := add_eq_writeDataset now hobstacle himport
  rw [hresult, hwrite]
  rfl

/-- An import over the stray file, loading it, and dropping it, and what comes of them. -/
theorem strays_invisible_strayed :
    SameButStrays strayed (Directory.empty.erase (recordsFile "abc")) ∧
      replies strayed [.add "1" "abc" oneRecord .courses, .load "abc", .list, .remove "abc"] =
        replies (Directory.empty.erase (recordsFile "abc"))
          [.add "1" "abc" oneRecord .courses, .load "abc", .list, .remove "abc"] ∧
      (add strayed "1" "abc" oneRecord .courses).result =
        (add (Directory.empty.erase (recordsFile "abc")) "1" "abc" oneRecord .courses).result ∧
      ∃ records, (Import.ofArchive oneRecord .courses).1 = .ok records ∧
        load (add strayed "1" "abc" oneRecord .courses).store "abc" =
          .ok (records.map Record.reread) ∧ SameValues records (records.map Record.reread) := by
  obtain ⟨-, -, hrun, -, hload⟩ := strays_invisible strayed
  obtain ⟨-, -, -, hadd, -⟩ := strays_invisible .empty
  obtain ⟨r, himport, -⟩ := cells_oneRecord
  obtain ⟨hcounted, hback⟩ := Import.keepable_oneRecord himport
  obtain ⟨hloaded, hvalues⟩ := hload "1" "abc" oneRecord .courses _ [r]
    (add_strayed "1" himport) himport hcounted
  refine ⟨sameButStrays_strayed, (hrun _ _ sameButStrays_strayed).1, ?_, [r], himport, hloaded,
    hvalues.2 hback⟩
  exact hadd "abc" _ ⟨"abc", rfl, rfl⟩ "1" oneRecord .courses

/-- An archive with one record, whose average is 3e23. -/
def largeAverage : Bytes :=
  Zip.writeStored [⟨"courses/A", Text.Utf8.encode
    "title|uuid|instructor|audit|year|id|pass|fail|avg|dept\nintro|1|lee|0|2015|110|9|8|3e23|cpsc"⟩]

/-- The number 3e23. -/
def largeNumber : Binary64 :=
  .signed false ⟨0x44CFC3842BD1F072, by decide⟩

set_option maxRecDepth 100000 in
/-- The archive is imported with exactly the average that it states. -/
theorem average_largeAverage : ∃ r, (Import.ofArchive largeAverage .courses).1 = .ok [r] ∧
    r.cell .average = some (.number largeNumber) := by
  have himport : (Import.ofArchive largeAverage .courses).1.toOption.map
      (List.map fun r => r.cell .average) = some [some (.number largeNumber)] := by
    decide +kernel
  generalize (Import.ofArchive largeAverage .courses).1 = imported at himport
  cases imported with
  | error fault => simp [Except.toOption] at himport
  | ok records =>
    obtain ⟨r, rfl, hr⟩ := List.map_eq_singleton_iff.1 (Option.some.inj himport)
    exact ⟨r, rfl, hr⟩

/-- The import of this archive over the stray file succeeds, and what is loaded then has another
average. -/
theorem load_largeAverage : ∃ records loaded,
    (Import.ofArchive largeAverage .courses).1 = .ok records ∧
      (add strayed "1" "abc" largeAverage .courses).result = .ok ⟨"abc", .courses, 1⟩ ∧
      load (add strayed "1" "abc" largeAverage .courses).store "abc" = .ok loaded ∧
      ¬ SameValues records loaded := by
  obtain ⟨r, himport, haverage⟩ := average_largeAverage
  have hresult := add_strayed "1" himport
  have hcounted : [r].length < UInt64.size := by
    change 1 < UInt64.size
    decide
  refine ⟨[r], _, himport, hresult, load_add hresult himport hcounted, ?_⟩
  rw [sameValues_reread_iff fun s hs => ((Import.ofArchive_complete himport).2 s hs).2]
  intro hback
  have hnumber : ¬ largeNumber.ReadsBack := by decide +kernel
  have hreal : largeNumber ∈ (Cell.number largeNumber).storedReal? := by decide +kernel
  exact hnumber (hback r List.mem_cons_self .average _ _ haverage (Cell.mem_storedReal?.1 hreal))

end CourseQuery.Disk
