import CourseQuery.CommandLine.Workspace
import CourseQuery.Proofs.Dataset.Agreement
import CourseQuery.Proofs.Text.Split

/-!
# Datasets do not touch each other

All that is done with a dataset on disk is done with two names, and the names of different datasets
differ. So an operation on one dataset cannot tell two directories apart that differ in the files of
another one, however damaged these are, and it leaves them as they are. A listing looks at every
manifest, but what it shows of one file does not depend on any other.
-/

set_option autoImplicit false

namespace CourseQuery

open CommandLine (Place Workspace)

namespace Disk

/-! ## The names of a dataset -/

/-- The names of the two files of a dataset. -/
def filesOf (id : String) : List String :=
  [recordsFile id, manifestFile id]

/-- The files of a dataset are its records and its manifest. -/
theorem mem_filesOf {id name : String} :
    name ∈ filesOf id ↔ name = recordsFile id ∨ name = manifestFile id := by
  simp [filesOf]

/-- A name that leads from every folder to something directly inside it: it is one name of a path,
and it neither stays at the folder nor leads out of it. -/
def IsInside (name : String) : Prop :=
  Text.split '/' name.toList = [name.toList] ∧
    ∀ place : Place, Workspace.next place name = place ++ [name]

/-- The files of a path safe id lie inside the folder. -/
theorem isInside_of_pathSafe {id : String} (hid : isPathSafe id = true) :
    ∀ name ∈ filesOf id, IsInside name := by
  have hslash : '/' ∉ id.toList := by
    simp only [isPathSafe, Bool.and_eq_true, Bool.not_eq_true', List.contains_eq_mem,
      decide_eq_false_iff_not] at hid
    exact hid.1.2
  have hinside : ∀ ending : String, '/' ∉ ending.toList → 2 < ending.toList.length →
      IsInside (id ++ ending) := by
    intro ending hending hlong
    have hlength : 2 < (id ++ ending).toList.length := by
      rw [String.toList_append, List.length_append]
      omega
    have hne : ∀ short : String, short.toList.length ≤ 2 → id ++ ending ≠ short := by
      rintro short hshort rfl
      omega
    refine ⟨?_, fun place => ?_⟩
    · apply Text.split_of_not_mem []
      rw [String.toList_append, List.mem_append, not_or]
      exact ⟨hslash, hending⟩
    · have hstays : Workspace.staysAt (id ++ ending) = false := by
        rw [Workspace.staysAt, Bool.or_eq_false_iff]
        exact ⟨decide_eq_false (hne "" (by decide)), decide_eq_false (hne "." (by decide))⟩
      rw [Workspace.next, hstays, if_neg Bool.false_ne_true, if_neg (hne ".." (by decide))]
  intro name hname
  rcases mem_filesOf.1 hname with rfl | rfl
  · exact hinside recordsEnding (by decide) (by decide)
  · exact hinside manifestEnding (by decide) (by decide)

/-- Different datasets have no name in common. -/
theorem filesOf_disjoint {id other : String} (h : id ≠ other) :
    ∀ name ∈ filesOf id, name ∉ filesOf other := by
  intro name hname hother
  rcases mem_filesOf.1 hname with rfl | rfl
  · rcases mem_filesOf.1 hother with heq | heq
    · exact h (recordsFile_inj.1 heq)
    · exact recordsFile_ne_manifestFile _ _ heq
  · rcases mem_filesOf.1 hother with heq | heq
    · exact recordsFile_ne_manifestFile _ _ heq.symm
    · exact h (manifestFile_inj.1 heq)

/-! ## Directories that agree at names -/

/-- Two directories hold the same under the names of a dataset. -/
structure AlikeFor (id : String) (d e : Directory) : Prop where
  room : d.room = e.room
  same : ∀ name ∈ filesOf id, SameAt d e name

/-- Two directories hold the same but under the names of a dataset. -/
structure DifferOnlyAt (id : String) (d e : Directory) : Prop where
  room : d.room = e.room
  same : ∀ name, name ∉ filesOf id → SameAt d e name

section

variable {d e d' e' : Directory} {id name : String} {content : Bytes}

/-- The records file is one of the files of a dataset. -/
theorem recordsFile_mem (id : String) : recordsFile id ∈ filesOf id :=
  mem_filesOf.2 (Or.inl rfl)

/-- The manifest is one of the files of a dataset. -/
theorem manifestFile_mem (id : String) : manifestFile id ∈ filesOf id :=
  mem_filesOf.2 (Or.inr rfl)

/-- Directories alike for an id are the same at its records file. -/
theorem AlikeFor.records (h : AlikeFor id d e) : SameAt d e (recordsFile id) :=
  h.same _ (recordsFile_mem id)

/-- Directories alike for an id are the same at its manifest. -/
theorem AlikeFor.manifest (h : AlikeFor id d e) : SameAt d e (manifestFile id) :=
  h.same _ (manifestFile_mem id)

/-- Writing the same file keeps directories alike for an id. -/
theorem AlikeFor.withFile (h : AlikeFor id d e) (other : String) (content : Bytes) :
    AlikeFor id (d.withFile other content) (e.withFile other content) :=
  ⟨h.room, fun name hname => (h.same name hname).withFile other content⟩

/-- Removing the same file keeps directories alike for an id. -/
theorem AlikeFor.erase (h : AlikeFor id d e) (other : String) :
    AlikeFor id (d.erase other) (e.erase other) :=
  ⟨h.room, fun name hname => (h.same name hname).erase other⟩

/-- Directories that differ only at one id are alike for any other. -/
theorem DifferOnlyAt.alikeFor {other : String} (h : DifferOnlyAt other d e) (hne : id ≠ other) :
    AlikeFor id d e :=
  ⟨h.room, fun name hname => h.same name (filesOf_disjoint hne name hname)⟩

/-! ## What an operation reads -/

/-- What stands under other names is overlooked. -/
theorem overlooked_alikeFor (id : String) : Overlooked (AlikeFor id) id where
  room h := h.room
  manifest h := h.manifest
  folder h := h.records.folder
  withRecords h content := h.withFile _ content
  withBoth h content other := (h.withFile _ content).withFile _ other
  withoutManifest h := h.erase _
  withoutBoth h := (h.erase _).erase _

/-- From directories alike for an id the same is loaded under it. -/
theorem AlikeFor.load_eq (h : AlikeFor id d e) : load d id = load e id := by
  rw [load, load, Disk.manifest, Disk.manifest, (overlooked_alikeFor id).manifestBytes_eq h,
    Directory.files_find?, Directory.files_find?, h.records.find?_eq h.room]

/-! ## What an operation writes -/

/-- A directory does not differ from itself. -/
theorem differOnlyAt_refl (id : String) (d : Directory) : DifferOnlyAt id d d :=
  ⟨rfl, fun name _ => .refl d name⟩

/-- Writing a file of a dataset changes a directory only at its id. -/
theorem DifferOnlyAt.withFile (h : DifferOnlyAt id d e) (hname : name ∈ filesOf id)
    (content : Bytes) : DifferOnlyAt id d (e.withFile name content) := by
  refine ⟨h.room, fun other hother => (h.same other hother).trans ?_⟩
  apply sameAt_withFile
  rintro rfl
  exact hother hname

/-- Removing a file of a dataset changes a directory only at its id. -/
theorem DifferOnlyAt.erase (h : DifferOnlyAt id d e) (hname : name ∈ filesOf id) :
    DifferOnlyAt id d (e.erase name) := by
  refine ⟨h.room, fun other hother => (h.same other hother).trans ?_⟩
  apply sameAt_erase
  rintro rfl
  exact hother hname

/-- An import changes a directory only at its id. -/
theorem differOnlyAt_add (d : Directory) (now id : String) (archive : Bytes) (kind : DatasetKind) :
    DifferOnlyAt id d (add d now id archive kind).store := by
  have hrefl := differOnlyAt_refl id d
  rcases add_cases d now id archive kind with
    ⟨-, hstore⟩ | ⟨records, -, -, -, -, ⟨-, hstore⟩ | ⟨-, hstore, -⟩⟩
  · rw [hstore]
    exact hrefl
  · rw [hstore]
    exact hrefl.withFile (recordsFile_mem id) _
  · rw [hstore]
    exact (hrefl.withFile (recordsFile_mem id) _).withFile (manifestFile_mem id) _

/-- A removal changes a directory only at its id. -/
theorem differOnlyAt_remove (d : Directory) (id : String) :
    DifferOnlyAt id d (remove d id).store := by
  have hrefl := differOnlyAt_refl id d
  rcases remove_cases d id with ⟨-, hstore⟩ | ⟨-, -, ⟨-, -, hstore⟩ | ⟨-, -, hstore⟩⟩
  · rw [hstore]
    exact hrefl
  · rw [hstore]
    exact hrefl.erase (manifestFile_mem id)
  · rw [hstore]
    exact (hrefl.erase (manifestFile_mem id)).erase (recordsFile_mem id)

/-- When two directories differ at one dataset, steps that touch another dataset alone, and do the
same there, leave directories that differ at the first dataset and nowhere else. -/
theorem DifferOnlyAt.step {other : String} (h : DifferOnlyAt other d e)
    (hd : DifferOnlyAt id d d') (he : DifferOnlyAt id e e') (halike : AlikeFor id d' e') :
    DifferOnlyAt other d' e' := by
  refine ⟨halike.room, fun name hname => ?_⟩
  -- at the names of the step the two results agree, at all others the steps changed nothing
  by_cases hid : name ∈ filesOf id
  · exact halike.same name hid
  · exact (hd.same name hid).symm.trans ((h.same name hname).trans (he.same name hid))

/-- Steps that touch one dataset alone leave the files of every other one as they are. -/
theorem DifferOnlyAt.keeps {other : String} (h : DifferOnlyAt id d d') (hne : id ≠ other) :
    ∀ name ∈ filesOf other, SameAt d d' name :=
  fun name hname => h.same name (filesOf_disjoint (Ne.symm hne) name hname)

end

/-! ## What a listing shows of the other files -/

/-- The files that are not those of a dataset. -/
def othersOf (id : String) (files : List (String × Option Bytes)) : List (String × Option Bytes) :=
  files.filter fun file => decide (file.1 ∉ filesOf id)

/-- The files of a dataset among others. -/
def ownOf (id : String) (files : List (String × Option Bytes)) : List (String × Option Bytes) :=
  files.filter fun file => decide (file.1 ∈ filesOf id)

section

variable {d e : Directory} {id : String}

/-- Directories that differ only at a dataset have the same other files, in the same order. -/
theorem DifferOnlyAt.othersOf_entries (h : DifferOnlyAt id d e) :
    othersOf id d.entries = othersOf id e.entries :=
  filter_entries_eq (p := fun name => decide (name ∉ filesOf id)) h.room
    fun name hname => h.same name (of_decide_eq_true hname)

/-- What a listing shows and traces is what it does of the files of a dataset and of the others. -/
theorem list_perm (d : Directory) (id : String) :
    (list d).infos.Perm ((listingOf (othersOf id d.entries)).infos ++
        (listingOf (ownOf id d.entries)).infos) ∧
      (list d).trace.Perm ((listingOf (othersOf id d.entries)).trace ++
        (listingOf (ownOf id d.entries)).trace) := by
  have hsplit : d.entries.Perm (othersOf id d.entries ++ ownOf id d.entries) := by
    have hboth := List.filter_append_perm (fun file => decide (file.1 ∈ filesOf id)) d.entries
    refine hboth.symm.trans (List.perm_append_comm.trans ?_)
    rw [othersOf, ownOf]
    simp only [decide_not]
    exact .refl _
  constructor
  · have hinfos := hsplit.filterMap infoOf?
    rw [List.filterMap_append] at hinfos
    exact (List.mergeSort_perm _ _).trans (hinfos.trans
      ((List.mergeSort_perm _ _).symm.append (List.mergeSort_perm _ _).symm))
  · have htrace := hsplit.filterMap unreadable?
    rw [List.filterMap_append] at htrace
    exact htrace

end

/-! ## Isolation -/

/-- The operations on a dataset read and write its two files alone, which lie in the directory
itself; an id of which this could not be said is refused before anything is looked at. -/
structure Confined (id : String) (d : Directory) : Prop where
  inside : isPathSafe id = true → ∀ name ∈ filesOf id, IsInside name
  refused : isPathSafe id = false →
    load d id = .error (.notFound id) ∧ remove d id = ⟨.error (.notFound id), d⟩ ∧
      ∀ now archive kind, ∃ fault, add d now id archive kind = ⟨.error (.invalidId id fault), d, []⟩
  reads : ∀ e, AlikeFor id d e → load d id = load e id ∧
    ((remove d id).result = (remove e id).result ∧
      AlikeFor id (remove d id).store (remove e id).store) ∧
    ∀ now archive kind,
      (add d now id archive kind).result = (add e now id archive kind).result ∧
      (add d now id archive kind).trace = (add e now id archive kind).trace ∧
      AlikeFor id (add d now id archive kind).store (add e now id archive kind).store
  writes : DifferOnlyAt id d (remove d id).store ∧
    ∀ now archive kind, DifferOnlyAt id d (add d now id archive kind).store

/-- Two directories after the same step from two others: they still differ only at a dataset, whose
files the step has left as they were. -/
structure SameChange (other : String) (d e d' e' : Directory) : Prop where
  differ : DifferOnlyAt other d' e'
  left : ∀ name ∈ filesOf other, SameAt d d' name
  right : ∀ name ∈ filesOf other, SameAt e e' name

/-- The operations on a dataset do the same in two directories that differ at another one. -/
structure Isolated (id other : String) (d e : Directory) : Prop where
  load : load d id = load e id
  remove : (remove d id).result = (remove e id).result ∧
    SameChange other d e (remove d id).store (remove e id).store
  add : ∀ now archive kind,
    (add d now id archive kind).result = (add e now id archive kind).result ∧
      (add d now id archive kind).trace = (add e now id archive kind).trace ∧
      SameChange other d e (add d now id archive kind).store (add e now id archive kind).store
  listing : listingOf (othersOf other d.entries) = listingOf (othersOf other e.entries)

/-- What is done under an id stays with the files of the id. -/
theorem confined (id : String) (d : Directory) : Confined id d where
  inside := isInside_of_pathSafe
  refused hid := by
    have hbytes : manifestBytes d id = .error (.notFound id) := by
      rw [manifestBytes, hid, if_neg Bool.false_ne_true]
    refine ⟨?_, ?_, fun now archive kind => ?_⟩
    · rw [Disk.load, Disk.manifest, hbytes]
      rfl
    · rw [Disk.remove, hbytes]
    · have hobstacle : ∃ fault, obstacle? d id = some (.invalidId id fault) := by
        rw [obstacle?, StoreError.ofId?, hid]
        cases DatasetId.fault? id with
        | none => exact ⟨_, rfl⟩
        | some fault => exact ⟨_, rfl⟩
      obtain ⟨fault, hfault⟩ := hobstacle
      refine ⟨fault, ?_⟩
      rw [Disk.add, hfault]
  reads e h := ⟨h.load_eq, (overlooked_alikeFor id).remove h, (overlooked_alikeFor id).add h⟩
  writes := ⟨differOnlyAt_remove d id, fun now => differOnlyAt_add d now id⟩

/-- Directories that differ only at one id do not differ for what is done under another. -/
theorem isolated {id other : String} {d e : Directory} (hne : id ≠ other)
    (h : DifferOnlyAt other d e) : Isolated id other d e := by
  have halike := h.alikeFor hne
  have hsame : ∀ d' e', DifferOnlyAt id d d' → DifferOnlyAt id e e' → AlikeFor id d' e' →
      SameChange other d e d' e' := by
    intro d' e' hd he hleft
    exact ⟨h.step hd he hleft, hd.keeps hne, he.keeps hne⟩
  refine ⟨halike.load_eq, ?_, fun now archive kind => ?_, ?_⟩
  · obtain ⟨hresult, hleft⟩ := (overlooked_alikeFor id).remove halike
    exact ⟨hresult, hsame _ _ (differOnlyAt_remove d id) (differOnlyAt_remove e id) hleft⟩
  · obtain ⟨hresult, htrace, hleft⟩ := (overlooked_alikeFor id).add halike now archive kind
    exact ⟨hresult, htrace, hsame _ _ (differOnlyAt_add d now id archive kind)
      (differOnlyAt_add e now id archive kind) hleft⟩
  · rw [h.othersOf_entries]

/-- Whatever an id is made of, the operations on its dataset stay with two files that lie in the
directory and belong to no other dataset, or are refused; so what is done with one dataset neither
depends on the files of another one nor touches them, and a listing shows the same of all other
files. -/
theorem datasets_isolated :
    (∀ (id : String) (d : Directory), Confined id d) ∧
      (∀ id other : String, id ≠ other → ∀ name ∈ filesOf id, name ∉ filesOf other) ∧
      (∀ (id other : String) (d e : Directory), id ≠ other → DifferOnlyAt other d e →
        Isolated id other d e) ∧
      ∀ (id : String) (d : Directory),
        (list d).infos.Perm ((listingOf (othersOf id d.entries)).infos ++
            (listingOf (ownOf id d.entries)).infos) ∧
          (list d).trace.Perm ((listingOf (othersOf id d.entries)).trace ++
            (listingOf (ownOf id d.entries)).trace) := by
  refine ⟨confined, fun id other hne => filesOf_disjoint hne, fun id other d e hne h => ?_,
    fun id d => list_perm d id⟩
  exact isolated hne h

/-- A directory in which the manifest of a dataset is damaged. -/
def damaged : Directory :=
  Directory.empty.withFile (manifestFile "x") [0]

/-- A dataset whose id looks like a manifest is isolated from one whose manifest is damaged. -/
theorem isolated_damaged :
    isPathSafe "x.manifest.json" = true ∧
      (∃ reason, manifest damaged "x" = .error (.corrupt "x" (.manifest reason))) ∧
      DifferOnlyAt "x" .empty damaged ∧ Isolated "x.manifest.json" "x" .empty damaged := by
  have hsafe : isPathSafe "x.manifest.json" = true := by decide
  have hdamage : manifest damaged "x" = .error (.corrupt "x" (.manifest "not a manifest")) := by
    have hbytes : manifestBytes damaged "x" = .ok [0] := by rfl
    have hread : Manifest.ofBytes [0] = .error (.document "not a manifest") := by
      have hparse : Manifest.parse? "\x00" = none := by decide +kernel
      have hdecode : Text.Utf8.decode? [0] = some "\x00" := by decide +kernel
      rw [Manifest.ofBytes, hdecode]
      dsimp only
      rw [hparse]
    simp only [manifest, hbytes, hread, bind, Except.bind]
  have hdiffer : DifferOnlyAt "x" .empty damaged :=
    (differOnlyAt_refl "x" .empty).withFile (manifestFile_mem "x") [0]
  exact ⟨hsafe, ⟨_, hdamage⟩, hdiffer, datasets_isolated.2.2.1 _ _ _ _ (by decide) hdiffer⟩

end Disk

end CourseQuery
