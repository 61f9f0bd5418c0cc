import CourseQuery.Proofs.Dataset.Changes

/-!
# Directories that agree

Directories that hold the same under some names cannot be told apart by what is found, written or
listed under these names. From this a whole operation on a dataset answers the same in two
directories, however they differ otherwise: it is enough that the difference does not touch what the
operation looks at before it writes, and that it stays such a difference when the same is written on
both sides. The operation overlooks it then.
-/

set_option autoImplicit false

namespace CourseQuery

/-! ## Parts of catalogs and of sorted lists -/

section

variable {α : Type} {le : α → α → Bool} {p : α → Bool}

/-- An element that precedes a whole list comes first when it heads the left one. -/
theorem cons_merge_of_le {a : α} {l m : List α} (h : ∀ b ∈ m, le a b = true) :
    (a :: l).merge m le = a :: l.merge m le := by
  cases m with
  | nil => rw [List.merge_right, List.merge_right]
  | cons b m => rw [List.cons_merge_cons, if_pos (h b List.mem_cons_self)]

/-- An element that a whole list does not precede comes first when it heads the right one. -/
theorem merge_cons_of_not_le {b : α} {l m : List α} (h : ∀ a ∈ l, le a b ≠ true) :
    l.merge (b :: m) le = b :: l.merge m le := by
  cases l with
  | nil => rw [List.nil_merge, List.nil_merge]
  | cons a l => rw [List.cons_merge_cons, if_neg (h a List.mem_cons_self)]

/-- A part of two sorted lists that are merged is what merging their parts gives. -/
theorem filter_merge (htrans : ∀ a b c, le a b = true → le b c = true → le a c = true)
    {l m : List α} (hl : l.Pairwise fun a b => le a b = true)
    (hm : m.Pairwise fun a b => le a b = true) :
    (l.merge m le).filter p = (l.filter p).merge (m.filter p) le := by
  fun_induction List.merge l m le with
  | case1 m => rw [List.filter_nil, List.nil_merge]
  | case2 l => rw [List.filter_nil, List.merge_right]
  | case3 a l b m hab ih =>
    obtain ⟨-, hrest⟩ := List.pairwise_cons.1 hl
    -- whatever is left of the second list after the filter still comes after `a`
    have hall : ∀ c ∈ (b :: m).filter p, le a c = true := by
      intro c hc
      rcases List.mem_cons.1 (List.mem_filter.1 hc).1 with rfl | hc
      · exact hab
      · exact htrans a b c hab ((List.pairwise_cons.1 hm).1 c hc)
    cases hp : p a with
    | true => rw [List.filter_cons_of_pos hp, List.filter_cons_of_pos hp, ih hrest hm,
        cons_merge_of_le hall]
    | false => rw [List.filter_cons_of_neg (by simp [hp]), List.filter_cons_of_neg (by simp [hp]),
        ih hrest hm]
  | case4 a l b m hab ih =>
    obtain ⟨-, hrest⟩ := List.pairwise_cons.1 hm
    -- and nothing that is left of the first list comes before `b`
    have hall : ∀ c ∈ (a :: l).filter p, le c b ≠ true := by
      intro c hc hcb
      rcases List.mem_cons.1 (List.mem_filter.1 hc).1 with rfl | hc
      · exact hab hcb
      · exact hab (htrans a c b ((List.pairwise_cons.1 hl).1 c hc) hcb)
    cases hp : p b with
    | true => rw [List.filter_cons_of_pos hp, List.filter_cons_of_pos hp, ih hl hrest,
        merge_cons_of_not_le hall]
    | false =>
      have hnot : ¬ p b = true := by simp [hp]
      rw [List.filter_cons_of_neg hnot, List.filter_cons_of_neg hnot, ih hl hrest]

/-- Catalogs that find the same under some names have the same entries under these names. -/
theorem Catalog.filter_entries_eq {c d : Catalog α} {p : String → Bool}
    (h : ∀ name, p name = true → c.find? name = d.find? name) :
    (c.entries.filter fun e => p e.1) = d.entries.filter fun e => p e.1 := by
  apply Catalog.entries_ext (c.sorted.filter _) (d.sorted.filter _)
  intro name
  refine Option.ext fun value => ?_
  rw [lookup_eq_some_iff (c.sorted.filter _), lookup_eq_some_iff (d.sorted.filter _),
    List.mem_filter, List.mem_filter, ← find?_eq_some_iff, ← find?_eq_some_iff]
  refine and_congr_left fun hp => ?_
  rw [h name hp]

end

namespace Disk

/-! ## The same under a name -/

/-- The same file stands under a name in two directories, or the same folder, or nothing. -/
structure SameAt (d e : Directory) (name : String) : Prop where
  file : d.folder.files.find? name = e.folder.files.find? name
  folder : d.folder.folders.contains name = e.folder.folders.contains name

section

variable {d e d' e' : Directory} {id name : String} {content : Bytes}

/-- A directory is the same as itself at every name. -/
theorem SameAt.refl (d : Directory) (name : String) : SameAt d d name :=
  ⟨rfl, rfl⟩

/-- Sameness at a name does not depend on the order. -/
theorem SameAt.symm (h : SameAt d e name) : SameAt e d name :=
  ⟨h.file.symm, h.folder.symm⟩

/-- Sameness at a name passes from one directory to the next. -/
theorem SameAt.trans (h : SameAt d e name) (h' : SameAt e e' name) : SameAt d e' name :=
  ⟨h.file.trans h'.file, h.folder.trans h'.folder⟩

/-- The same file is found under a name. -/
theorem SameAt.find?_eq (h : SameAt d e name) (hroom : d.room = e.room) :
    d.find? name = e.find? name := by
  rw [Directory.find?, Directory.find?, Directory.reaches, Directory.reaches, hroom, h.file]

/-- The same folders stand under a name. -/
theorem SameAt.containsFolder_eq (h : SameAt d e name) (hroom : d.room = e.room) :
    d.containsFolder name = e.containsFolder name := by
  rw [Directory.containsFolder, Directory.containsFolder, Directory.reaches, Directory.reaches,
    hroom, h.folder]

/-- Writing the same file keeps directories the same at a name. -/
theorem SameAt.withFile (h : SameAt d e name) (other : String) (content : Bytes) :
    SameAt (d.withFile other content) (e.withFile other content) name := by
  refine ⟨?_, h.folder⟩
  rw [Directory.withFile, Directory.withFile, Catalog.find?_insert, Catalog.find?_insert, h.file]

/-- Removing the same file keeps directories the same at a name. -/
theorem SameAt.erase (h : SameAt d e name) (other : String) :
    SameAt (d.erase other) (e.erase other) name := by
  refine ⟨?_, h.folder⟩
  simp only [Directory.erase, Folder.erase, Catalog.find?_erase, h.file]

/-- Writing a file changes nothing under other names. -/
theorem sameAt_withFile {other : String} (h : name ≠ other) :
    SameAt d (d.withFile other content) name := by
  refine ⟨?_, rfl⟩
  rw [Directory.withFile, Catalog.find?_insert, if_neg h]

/-- Removing a file changes nothing under other names. -/
theorem sameAt_erase {other : String} (h : name ≠ other) : SameAt d (d.erase other) name := by
  refine ⟨?_, rfl⟩
  simp only [Directory.erase, Folder.erase, Catalog.find?_erase, if_neg h]

/-- A file is written in both directories or in neither. -/
theorem write?_alike (hroom : d.room = e.room)
    (hfolder : d.folder.folders.contains name = e.folder.folders.contains name)
    (content : Bytes) :
    (d.write? name content = none ∧ e.write? name content = none) ∨
      d.write? name content = some (d.withFile name content) ∧
        e.write? name content = some (e.withFile name content) := by
  have hreaches : d.reaches name = e.reaches name := by
    rw [Directory.reaches, Directory.reaches, hroom]
  have hcontains : d.containsFolder name = e.containsFolder name := by
    rw [Directory.containsFolder, Directory.containsFolder, hreaches, hfolder]
  cases hwrite : d.write? name content with
  | none =>
    refine Or.inl ⟨rfl, ?_⟩
    rw [Directory.write?_eq_none_iff] at hwrite ⊢
    rwa [← hreaches, ← hcontains]
  | some d' =>
    obtain ⟨hreach, hfree, rfl⟩ := Directory.write?_eq_some_iff.1 hwrite
    refine Or.inr ⟨rfl, Directory.write?_eq_some_iff.2 ⟨?_, ?_, rfl⟩⟩
    · rw [← hreaches, hreach]
    · rw [← hcontains, hfree]

/-! ## The same files in a listing -/

/-- What is listed for the names of a catalog stands in the order of the names. -/
theorem map_names_pairwise {α β : Type} (c : Catalog α) (f : String → β) :
    (c.names.map fun name => (name, f name)).Pairwise fun a b => decide (a.1 ≤ b.1) = true := by
  rw [Catalog.names, List.map_map, List.pairwise_map]
  exact c.sorted.imp fun hlt => decide_eq_true (Std.le_of_lt hlt)

/-- Two catalogs that agree at the names that are asked for list the same for these. -/
theorem filter_map_names {α β : Type} {p : String → Bool} {c c' : Catalog α} {f f' : String → β}
    (hfind : ∀ name, p name = true → c.find? name = c'.find? name)
    (hf : ∀ name, p name = true → f name = f' name) :
    ((c.names.map fun name => (name, f name)).filter fun file => p file.1) =
      (c'.names.map fun name => (name, f' name)).filter fun file => p file.1 := by
  simp only [Catalog.names, List.map_map, List.filter_map, Function.comp_def]
  rw [Catalog.filter_entries_eq hfind]
  refine List.map_congr_left fun entry hentry => ?_
  rw [hf _ (List.mem_filter.1 hentry).2]

/-- Directories that hold the same under some names list the same files under these, in the same
order. -/
theorem filter_entries_eq {p : String → Bool} (hroom : d.room = e.room)
    (hsame : ∀ name, p name = true → SameAt d e name) :
    (d.entries.filter fun file => p file.1) = e.entries.filter fun file => p file.1 := by
  have htrans : ∀ a b c : String × Option Bytes, decide (a.1 ≤ b.1) = true →
      decide (b.1 ≤ c.1) = true → decide (a.1 ≤ c.1) = true := by
    intro a b c hab hbc
    exact decide_eq_true (String.le_trans (of_decide_eq_true hab) (of_decide_eq_true hbc))
  have hfolders : ∀ name, p name = true →
      d.folder.folders.find? name = e.folder.folders.find? name := by
    intro name hname
    have hsome := (hsame name hname).folder
    unfold Catalog.contains at hsome
    cases hd : d.folder.folders.find? name <;> cases he : e.folder.folders.find? name
    · rfl
    · simp [hd, he] at hsome
    · simp [hd, he] at hsome
    · rfl
  unfold Directory.entries
  dsimp only
  rw [filter_merge htrans (map_names_pairwise _ _) (map_names_pairwise _ _),
    filter_merge htrans (map_names_pairwise _ _) (map_names_pairwise _ _),
    filter_map_names (fun name hname => (hsame name hname).file)
      fun name hname => (hsame name hname).find?_eq hroom,
    filter_map_names hfolders fun _ _ => rfl]

end

/-! ## What operations overlook -/

/-- A difference between directories that the operations on a dataset overlook: they find the same
manifest and the same folders, and the difference stays one of this kind when the same files are
written or taken away. -/
structure Overlooked (R : Directory → Directory → Prop) (id : String) : Prop where
  room : ∀ {d e}, R d e → d.room = e.room
  manifest : ∀ {d e}, R d e → SameAt d e (manifestFile id)
  folder : ∀ {d e}, R d e →
    d.folder.folders.contains (recordsFile id) = e.folder.folders.contains (recordsFile id)
  withRecords : ∀ {d e}, R d e → ∀ content,
    R (d.withFile (recordsFile id) content) (e.withFile (recordsFile id) content)
  withBoth : ∀ {d e}, R d e → ∀ content other,
    R ((d.withFile (recordsFile id) content).withFile (manifestFile id) other)
      ((e.withFile (recordsFile id) content).withFile (manifestFile id) other)
  withoutManifest : ∀ {d e}, R d e → R (d.erase (manifestFile id)) (e.erase (manifestFile id))
  withoutBoth : ∀ {d e}, R d e → R (withoutDataset d id) (withoutDataset e id)

namespace Overlooked

variable {R : Directory → Directory → Prop} {id : String} {d e : Directory} (h : Overlooked R id)
  (hde : R d e)

include h hde

/-- The same manifest is found. -/
theorem manifestBytes_eq : manifestBytes d id = manifestBytes e id := by
  rw [manifestBytes, manifestBytes, Directory.files_find?, Directory.files_find?,
    (h.manifest hde).find?_eq (h.room hde)]

/-- The same is in the way of an import. -/
theorem obstacle?_eq : obstacle? d id = obstacle? e id := by
  have hsame := h.manifest hde
  have hroom := h.room hde
  have hcontains : d.contains (manifestFile id) = e.contains (manifestFile id) := by
    rw [Directory.contains, Directory.contains, hsame.find?_eq hroom,
      hsame.containsFolder_eq hroom]
  rw [obstacle?, obstacle?, Directory.files_contains, Directory.files_contains, hcontains]

/-- Writing a dataset has the same result, and what it leaves is again overlooked. -/
theorem writeDataset (now : String) (kind : DatasetKind) (records : List Record) :
    (Disk.writeDataset d now id kind records).1 = (Disk.writeDataset e now id kind records).1 ∧
      R (Disk.writeDataset d now id kind records).2
        (Disk.writeDataset e now id kind records).2 := by
  simp only [Disk.writeDataset, Directory.files_write?]
  rcases write?_alike (h.room hde) (h.folder hde) (recordsBytes records) with
    ⟨hd, he⟩ | ⟨hd, he⟩
  · rw [hd, he]
    exact ⟨rfl, hde⟩
  · rw [hd, he]
    dsimp only
    have hmid := h.withRecords hde (recordsBytes records)
    rcases write?_alike (h.room hmid) (h.manifest hmid).folder
      (Manifest.ofRecords id kind records.length now (recordsBytes records)).toBytes with
      ⟨hd, he⟩ | ⟨hd, he⟩
    · rw [hd, he]
      exact ⟨rfl, hmid⟩
    · rw [hd, he]
      exact ⟨rfl, h.withBoth hde _ _⟩

/-- An import answers and traces the same, and the difference stays. -/
theorem add (now : String) (archive : Bytes) (kind : DatasetKind) :
    (Disk.add d now id archive kind).result = (Disk.add e now id archive kind).result ∧
      (Disk.add d now id archive kind).trace = (Disk.add e now id archive kind).trace ∧
      R (Disk.add d now id archive kind).store (Disk.add e now id archive kind).store := by
  unfold Disk.add
  rw [h.obstacle?_eq hde]
  cases obstacle? e id with
  | some error => exact ⟨rfl, rfl, hde⟩
  | none =>
    cases Import.ofArchive archive kind with
    | mk imported trace =>
      cases imported with
      | error fault => exact ⟨rfl, rfl, hde⟩
      | ok records =>
        obtain ⟨hresult, hstore⟩ := h.writeDataset hde now kind records
        exact ⟨hresult, rfl, hstore⟩

/-- A removal answers the same, and the difference stays. -/
theorem remove :
    (Disk.remove d id).result = (Disk.remove e id).result ∧
      R (Disk.remove d id).store (Disk.remove e id).store := by
  unfold Disk.remove
  rw [h.manifestBytes_eq hde]
  cases manifestBytes e id with
  | error error => exact ⟨rfl, hde⟩
  | ok file =>
    have hmid := h.withoutManifest hde
    have hfolder : (d.erase (manifestFile id)).containsFolder (recordsFile id) =
        (e.erase (manifestFile id)).containsFolder (recordsFile id) := by
      rw [Directory.containsFolder, Directory.containsFolder, Directory.reaches,
        Directory.reaches, h.room hmid, h.folder hmid]
    simp only [Directory.files_erase, Directory.files_containsFolder, hfolder]
    split
    · exact ⟨rfl, hmid⟩
    · exact ⟨rfl, h.withoutBoth hde⟩

end Overlooked

end Disk

end CourseQuery
