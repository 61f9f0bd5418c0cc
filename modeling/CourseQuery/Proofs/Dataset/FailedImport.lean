import CourseQuery.Proofs.Dataset.Directory
import CourseQuery.Proofs.Import.Records

/-!
# What a failed import leaves behind

An import writes the records and then the manifest, whose name is one byte longer. Every failure
before the two writes changes nothing, and so does a failure of the first write. The second write
can fail after the first one at one length of the id only, the one at which the name of the
records is as long as a name can be: then the records stay behind. `add_leaves_records_iff` gives
the exact condition.
-/

set_option autoImplicit false

namespace CourseQuery.Disk

open Import (oneRecord cells_oneRecord)
open Text.Utf8 (size)

variable {d d' : Directory} {now id : String} {archive : Bytes} {kind : DatasetKind}
  {records : List Record}

/-- Writing another file neither adds nor removes a folder and leaves the room. -/
theorem reaches_of_write? {name : String} {content : Bytes} (other : String)
    (h : d.write? name content = some d') :
    d'.reaches other = d.reaches other ∧ d'.containsFolder other = d.containsFolder other := by
  obtain ⟨-, -, rfl⟩ := Directory.write?_eq_some_iff.1 h
  exact ⟨rfl, rfl⟩

/-- Behind the records the manifest cannot be written exactly when its name is too long, which the
name of the records was not. -/
theorem write?_manifest_eq_none_iff (hid : isPathSafe id = true)
    (hfree : d.contains (manifestFile id) = false) {file : Bytes} (content : Bytes)
    (h : d.write? (recordsFile id) file = some d') :
    d'.write? (manifestFile id) content = none ↔ size id.toList + 13 = d.limit := by
  obtain ⟨hreaches, hfolder⟩ := reaches_of_write? (manifestFile id) h
  obtain ⟨hrecords, -, -⟩ := Directory.write?_eq_some_iff.1 h
  obtain ⟨hnul, hsize⟩ := (reaches_recordsFile hid).1 hrecords
  have hnone : d.containsFolder (manifestFile id) = false := by
    rw [Directory.contains, Bool.or_eq_false_iff] at hfree
    exact hfree.2
  rw [Directory.write?_eq_none_iff, hreaches, hfolder, hnone, ← Bool.not_eq_true,
    reaches_manifestFile hid]
  simp only [hnul, not_false_eq_true, true_and, Bool.false_eq_true, or_false]
  omega

/-- The writes fail and leave something behind exactly when the records can be written, are not
there already, and have a name as long as a name can be. -/
theorem writeDataset_leaves_iff (hid : isPathSafe id = true)
    (hfree : d.contains (manifestFile id) = false) :
    ((∃ error, (writeDataset d now id kind records).1 = .error error) ∧
        (writeDataset d now id kind records).2 ≠ d) ↔
      Char.ofNat 0 ∉ id.toList ∧ size id.toList + 13 = d.limit ∧
        d.containsFolder (recordsFile id) = false ∧
        d.find? (recordsFile id) ≠ some (recordsBytes records) := by
  simp only [writeDataset, Directory.files_write?]
  cases hwrite : d.write? (recordsFile id) (recordsBytes records) with
  | none =>
    refine iff_of_false (by simp) ?_
    rintro ⟨hnul, hsize, hfolder, -⟩
    rcases Directory.write?_eq_none_iff.1 hwrite with hreach | hfolder'
    · have := (reaches_recordsFile hid).2 ⟨hnul, Nat.le_of_eq hsize⟩
      rw [hreach] at this
      contradiction
    · rw [hfolder] at hfolder'
      contradiction
  | some d₁ =>
    obtain ⟨hreach, hfolder, -⟩ := Directory.write?_eq_some_iff.1 hwrite
    have hnul := ((reaches_recordsFile hid).1 hreach).1
    have hself := Directory.write?_eq_self_iff hwrite
    dsimp only
    generalize (Manifest.ofRecords id kind records.length now (recordsBytes records)) = m
    have hlimit := write?_manifest_eq_none_iff hid hfree m.toBytes hwrite
    cases hmanifest : d₁.write? (manifestFile id) m.toBytes with
    | none =>
      rw [hmanifest] at hlimit
      simp [hnul, hfolder, hlimit.1 rfl, hself]
    | some d₂ =>
      rw [hmanifest] at hlimit
      have hne : size id.toList + 13 ≠ d.limit := fun h => by simpa using hlimit.2 h
      simp [hne]

/-- With nothing in the way, an import of records does what writing them does. -/
theorem add_eq_writeDataset (now : String) (hobstacle : obstacle? d id = none)
    (himport : (Import.ofArchive archive kind).1 = .ok records) :
    (add d now id archive kind).result = (writeDataset d now id kind records).1 ∧
      (add d now id archive kind).store = (writeDataset d now id kind records).2 := by
  unfold add
  rw [hobstacle]
  cases h : Import.ofArchive archive kind with
  | mk imported trace =>
    rw [h] at himport
    dsimp only at himport
    subst himport
    exact ⟨rfl, rfl⟩

/-- An import fails and changes the directory exactly when everything is in order but the length of
the id: nothing is in the way of the dataset, the archive holds records, and the name of the records
file can be reached and is as long as a name can be, so that the name of the manifest is too long.
No other failed import changes anything. -/
theorem add_leaves_records_iff (d : Directory) (now id : String) (archive : Bytes)
    (kind : DatasetKind) :
    ((∃ error, (add d now id archive kind).result = .error error) ∧
        (add d now id archive kind).store ≠ d) ↔
      obstacle? d id = none ∧ Char.ofNat 0 ∉ id.toList ∧
        size (recordsFile id).toList = d.limit ∧ d.containsFolder (recordsFile id) = false ∧
        ∃ records, (Import.ofArchive archive kind).1 = .ok records ∧
          d.find? (recordsFile id) ≠ some (recordsBytes records) := by
  rw [size_recordsFile]
  cases hobstacle : obstacle? d id with
  | some error => simp [add, hobstacle]
  | none =>
    obtain ⟨-, hid, hfree⟩ := obstacle?_eq_none_iff.1 hobstacle
    cases himport : (Import.ofArchive archive kind).1 with
    | error fault =>
      refine iff_of_false (fun h => h.2 ?_) (by simp)
      unfold add
      rw [hobstacle]
      cases h : Import.ofArchive archive kind with
      | mk imported trace =>
        rw [h] at himport
        dsimp only at himport
        subst himport
        rfl
    | ok records =>
      obtain ⟨hresult, hstore⟩ := add_eq_writeDataset now hobstacle himport
      rw [hresult, hstore, writeDataset_leaves_iff hid hfree]
      simp

/-! ## An import that leaves its records behind -/

/-- An id of a number of letters. -/
def lettersId (n : Nat) : String :=
  String.ofList (List.replicate n 'a')

/-- The id consists of letters. -/
theorem lettersId_toList (n : Nat) : (lettersId n).toList = List.replicate n 'a' :=
  String.toList_ofList

/-- The id takes one byte for each letter. -/
theorem size_lettersId (n : Nat) : size (lettersId n).toList = n := by
  have hletter : Char.utf8Size 'a' = 1 := by decide
  rw [lettersId_toList]
  induction n with
  | zero => rfl
  | succ n ih => rw [List.replicate_succ, Text.Utf8.size_cons, ih, hletter, Nat.add_comm]

/-- The id holds no character but its letter. -/
theorem mem_lettersId {n : Nat} {c : Char} (h : c ∈ (lettersId n).toList) : c = 'a' := by
  rw [lettersId_toList] at h
  exact List.eq_of_mem_replicate h

/-- Nothing is in the way of such an id in an empty directory, if it is longer than any reserved
word. -/
theorem obstacle?_lettersId {n : Nat} (hn : 8 < n) :
    obstacle? Directory.empty (lettersId n) = none := by
  have hnot : ∀ c, c ≠ 'a' → c ∉ (lettersId n).toList := fun c hc h => hc (mem_lettersId h)
  have hne : (lettersId n).toList ≠ [] := by
    rw [lettersId_toList]
    exact List.ne_nil_of_length_pos (by rw [List.length_replicate]; omega)
  have hblank : (lettersId n).toList.any Text.isBlank = false := by
    refine List.any_eq_false.2 fun c hc => ?_
    rw [mem_lettersId hc]
    decide
  have hreserved : lettersId n ∉ DatasetId.reservedWords := by
    have hshort : ∀ w ∈ DatasetId.reservedWords, w.toList.length ≤ 8 := by decide
    intro h
    have := hshort _ h
    rw [lettersId_toList, List.length_replicate] at this
    omega
  refine obstacle?_eq_none_iff.2 ⟨?_, ?_, ?_⟩
  · simp [DatasetId.Valid, DatasetId.fault?, hne, hnot, hblank, hreserved]
  · have hhead : (lettersId n).toList.head? ≠ some '.' := fun h =>
      hnot '.' (by decide) (List.mem_of_mem_head? h)
    simp [isPathSafe, hne, hnot, hhead]
  · simp [Directory.contains]

/-- Under an id of 242 letters the archive cannot be imported into an empty directory, and its
records stay. -/
theorem add_lettersId_leaves :
    (∃ error, (add Directory.empty "" (lettersId 242) oneRecord .courses).result = .error error) ∧
      (add Directory.empty "" (lettersId 242) oneRecord .courses).store ≠ .empty := by
  have hobstacle := obstacle?_lettersId (n := 242) (by decide)
  obtain ⟨-, hid, hfree⟩ := obstacle?_eq_none_iff.1 hobstacle
  obtain ⟨r, hrecords, -⟩ := cells_oneRecord
  obtain ⟨hresult, hstore⟩ := add_eq_writeDataset "" hobstacle hrecords
  rw [hresult, hstore, writeDataset_leaves_iff hid hfree, size_lettersId]
  refine ⟨fun h => ?_, rfl, by simp, by simp⟩
  exact absurd (mem_lettersId h) (by decide)

end CourseQuery.Disk
