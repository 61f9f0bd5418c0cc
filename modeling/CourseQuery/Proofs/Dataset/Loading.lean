import CourseQuery.Proofs.Dataset.Directory
import CourseQuery.Proofs.Record.Reading

/-!
# What loading checks

Loading goes through its checks one after another: an id that is path safe, a manifest file that is
read as a manifest, a records file with its checksum, records that are read from it, their number,
and the cells of each. The records are handed out exactly when every one of these checks passes.
-/

set_option autoImplicit false

namespace CourseQuery.Disk

variable {d : Directory} {id : String} {m : Manifest} {file : Bytes} {records : List Record}

/-- The bytes of a manifest are those of the file that a path safe id names. -/
theorem manifestBytes_eq_ok_iff :
    manifestBytes d id = .ok file ↔
      isPathSafe id = true ∧ d.find? (manifestFile id) = some file := by
  unfold manifestBytes
  rw [Directory.files_find?]
  cases isPathSafe id with
  | false => simp
  | true => cases d.find? (manifestFile id) <;> simp

/-- A dataset has a manifest if a path safe id names a file that is read as one. -/
theorem manifest_eq_ok_iff :
    manifest d id = .ok m ↔ isPathSafe id = true ∧
      ∃ file, d.find? (manifestFile id) = some file ∧ Manifest.ofBytes file = .ok m := by
  have hbytes : manifest d id = .ok m ↔
      ∃ file, manifestBytes d id = .ok file ∧ Manifest.ofBytes file = .ok m := by
    rw [manifest, bind_eq_ok_iff]
    refine exists_congr fun file => and_congr_right fun _ => ?_
    cases Manifest.ofBytes file with
    | ok m => rfl
    | error e => cases e <;> simp
  simp only [hbytes, manifestBytes_eq_ok_iff, and_assoc, exists_and_left]

/-- Records have no defect if they are complete. -/
theorem firstDefect?_eq_none_iff (position : Nat) :
    firstDefect? position records = none ↔ ∀ r ∈ records, r.Complete := by
  induction records generalizing position with
  | nil => exact iff_of_true rfl nofun
  | cons r rs ih =>
    rw [List.forall_mem_cons, firstDefect?, ← Record.defect?_eq_none_iff]
    cases r.defect? with
    | some defect => simp
    | none => simp [ih]

/-- The records of a file are handed out when the file is the one that the manifest was made for, is
read as as many records as the manifest counts, and all of them are complete. -/
theorem verified_eq_ok_iff :
    verified m file = .ok records ↔
      Checksum.crc32 file = m.checksum ∧ recordsOfBytes? file = some records ∧
        records.length = m.rows ∧ ∀ r ∈ records, r.Complete := by
  unfold verified
  rw [Manifest.verify, ← firstDefect?_eq_none_iff 0]
  by_cases hchecksum : Checksum.crc32 file = m.checksum
  · rw [if_pos (beq_iff_eq.2 hchecksum), and_iff_right hchecksum]
    cases recordsOfBytes? file with
    | none => simp
    | some found =>
      rw [Option.some.injEq]
      dsimp only
      by_cases hrows : found.length = m.rows
      · rw [if_pos hrows]
        cases hdefect : firstDefect? 0 found with
        | some damage =>
          refine iff_of_false nofun ?_
          rintro ⟨rfl, -, hnone⟩
          rw [hdefect] at hnone
          contradiction
        | none =>
          rw [Except.ok.injEq]
          constructor
          · rintro rfl
            exact ⟨rfl, hrows, hdefect⟩
          · exact And.left
      · rw [if_neg hrows]
        refine iff_of_false nofun ?_
        rintro ⟨rfl, hrows', -⟩
        exact hrows hrows'
  · rw [if_neg (mt beq_iff_eq.1 hchecksum)]
    exact iff_of_false nofun fun h => hchecksum h.1

/-- A dataset is loaded from a manifest and a records file that the manifest vouches for. -/
theorem load_eq_ok_iff :
    load d id = .ok records ↔ ∃ m file, manifest d id = .ok m ∧
      d.find? (recordsFile id) = some file ∧ verified m file = .ok records := by
  rw [load, bind_eq_ok_iff]
  refine exists_congr fun m => ?_
  rw [Directory.files_find?]
  cases d.find? (recordsFile id) with
  | none => simp
  | some file => cases hverified : verified m file <;> simp [hverified]

end CourseQuery.Disk
