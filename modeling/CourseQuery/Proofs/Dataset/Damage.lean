import CourseQuery.Proofs.Checksum
import CourseQuery.Proofs.Dataset.Consistency
import CourseQuery.Proofs.Dataset.Isolation
import CourseQuery.Proofs.Dataset.Loading

/-!
# Damaged datasets

Where both files of a dataset can be read, loading either hands out records or tells that the
dataset is damaged, with one exception: a manifest that is no text at all is told as a file that
cannot be read. So bytes that are no text are damage in the records file and none in the manifest.

After an import no single byte of the records file can be changed without being noticed, since the
checksum in the manifest is that of the other bytes.
-/

set_option autoImplicit false

namespace CourseQuery.Disk

variable {d : Directory} {id now : String} {m : Manifest} {file data archive : Bytes}
  {kind : DatasetKind} {records : List Record}

/-- What is wrong with a manifest is what is wrong with loading. -/
theorem load_of_manifest_error {error : StoreError} (h : manifest d id = .error error) :
    load d id = .error error := by
  rw [load, h]
  rfl

/-- Where the manifest can be read, it is all about the records file. -/
theorem load_of_manifest (hmanifest : manifest d id = .ok m)
    (hdata : d.find? (recordsFile id) = some data) :
    load d id = (verified m data).mapError (.corrupt id) := by
  rw [load, hmanifest]
  simp only [bind, Except.bind, Directory.files_find?, hdata]
  cases verified m data <;> rfl

/-- Records whose checksum is not the one of the manifest are not loaded. -/
theorem load_of_checksum_ne (hmanifest : manifest d id = .ok m)
    (hdata : d.find? (recordsFile id) = some data) (hne : Checksum.crc32 data ≠ m.checksum) :
    load d id = .error (.corrupt id .checksum) := by
  rw [load_of_manifest hmanifest hdata, verified, Manifest.verify, if_neg (mt beq_iff_eq.1 hne)]
  rfl

/-! ## What is told of a manifest -/

section

variable (hsafe : isPathSafe id = true) (hmanifest : d.find? (manifestFile id) = some file)

include hsafe hmanifest

/-- The manifest of a dataset whose file is found is what the file holds. -/
theorem manifest_of_file :
    manifest d id = match Manifest.ofBytes file with
      | .error (.document reason) => .error (.corrupt id (.manifest reason))
      | result => result := by
  rw [manifest, manifestBytes_eq_ok_iff.2 ⟨hsafe, hmanifest⟩]
  rfl

/-- A text that is no manifest is a damage. -/
theorem manifest_of_text {s : String} (hs : file = Text.Utf8.encode s)
    (hread : ∀ m, Manifest.ofBytes file ≠ .ok m) :
    ∃ reason, manifest d id = .error (.corrupt id (.manifest reason)) := by
  have hdecode := Text.Utf8.decode?_eq_some_iff.2 hs
  cases hparse : Manifest.parse? s with
  | some m => exact absurd (Manifest.ofBytes_eq_ok_iff.2 ⟨s, hs, hparse⟩) (hread m)
  | none =>
    refine ⟨"not a manifest", ?_⟩
    rw [manifest_of_file hsafe hmanifest]
    simp only [Manifest.ofBytes, hdecode, hparse]

/-- Bytes that are no text are told as a file that cannot be read. -/
theorem manifest_of_not_text (hfile : ¬ ∃ s, file = Text.Utf8.encode s) :
    manifest d id = .error (.access "file is not valid UTF-8") := by
  have hdecode : Text.Utf8.decode? file = none :=
    Option.eq_none_iff_forall_ne_some.2 fun s hs =>
      hfile ⟨s, Text.Utf8.decode?_eq_some_iff.1 hs⟩
  rw [manifest_of_file hsafe hmanifest]
  simp only [Manifest.ofBytes, hdecode]

/-- Where both files can be read, loading fails only with a damage of the dataset if the manifest is
a text, whatever text it is and whatever the bytes of the records file are. If the manifest is no
text, loading fails as if the file could not be read. -/
theorem load_blames_content (hdata : d.find? (recordsFile id) = some data) :
    (∃ s, file = Text.Utf8.encode s) ∧
        ((∃ records, load d id = .ok records) ∨
          ∃ damage, load d id = .error (.corrupt id damage)) ∨
      (¬ ∃ s, file = Text.Utf8.encode s) ∧
        load d id = .error (.access "file is not valid UTF-8") := by
  by_cases hfile : ∃ s, file = Text.Utf8.encode s
  · obtain ⟨s, hs⟩ := hfile
    refine Or.inl ⟨⟨s, hs⟩, ?_⟩
    by_cases hread : ∃ m, Manifest.ofBytes file = .ok m
    · obtain ⟨m, hm⟩ := hread
      rw [load_of_manifest (manifest_eq_ok_iff.2 ⟨hsafe, file, hmanifest, hm⟩) hdata]
      cases verified m data with
      | ok records => exact Or.inl ⟨records, rfl⟩
      | error damage => exact Or.inr ⟨damage, rfl⟩
    · obtain ⟨reason, hreason⟩ :=
        manifest_of_text hsafe hmanifest hs fun m hm => hread ⟨m, hm⟩
      exact Or.inr ⟨_, load_of_manifest_error hreason⟩
  · exact Or.inr ⟨hfile, load_of_manifest_error (manifest_of_not_text hsafe hmanifest hfile)⟩

end

/-- A directory with two files of a dataset; the records file lists no records. -/
def withManifest (file : Bytes) : Directory :=
  (Directory.empty.withFile (recordsFile "abc") (Text.Utf8.encode "[]")).withFile
    (manifestFile "abc") file

/-- A directory with a manifest beside an empty list of records holds these two files. -/
theorem find?_withManifest (file : Bytes) :
    (withManifest file).find? (manifestFile "abc") = some file ∧
      (withManifest file).find? (recordsFile "abc") = some (Text.Utf8.encode "[]") :=
  ⟨rfl, rfl⟩

/-- A manifest of one letter is a damage. -/
theorem load_letter :
    isPathSafe "abc" = true ∧ (withManifest [120]).find? (manifestFile "abc") = some [120] ∧
      (withManifest [120]).find? (recordsFile "abc") = some (Text.Utf8.encode "[]") ∧
      ((∃ records, load (withManifest [120]) "abc" = .ok records) ∨
        ∃ damage, load (withManifest [120]) "abc" = .error (.corrupt "abc" damage)) := by
  have hsafe : isPathSafe "abc" = true := by decide
  obtain ⟨hmanifest, hdata⟩ := find?_withManifest [120]
  refine ⟨hsafe, hmanifest, hdata, ?_⟩
  rcases load_blames_content hsafe hmanifest hdata with ⟨-, hload⟩ | ⟨hfile, -⟩
  · exact hload
  · exact absurd ⟨"x", by decide⟩ hfile

/-- A manifest of one byte that begins no character is not told as a damage, though both files are
there and can be read. -/
theorem load_loneByte :
    isPathSafe "abc" = true ∧ (withManifest [255]).find? (manifestFile "abc") = some [255] ∧
      (withManifest [255]).find? (recordsFile "abc") = some (Text.Utf8.encode "[]") ∧
      ¬ ((∃ records, load (withManifest [255]) "abc" = .ok records) ∨
        ∃ damage, load (withManifest [255]) "abc" = .error (.corrupt "abc" damage)) := by
  have hsafe : isPathSafe "abc" = true := by decide
  obtain ⟨hmanifest, hdata⟩ := find?_withManifest [255]
  have hfile : ¬ ∃ s, [255] = Text.Utf8.encode s := by
    rintro ⟨s, hs⟩
    have hnone : Text.Utf8.decode? [255] = none := by decide +kernel
    rw [Text.Utf8.decode?_eq_some_iff.2 hs] at hnone
    contradiction
  refine ⟨hsafe, hmanifest, hdata, ?_⟩
  rw [load_of_manifest_error (manifest_of_not_text hsafe hmanifest hfile)]
  simp

/-! ## A changed byte -/

/-- Even no records are written as something. -/
theorem recordsBytes_ne_nil (records : List Record) : recordsBytes records ≠ [] := by
  have htext : (Record.textOfList records).toList ≠ [] := by
    simp [Record.textOfList, Json.text, Json.chars]
  obtain ⟨c, tail, hchars⟩ := List.exists_cons_of_ne_nil htext
  obtain ⟨b, rest, hbytes, -⟩ := Text.Utf8.next_encodeChar c
  rw [recordsBytes, Text.Utf8.encode, hchars, List.flatMap_cons, hbytes]
  exact List.cons_ne_nil _ _

/-- After a successful import the records file is there and not empty, and whatever else happens in
the directory, as long as nothing but one byte of this file is changed among the files of the
dataset, loading tells that the dataset is damaged. The damage is told to be the checksum if the
rows can be counted with 64 bits, as they must be for the manifest to be read at all. -/
theorem load_changed_byte {info : DatasetInfo}
    (h : (add d now id archive kind).result = .ok info) :
    ∃ data, (add d now id archive kind).store.find? (recordsFile id) = some data ∧ data ≠ [] ∧
      ∀ e, AlikeFor id (add d now id archive kind).store e →
        ∀ i (hi : i < data.length), ∀ b, b ≠ data[i] →
          ∃ damage,
            load (e.withFile (recordsFile id) (data.set i b)) id = .error (.corrupt id damage) ∧
              (info.rows < UInt64.size → damage = .checksum) := by
  obtain ⟨records, -, rfl, hsafe, hmanifest, hdata⟩ := files_of_add h
  refine ⟨recordsBytes records, hdata, recordsBytes_ne_nil records, fun e halike i hi b hb => ?_⟩
  generalize (add d now id archive kind).store = stored at *
  rw [← (halike.withFile (recordsFile id) _).load_eq]
  have hchanged : (stored.withFile (recordsFile id) ((recordsBytes records).set i b)).find?
      (recordsFile id) = some ((recordsBytes records).set i b) :=
    Directory.find?_withFile_of_find? hdata
  have hkept : (stored.withFile (recordsFile id) ((recordsBytes records).set i b)).find?
      (manifestFile id) = some (manifestOf id ⟨kind, records⟩ now).toBytes := by
    rw [← hmanifest]
    exact ((sameAt_withFile (recordsFile_ne_manifestFile id id).symm).find?_eq rfl).symm
  by_cases hrows : records.length < UInt64.size
  · have hread := manifest_eq_ok_iff.2
      ⟨hsafe, _, hkept, Manifest.ofBytes_toBytes (m := manifestOf id ⟨kind, records⟩ now) hrows⟩
    have hload := load_of_checksum_ne hread hchanged (Checksum.crc32_set_ne hi hb)
    exact ⟨.checksum, hload, fun _ => rfl⟩
  · -- the manifest itself does not come back when the rows do not fit
    obtain ⟨reason, hreason⟩ := manifest_of_text hsafe hkept rfl fun m hm =>
      hrows (Manifest.ofBytes_toBytes_eq_ok_iff.1 hm).2
    exact ⟨_, load_of_manifest_error hreason, fun hcounted => absurd hcounted hrows⟩

/-- The archive with one record is imported into an empty directory. -/
theorem add_oneRecord : ∃ info,
    (add Directory.empty "now" "abc" Import.oneRecord .courses).result = .ok info ∧
    info.rows < UInt64.size := by
  obtain ⟨records, himport, hkept⟩ := exists_kept_oneRecord
  have hobstacle : obstacle? Directory.empty "abc" = none := by
    rw [obstacle?_eq_none_iff]
    decide
  obtain ⟨hresult, -⟩ := add_eq_writeDataset "now" hobstacle himport
  have hwrite := mirrors_empty.writeDataset_eq "now" hkept
  dsimp only at hwrite
  exact ⟨_, by rw [hresult, hwrite], hkept.records.counted⟩

/-- Once the first byte of its records file is changed, loading the dataset fails. -/
theorem load_changed_byte_oneRecord : ∃ info data b,
    (add Directory.empty "now" "abc" Import.oneRecord .courses).result = .ok info ∧
      (add Directory.empty "now" "abc" Import.oneRecord .courses).store.find? (recordsFile "abc") =
        some data ∧
      data.head? ≠ some b ∧
      load ((add Directory.empty "now" "abc" Import.oneRecord .courses).store.withFile
        (recordsFile "abc") (data.set 0 b)) "abc" = .error (.corrupt "abc" .checksum) := by
  obtain ⟨info, hresult, hcounted⟩ := add_oneRecord
  obtain ⟨data, hdata, hne, hchange⟩ := load_changed_byte hresult
  obtain ⟨first, rest, rfl⟩ := List.exists_cons_of_ne_nil hne
  have hother : first + 1 ≠ first := by
    intro heq
    have hvalue : (first.toNat + 1) % 256 = first.toNat := congrArg UInt8.toNat heq
    have := first.toNat_lt
    omega
  obtain ⟨damage, hload, hdamage⟩ :=
    hchange _ ⟨rfl, fun _ _ => .refl _ _⟩ 0 (Nat.succ_pos _) (first + 1) hother
  rw [hdamage hcounted] at hload
  exact ⟨info, first :: rest, first + 1, hresult, hdata, by simp, hload⟩

end CourseQuery.Disk
