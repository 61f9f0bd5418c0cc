import CourseQuery.Proofs.Dataset.Loading
import CourseQuery.Proofs.Dataset.Manifest
import CourseQuery.Proofs.Dataset.History
import CourseQuery.Proofs.Text.Split

/-!
# Only intact datasets are loaded

What loading hands out is described by the two files alone: the manifest is the text of a structure
that spells it, the records file is the text of an array of objects that spell the records, and what
the manifest says of the records holds. `Intact` says so without a word about reading, and a dataset
is loaded exactly when it is intact. Loading changes nothing in any folder, whatever it comes to.
-/

set_option autoImplicit false

namespace CourseQuery

open CommandLine (Opening Place Workspace)

namespace Disk

/-- The two files of a dataset are as an import leaves them, or could have been left so: a manifest,
and the records that it vouches for, all of them complete. -/
structure Intact (d : Directory) (id : String) (m : Manifest) (records : List Record) : Prop where
  pathSafe : isPathSafe id = true
  /-- The manifest has each of its members once and in range. -/
  manifest : ∃ text members, d.find? (manifestFile id) = some (Text.Utf8.encode text) ∧
    Json.fields? Manifest.memberNames text = some members ∧ m.SpelledBy members
  /-- The records file has the checksum of the manifest and is an array of records. -/
  data : ∃ text values, d.find? (recordsFile id) = some (Text.Utf8.encode text) ∧
    Checksum.crc32 (Text.Utf8.encode text) = m.checksum ∧
    Json.parse? text = some (.array values) ∧
    List.Forall₂ (fun v (r : Record) => ∃ members, v = .object members ∧ r.SpelledBy members)
      values records
  counted : records.length = m.rows
  complete : ∀ r ∈ records, r.Complete

variable {d : Directory} {id : String} {m : Manifest} {records : List Record}

/-- A file holds records if it is the text of an array of objects that spell them. -/
theorem recordsOfBytes?_eq_some_iff {file : Bytes} :
    recordsOfBytes? file = some records ↔
      ∃ text values, file = Text.Utf8.encode text ∧ Json.parse? text = some (.array values) ∧
        List.Forall₂ (fun v (r : Record) => ∃ members, v = .object members ∧ r.SpelledBy members)
          values records := by
  simp only [recordsOfBytes?, Option.bind_eq_some_iff, Text.Utf8.decode?_eq_some_iff,
    Record.listOfText?_eq_some_iff, exists_and_left]

/-- A dataset is loaded exactly when it is intact, and then the records are its own. -/
theorem load_eq_ok_iff_intact : load d id = .ok records ↔ ∃ m, Intact d id m records := by
  rw [load_eq_ok_iff]
  refine exists_congr fun m => ?_
  constructor
  · rintro ⟨file, hmanifest, hfile, hverified⟩
    obtain ⟨hsafe, manifest, hfound, hread⟩ := manifest_eq_ok_iff.1 hmanifest
    obtain ⟨text, rfl, hparse⟩ := Manifest.ofBytes_eq_ok_iff.1 hread
    obtain ⟨members, hmembers, hspelled⟩ := Manifest.parse?_eq_some_iff.1 hparse
    obtain ⟨hchecksum, hrecords, hcounted, hcomplete⟩ := verified_eq_ok_iff.1 hverified
    obtain ⟨document, values, rfl, hvalues, hlist⟩ := recordsOfBytes?_eq_some_iff.1 hrecords
    exact ⟨hsafe, ⟨text, members, hfound, hmembers, hspelled⟩,
      ⟨document, values, hfile, hchecksum, hvalues, hlist⟩, hcounted, hcomplete⟩
  · rintro ⟨hsafe, ⟨text, members, hfound, hmembers, hspelled⟩,
      ⟨document, values, hfile, hchecksum, hvalues, hlist⟩, hcounted, hcomplete⟩
    have hread := Manifest.ofBytes_eq_ok_iff.2
      ⟨text, rfl, Manifest.parse?_eq_some_iff.2 ⟨members, hmembers, hspelled⟩⟩
    have hrecords := recordsOfBytes?_eq_some_iff.2 ⟨document, values, rfl, hvalues, hlist⟩
    exact ⟨_, manifest_eq_ok_iff.2 ⟨hsafe, _, hfound, hread⟩, hfile,
      verified_eq_ok_iff.2 ⟨hchecksum, hrecords, hcounted, hcomplete⟩⟩

/-! ## Loading changes nothing -/

/-- Where a folder was opened, there is one. -/
def Settled (o : Opening) : Prop :=
  ∀ place, o.place = some place → (o.workspace.folder place).isSome

/-- Wherever a path is opened, a folder is there. -/
theorem settled_openFolder (w : Workspace) (path : String) : Settled (w.openFolder path) :=
  fun _ h => Workspace.isSome_folder_of_reach? (Workspace.reach?_openFolder h)

variable {path : String} {o : Opening} {run : List Operation}

/-- An operation leaves the folder in which it works. -/
theorem Settled.perform (h : Settled o) (op : Operation) : Settled (op.perform path o) := by
  obtain ⟨w, place⟩ := o
  cases place with
  | none =>
    cases op with
    | reopen => exact settled_openFolder w path
    | _ => exact h
  | some place =>
    have hset : ∀ folder, Settled ⟨w.setFolder place folder, some place⟩ := by
      intro folder there hthere
      obtain rfl := Option.some.inj hthere
      dsimp only
      rw [Workspace.folder_setFolder]
      rfl
    cases op with
    | reopen => exact settled_openFolder w path
    | _ => exact hset _

/-- A run of operations leaves the folder in which it works. -/
theorem Settled.foldl (h : Settled o) : Settled (run.foldl (Operation.perform path) o) := by
  induction run generalizing o with
  | nil => exact h
  | cons op run ih => exact ih (h.perform op)

/-- Loading leaves the whole workspace as it is. -/
theorem Settled.perform_load (h : Settled o) (path id : String) :
    (Operation.load id).perform path o = o := by
  obtain ⟨w, place⟩ := o
  cases place with
  | none => rfl
  | some place =>
    obtain ⟨folder, hfolder⟩ := Option.isSome_iff_exists.1 (h place rfl)
    have hsame : w.setFolder place ((w.folder place).getD .empty) = w := by
      dsimp only at hfolder
      rw [hfolder, Option.getD_some]
      exact Workspace.setFolder_self hfolder
    exact congrArg (Opening.mk · (some place)) hsame

/-- A dataset is loaded exactly when its id is path safe, its manifest has all its members once and
in range, and its records file has the checksum of the manifest and lists as many records as the
manifest says, with known keys only and all of them complete; and loading changes nothing anywhere
in the workspace, whatever was done before it. -/
theorem loads_exactly_intact :
    (∀ (d : Directory) (id : String) (records : List Record),
        load d id = .ok records ↔ ∃ m, Intact d id m records) ∧
      ∀ (w : Workspace) (path : String) (run : List Operation) (id : String),
        (run ++ [Operation.load id]).foldl (Operation.perform path) (w.openFolder path) =
          run.foldl (Operation.perform path) (w.openFolder path) := by
  refine ⟨fun d id records => load_eq_ok_iff_intact, fun w path run id => ?_⟩
  rw [List.foldl_append, List.foldl_cons, List.foldl_nil]
  exact (settled_openFolder w path).foldl.perform_load path id

end Disk

end CourseQuery
