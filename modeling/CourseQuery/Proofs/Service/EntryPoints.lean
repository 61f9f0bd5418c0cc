import CourseQuery.CommandLine.Run
import CourseQuery.Proofs.Base64
import CourseQuery.Proofs.Dataset.Directory
import CourseQuery.Proofs.Import.Records
import CourseQuery.Proofs.Service.Request

/-!
# The ways to make a request

A request can be made as a line, as a request that was read already, or by a command of its own,
which takes an archive from a file and not from base 64. At one time these do exactly the same. At
different times they differ in the time that the manifest of an added dataset holds and in nothing
else: neither a response nor a trace shows the time, and no refusal depends on it.
-/

set_option autoImplicit false

namespace CourseQuery

open CommandLine (Command)
open Disk (manifestFile)

/-! ## Commands for requests -/

/-- The command that makes a request. An added dataset comes from the archive at a path. -/
def Service.Request.command (path : String) : Service.Request → Command
  | query sentence => .query sentence
  | explain sentence => .explain sentence
  | add id kind _ => .add id path kind
  | remove id => .remove id
  | list => .list

/-- If a request adds a dataset, the file at a path can be read, and its bytes in base 64 are the
content of the request. -/
def Service.Request.Archived (read? : String → Option Bytes) (path : String) :
    Service.Request → Prop
  | add _ _ content => ∃ archive, read? path = some archive ∧ content = Base64.encode archive
  | _ => True

/-! ## Directories apart in time -/

/-- A manifest with another time. -/
def Manifest.at (m : Manifest) (time : String) : Manifest :=
  { m with createdAt := time }

/-- Two directories hold the same, but that the manifest of a dataset may have been made at
different times. -/
structure DatedApart (d e : Directory) : Prop where
  room : d.room = e.room
  folders : d.folder.folders = e.folder.folders
  file : ∀ name, d.folder.files.find? name = e.folder.files.find? name ∨
    ∃ (m : Manifest) (time time' : String), name = manifestFile m.id ∧
      d.folder.files.find? name = some (m.at time).toBytes ∧
      e.folder.files.find? name = some (m.at time').toBytes

/-- A directory is not apart from itself. -/
theorem DatedApart.refl (d : Directory) : DatedApart d d :=
  ⟨rfl, rfl, fun _ => Or.inl rfl⟩

/-- Directories into which one manifest was written at two times are apart in this alone. -/
theorem DatedApart.withManifest (d : Directory) (m : Manifest) (time time' : String) :
    DatedApart (d.withFile (manifestFile m.id) (m.at time).toBytes)
      (d.withFile (manifestFile m.id) (m.at time').toBytes) := by
  refine ⟨by simp, by simp, fun name => ?_⟩
  rw [Directory.find?_withFile, Directory.find?_withFile]
  by_cases hname : name = manifestFile m.id
  · rw [if_pos hname, if_pos hname]
    exact Or.inr ⟨m, time, time', hname, rfl, rfl⟩
  · rw [if_neg hname, if_neg hname]
    exact Or.inl rfl

namespace Disk

variable (d : Directory) (time time' id : String)

/-- The same records are written at any time, and the manifest is written or refused. -/
theorem writeDataset_datedApart (kind : DatasetKind) (records : List Record) :
    (writeDataset d time id kind records).1 = (writeDataset d time' id kind records).1 ∧
      DatedApart (writeDataset d time id kind records).2
        (writeDataset d time' id kind records).2 := by
  simp only [writeDataset, Directory.files_write?]
  cases d.write? (recordsFile id) (recordsBytes records) with
  | none => exact ⟨rfl, .refl d⟩
  | some mid =>
    dsimp only
    generalize hmanifest : Manifest.ofRecords id kind records.length time (recordsBytes records) = m
    have hdated : Manifest.ofRecords id kind records.length time' (recordsBytes records) =
        m.at time' := by
      rw [← hmanifest]
      rfl
    have hself : m = m.at time := by
      rw [← hmanifest]
      rfl
    have hid : m.id = id := by
      rw [← hmanifest]
      rfl
    rw [hdated]
    -- whether a file can be written does not depend on what it is to hold
    cases hwrite : mid.write? (manifestFile id) m.toBytes with
    | none =>
      have hnone : mid.write? (manifestFile id) (m.at time').toBytes = none := by
        rw [Directory.write?_eq_none_iff] at hwrite ⊢
        exact hwrite
      rw [hnone]
      exact ⟨rfl, .refl mid⟩
    | some left =>
      obtain ⟨hreach, hfolder, rfl⟩ := Directory.write?_eq_some_iff.1 hwrite
      have hsome : mid.write? (manifestFile id) (m.at time').toBytes =
          some (mid.withFile (manifestFile id) (m.at time').toBytes) :=
        Directory.write?_eq_some_iff.2 ⟨hreach, hfolder, rfl⟩
      rw [hsome]
      refine ⟨rfl, ?_⟩
      have happart := DatedApart.withManifest mid m time time'
      rw [← hself, hid] at happart
      exact happart

/-- An import does the same at any time, but for the time in the manifest. -/
theorem add_datedApart (archive : Bytes) (kind : DatasetKind) :
    (add d time id archive kind).result = (add d time' id archive kind).result ∧
      (add d time id archive kind).trace = (add d time' id archive kind).trace ∧
      DatedApart (add d time id archive kind).store (add d time' id archive kind).store := by
  unfold add
  cases obstacle? d id with
  | some error => exact ⟨rfl, rfl, .refl d⟩
  | none =>
    cases Import.ofArchive archive kind with
    | mk imported trace =>
      cases imported with
      | error fault => exact ⟨rfl, rfl, .refl d⟩
      | ok records =>
        obtain ⟨hresult, hstore⟩ := writeDataset_datedApart d time time' id kind records
        exact ⟨hresult, rfl, hstore⟩

end Disk

namespace Service

/-! ## Outcomes -/

/-- Two outcomes have the same response and the same trace and leave the same files, but for the
time in the manifest of a dataset. -/
structure SameOutcome {α : Type} (o o' : Outcome Directory α) : Prop where
  result : o.result = o'.result
  trace : o.trace = o'.trace
  store : DatedApart o.store o'.store

/-- An outcome is the same as itself. -/
theorem SameOutcome.refl {α : Type} (o : Outcome Directory α) : SameOutcome o o :=
  ⟨rfl, rfl, .refl o.store⟩

/-- What is done with results that are the same keeps them so. -/
theorem SameOutcome.map {α β : Type} {o o' : Outcome Directory α} (h : SameOutcome o o')
    (f : α → β) : SameOutcome (o.map f) (o'.map f) :=
  ⟨congrArg f h.result, h.trace, h.store⟩

section

variable (d : Directory) (time time' : String)

/-- An import has the same outcome at any time. -/
theorem add_sameOutcome (id : String) (archive : Bytes) (kind : DatasetKind) :
    SameOutcome (add time d id archive kind) (add time' d id archive kind) := by
  obtain ⟨hresult, htrace, hstore⟩ := Disk.add_datedApart d time time' id archive kind
  have hresult' : (Store.add d time id archive kind).result =
      (Store.add d time' id archive kind).result := hresult
  have htrace' : (Store.add d time id archive kind).trace =
      (Store.add d time' id archive kind).trace := htrace
  refine ⟨congrArg (Except.mapError Error.store) hresult', ?_, hstore⟩
  simp only [add, hresult', htrace']

/-- A request does the same at any time, but for the time in the manifest of an added dataset. -/
theorem respond_sameOutcome (r : Request) :
    SameOutcome (respond time d r) (respond time' d r) := by
  cases r with
  | query | explain | remove | list => exact .refl _
  | add id kind content =>
    have hadd : SameOutcome (addContent time d id kind content)
        (addContent time' d id kind content) := by
      unfold addContent
      split
      · exact .refl _
      · exact .refl _
      · exact add_sameOutcome d time time' id _ _
    exact hadd.map _

/-! ## One request made in different ways -/

/-- The line of a request does what the request does. -/
theorem respondLine_text (r : Request) : respondLine time d r.text = respond time d r := by
  rw [respondLine, Request.parse?_text]

/-- An archive that is not encoded is added as one that comes in base 64 is. -/
theorem addContent_encode (id kind : String) (archive : Bytes) :
    addContent time d id kind (Base64.encode archive) = addNamed time d id kind archive := by
  unfold addContent addNamed
  rw [decodeContent_encode]
  cases DatasetKind.ofName kind <;> rfl

/-- The command of a request does what the request does. -/
theorem execute_command {r : Request} {read? : String → Option Bytes} {path : String}
    (h : r.Archived read? path) :
    CommandLine.execute time d read? (r.command path) = .ok (respond time d r) := by
  cases r with
  | query | explain | remove | list => rfl
  | add id kind content =>
    obtain ⟨archive, hread, rfl⟩ := h
    simp only [CommandLine.execute, Request.command, hread, respond, addContent_encode]

end

/-- However a request is made, as a line, as itself or by its command, and at whatever times, the
response is the same and so are the files that are left, but for the time in a manifest. At one time
there is no difference at all. -/
theorem sameOutcome_of_request (d : Directory) (r : Request) (time time' : String) :
    SameOutcome (respondLine time d r.text) (respond time' d r) ∧
      respondLine time d r.text = respond time d r ∧
      ∀ (read? : String → Option Bytes) (path : String), r.Archived read? path →
        CommandLine.execute time d read? (r.command path) = .ok (respond time d r) ∧
          ∃ outcome, CommandLine.execute time d read? (r.command path) = .ok outcome ∧
            SameOutcome outcome (respond time' d r) := by
  have hsame := respond_sameOutcome d time time' r
  have hline := respondLine_text d time r
  refine ⟨?_, hline, fun read? path harchived => ?_⟩
  · rw [hline]
    exact hsame
  · have hcommand := execute_command d time harchived
    exact ⟨hcommand, _, hcommand, hsame⟩

/-- A request that adds a dataset, and the file that its command takes the archive from. -/
theorem sameOutcome_of_add :
    (Request.add "abc" "courses" (Base64.encode Import.oneRecord)).Archived
        (fun path => if path = "a.zip" then some Import.oneRecord else none) "a.zip" ∧
      ∃ outcome, CommandLine.execute "1" .empty
          (fun path => if path = "a.zip" then some Import.oneRecord else none)
          (.add "abc" "a.zip" "courses") = .ok outcome ∧
        SameOutcome outcome
          (respond "2" .empty (.add "abc" "courses" (Base64.encode Import.oneRecord))) := by
  have harchived : (Request.add "abc" "courses" (Base64.encode Import.oneRecord)).Archived
      (fun path => if path = "a.zip" then some Import.oneRecord else none) "a.zip" :=
    ⟨Import.oneRecord, rfl, rfl⟩
  obtain ⟨-, -, hcommand⟩ := sameOutcome_of_request .empty
    (.add "abc" "courses" (Base64.encode Import.oneRecord)) "1" "2"
  exact ⟨harchived, (hcommand _ _ harchived).2⟩

end Service

end CourseQuery
