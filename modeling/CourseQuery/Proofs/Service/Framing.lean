import CourseQuery.Proofs.Dataset.Manifest
import CourseQuery.Proofs.Json.OneLine
import CourseQuery.Proofs.Json.Sorted
import CourseQuery.Proofs.Record.Stored
import CourseQuery.Proofs.Service.Blame
import CourseQuery.Proofs.Service.Stores
import CourseQuery.Proofs.Text.Split

/-!
# A line for a line

Every line that is read gets one line, which is read as an object of a status and a body. A response
can be written whatever it tells, since nothing that comes into one is more than a text, a record or
a number of rows that fits in 64 bits. A run of lines is answered one by one: what is written up to
some place depends on what was read up to there, and a line that cannot be read ends the run with
what was done before it.
-/

set_option autoImplicit false

namespace CourseQuery.Service

/-! ## What responses are made of -/

/-- Texts can be written. -/
theorem writable_texts (ss : List String) : (Explanation.texts ss).Writable :=
  .array (List.forall_mem_map.2 fun s _ => .string s)

/-- An explanation can be written. -/
theorem writable_explanation (e : Explanation) : e.toJson.Writable := by
  refine .object ?_
  cases e with
  | accepted query =>
    have hgroups : (Json.array ((Explanation.groups query).map Explanation.texts)).Writable :=
      .array (List.forall_mem_map.2 fun group _ => writable_texts group)
    cases hsort : query.sort <;>
      simp [Explanation.members, hsort, hgroups, writable_texts, Json.Writable.bool,
        Json.Writable.string]
  | rejected r =>
    simp [Explanation.members, Json.Writable.bool, Json.Writable.string, Json.Writable.array]

/-- A listing on disk shows numbers of rows that manifests hold. -/
theorem rows_lt_of_mem_infos {d : Directory} {info : DatasetInfo}
    (h : info ∈ (Disk.list d).infos) : info.rows < UInt64.size := by
  have hinfo : info ∈ d.entries.filterMap Disk.infoOf? := (List.mergeSort_perm _ _).mem_iff.1 h
  obtain ⟨⟨name, file⟩, -, hshown⟩ := List.mem_filterMap.1 hinfo
  simp only [Disk.infoOf?, Option.ite_none_right_eq_some, Option.map_eq_some_iff] at hshown
  obtain ⟨-, m, hread, rfl⟩ := hshown
  have hm : Disk.readManifest file = .ok m := eq_ok_of_toOption hread
  cases file with
  | none => contradiction
  | some bytes =>
    obtain ⟨s, -, hparse⟩ := Manifest.ofBytes_eq_ok_iff.1 hm
    obtain ⟨members, -, hspelled⟩ := Manifest.parse?_eq_some_iff.1 hparse
    exact hspelled.counted

/-- What a listing tells of a dataset can be written if the number of rows fits in 64 bits. -/
theorem writable_info {info : DatasetInfo} (h : info.rows < UInt64.size) :
    info.toJson.Writable := by
  simp [DatasetInfo.toJson, Json.Writable.object, Json.Writable.string,
    Json.Writable.integer (Json.fitsWord_natCast.2 h)]

namespace Response

/-- The body of a response can be written, and its status is a word. -/
structure Writable (r : Response) : Prop where
  status : r.status < UInt64.size
  body : r.body.Writable

/-- A response with a result that can be written can be written. -/
theorem writable_ofResult {v : Json} (h : v.Writable) : (ofResult v).Writable where
  status := show 200 < UInt64.size by decide
  body := .object (List.forall_mem_singleton.2 h.sorted)

/-- The response to an error can be written. -/
theorem writable_ofError (e : Error) : (ofError e).Writable where
  status := by
    have hcode : ∀ code : ErrorCode, code.status < UInt64.size := by
      intro code
      cases code <;> decide
    exact hcode e.code
  body := .object (List.forall_mem_singleton.2 (.string e.coded))

/-- The response without content can be written. -/
theorem writable_noContent : noContent.Writable where
  status := by decide
  body := .null

/-- A response can be written if it is one to an error or one that can be written. -/
theorem writable_ofExcept {α : Type} {succeed : α → Response} {result : Except Error α}
    (h : ∀ a, (succeed a).Writable) : (ofExcept succeed result).Writable := by
  cases result with
  | ok a => exact h a
  | error e => exact writable_ofError e

/-- The response with records can be written. -/
theorem writable_ofRecords (records : List Record) : (ofRecords records).Writable :=
  writable_ofResult (.array (List.forall_mem_map.2 fun r _ => Record.writable_toJson r))

/-- The response with a listing can be written if the numbers of rows fit in 64 bits. -/
theorem writable_ofInfos {infos : List DatasetInfo} (h : ∀ info ∈ infos, info.rows < UInt64.size) :
    (ofInfos infos).Writable :=
  writable_ofResult (.array (List.forall_mem_map.2 fun info hinfo => writable_info (h info hinfo)))

/-- The text of a response that can be written is read as its status and its body. -/
theorem parse?_text {r : Response} (h : r.Writable) :
    Json.parse? r.text =
      some (.object [("code", .integer r.status), ("body", r.body.reread)]) := by
  have hobject : r.toJson.Writable := by
    refine .object ?_
    simp only [List.forall_mem_cons, List.not_mem_nil, false_implies, implies_true, and_true]
    exact ⟨.integer (Json.fitsWord_natCast.2 h.status), h.body⟩
  exact Json.parse?_text_reread hobject

end Response

/-- Over a directory, whatever its files hold, every line gets a response that can be written. -/
theorem writable_respondLine (now : String) (d : Directory) (line : String) :
    (respondLine now d line).result.Writable := by
  unfold respondLine
  split
  · exact Response.writable_ofError _
  · rename_i request hparse
    cases request with
    | query sentence => exact Response.writable_ofExcept Response.writable_ofRecords
    | explain sentence => exact Response.writable_ofResult (writable_explanation _)
    | add id kind content => exact Response.writable_ofExcept fun _ => Response.writable_noContent
    | remove id => exact Response.writable_ofExcept fun _ => Response.writable_noContent
    | list => exact Response.writable_ofInfos fun info hinfo => rows_lt_of_mem_infos hinfo

/-! ## Lines -/

/-- A line is a response: no control character below the space stands in it, and it is read as an
object of a status and a body and nothing else. -/
structure Framed (line : String) : Prop where
  noControl : ∀ c ∈ line.toList, 0x20 ≤ c.toNat
  decoded : ∃ (status : Nat) (body : Json),
    Json.parse? line = some (.object [("code", .integer status), ("body", body)])

/-- A response that can be written is framed. -/
theorem framed_text {r : Response} (h : r.Writable) : Framed r.text where
  noControl := by
    rw [Response.text, Json.text, String.toList_ofList]
    exact Json.noControl_chars _
  decoded := ⟨_, _, Response.parse?_text h⟩

/-- Lines as they are written, each with its end. -/
def output (lines : List String) : String :=
  String.ofList (lines.flatMap fun line => line.toList ++ ['\n'])

/-- Framed lines are found again between the ends of the lines. -/
theorem split_output {lines : List String} (h : ∀ line ∈ lines, Framed line) :
    Text.split '\n' (output lines).toList = lines.map String.toList ++ [[]] := by
  rw [output, String.toList_ofList]
  induction lines with
  | nil => rfl
  | cons line lines ih =>
    rw [List.forall_mem_cons] at h
    have hend : '\n' ∉ line.toList := fun hmem => absurd (h.1.noControl _ hmem) (by decide)
    rw [List.flatMap_cons, List.append_assoc, List.singleton_append,
      Text.split_append_cons _ hend, ih h.2]
    rfl

/-! ## A run of lines -/

section

variable {σ : Type} [Store σ] (store : σ)

/-- There are as many responses as lines. -/
theorem length_responses (run : List (String × String)) :
    (responses store run).length = run.length := by
  induction run generalizing store with
  | nil => rfl
  | cons entry rest ih => rw [responses, List.length_cons, ih, List.length_cons]

/-- Lines in front of other items are answered first, and the other items over the store that they
leave. -/
theorem serve_append {ε : Type} (run : List (String × String))
    (behind : List (Except ε (String × String))) :
    let session := serve store (run.map .ok ++ behind)
    let last := serve (storeAfter store run) behind
    session.lines = responses store run ++ last.lines ∧ session.store = last.store ∧
      session.failure = last.failure := by
  induction run generalizing store with
  | nil => exact ⟨rfl, rfl, rfl⟩
  | cons entry run ih =>
    obtain ⟨hlines, hstore, hfailure⟩ := ih (respondLine entry.1 store entry.2).store
    exact ⟨congrArg (_ :: ·) hlines, hstore, hfailure⟩

/-- What is answered up to some place depends on what came up to there. -/
theorem take_lines_serve {ε : Type} (k : Nat) (items : List (Except ε (String × String))) :
    (serve store items).lines.take k = (serve store (items.take k)).lines := by
  induction k generalizing store items with
  | zero => rfl
  | succ k ih =>
    cases items with
    | nil => rfl
    | cons item items =>
      cases item with
      | error failure => rfl
      | ok entry =>
        rw [List.take_succ_cons, serve, serve, List.take_succ_cons, ih]

end

/-- Every line of a run over a directory is framed. -/
theorem framed_responses (d : Directory) (run : List (String × String)) :
    ∀ line ∈ responses d run, Framed line := by
  induction run generalizing d with
  | nil => exact nofun
  | cons entry rest ih =>
    exact List.forall_mem_cons.2 ⟨framed_text (writable_respondLine entry.1 d entry.2), ih _⟩

section

variable {ε : Type}

/-- A run is what is read of some items: all of them, or those in front of the first that could not
be read, which then is the failure. -/
inductive Received (run : List (String × String)) :
    List (Except ε (String × String)) → Option ε → Prop
  | whole : Received run (run.map .ok) none
  | cut (failure : ε) (behind : List (Except ε (String × String))) :
      Received run (run.map .ok ++ .error failure :: behind) (some failure)

/-- One more line in front is read as well. -/
theorem Received.cons {run : List (String × String)} {items : List (Except ε (String × String))}
    {failure : Option ε} (h : Received run items failure) (entry : String × String) :
    Received (entry :: run) (.ok entry :: items) failure := by
  cases h with
  | whole => exact .whole
  | cut failure behind => exact .cut failure behind

/-- Something is read of any items. -/
theorem exists_received (items : List (Except ε (String × String))) :
    ∃ run failure, Received run items failure := by
  induction items with
  | nil => exact ⟨[], none, .whole⟩
  | cons item items ih =>
    cases item with
    | error failure => exact ⟨[], some failure, .cut failure items⟩
    | ok entry =>
      obtain ⟨run, failure, h⟩ := ih
      exact ⟨entry :: run, failure, h.cons entry⟩

/-- Lines that come at their times are answered line for line: each has its one line, which answers
it over the directory that the lines before it left, and which can be cut out of all that is
written. What is left is the directory that the lines leave, and the failure that ended the
reading. -/
structure AnswersLines (d : Directory) (run : List (String × String)) (failure : Option ε)
    (session : Session Directory ε) : Prop where
  lines : session.lines = responses d run
  one_each : session.lines.length = run.length
  framed : ∀ line ∈ session.lines, Framed line
  separated : Text.split '\n' (output session.lines).toList =
    session.lines.map String.toList ++ [[]]
  store : session.store = storeAfter d run
  failure : session.failure = failure

/-- What is read is answered line for line. -/
theorem Received.answersLines {run : List (String × String)}
    {items : List (Except ε (String × String))} {failure : Option ε}
    (h : Received run items failure) (d : Directory) :
    AnswersLines d run failure (serve d items) := by
  have hserve : (serve d items).lines = responses d run ∧
      (serve d items).store = storeAfter d run ∧ (serve d items).failure = failure := by
    cases h with
    | whole =>
      have happend := serve_append d run ([] : List (Except ε (String × String)))
      simpa only [List.append_nil, serve] using happend
    | cut failure behind =>
      have happend := serve_append d run (.error failure :: behind)
      simpa only [List.append_nil, serve] using happend
  obtain ⟨hlines, hstore, hfailure⟩ := hserve
  have hframed : ∀ line ∈ (serve d items).lines, Framed line := by
    rw [hlines]
    exact framed_responses d _
  exact ⟨hlines, by rw [hlines, length_responses], hframed, split_output hframed, hstore, hfailure⟩

/-- Whatever items come, in whatever state the directory is: the lines in front of the first item
that could not be read are answered line for line, each at its time, that item ends the run, and the
first lines that are written are those that as many items alone would give. -/
theorem serve_line_for_line (d : Directory) (items : List (Except ε (String × String))) :
    (∃ run failure, Received run items failure ∧
      AnswersLines d run failure (serve d items)) ∧
      ∀ k : Nat, (serve d items).lines.take k = (serve d (items.take k)).lines := by
  constructor
  · obtain ⟨run, failure, h⟩ := exists_received items
    exact ⟨run, failure, h, h.answersLines d⟩
  · exact fun k => take_lines_serve d k items

end

end CourseQuery.Service
