import CourseQuery.Proofs.Text.Keys
import CourseQuery.Proofs.Trace.Logger

/-!
# What a line reports

A line reports its event, and a field whose key no other field has. So which entries were logged can
be told from the lines, up to the time that a piece of work took.
-/

set_option autoImplicit false

namespace CourseQuery.Trace

/-- A line reports an event with some fields: it is read as an object that begins with the event,
and each of the fields is the one member of its key behind it. -/
def Reports (line event : String) (fields : List (String × String)) : Prop :=
  ∃ members, Json.parse? line = some (.object (("event", .string event) :: members)) ∧
    ∀ f ∈ fields, Json.valuesOf f.1 members = [.string f.2]

/-- A line is that of an entry, which may have taken any time. -/
def LineOf (line : String) (e : Entry) : Prop :=
  ∃ elapsed, line = e.line elapsed

section

variable {line event : String} {fields : List (String × String)} {e : Entry}

/-- A line reports one event. -/
theorem Reports.event_eq {event' : String} {fields' : List (String × String)}
    (h : Reports line event fields) (h' : Reports line event' fields') : event = event' := by
  obtain ⟨members, hread, -⟩ := h
  obtain ⟨members', hread', -⟩ := h'
  have hsame := Option.some.inj (hread.symm.trans hread')
  simp only [Json.object.injEq, List.cons.injEq, Prod.mk.injEq, Json.string.injEq] at hsame
  exact hsame.1.2

/-- A line that reports an event with fields reports the event. -/
theorem Reports.plain (h : Reports line event fields) : Reports line event [] := by
  obtain ⟨members, hread, -⟩ := h
  exact ⟨members, hread, nofun⟩

/-- The values under a key are those of the fields of the key. -/
theorem valuesOf_strings (key : String) (fields : List (String × String)) :
    Json.valuesOf key (fields.map fun (name, value) => (name, .string value)) =
      (Text.ofKey key fields).map fun f => .string f.2 := by
  rw [Json.valuesOf, List.filter_map, List.map_map]
  rfl

/-- The line of an entry reports its event, and the fields whose keys no other fields have. -/
theorem LineOf.reports (h : LineOf line e)
    (hfields : ∀ elapsed, ∀ f ∈ fields,
      Text.ofKey f.1 (("severity", e.severity.name) :: e.timedFields elapsed) = [f]) :
    Reports line e.event fields := by
  obtain ⟨elapsed, rfl⟩ := h
  refine ⟨_, parse?_line elapsed e, fun f hf => ?_⟩
  have hsorted : Text.ofKey f.1 (("severity", e.severity.name) ::
      (e.timedFields elapsed).mergeSort fun a b => decide (a.1 ≤ b.1)) = [f] := by
    rw [Text.ofKey_cons, Text.ofKey_mergeSort, ← Text.ofKey_cons, hfields elapsed f hf]
  have hvalues := valuesOf_strings f.1 (("severity", e.severity.name) ::
    (e.timedFields elapsed).mergeSort fun a b => decide (a.1 ≤ b.1))
  rw [hsorted] at hvalues
  exact hvalues

/-- The line of an entry reports its event. -/
theorem LineOf.reports_event (h : LineOf line e) : Reports line e.event [] :=
  h.reports nofun

/-- Lines of entries of one event report it. -/
theorem reports_of_forall₂ {lines : List String} {trace : List Entry}
    (h : List.Forall₂ LineOf lines trace) (hevent : ∀ e ∈ trace, e.event = event) :
    ∀ line ∈ lines, Reports line event [] := by
  induction h with
  | nil => exact nofun
  | cons hline _ ih =>
    rw [List.forall_mem_cons] at hevent
    exact List.forall_mem_cons.2 ⟨hevent.1 ▸ hline.reports_event, ih hevent.2⟩

/-- Lines of two traces are those of the one and then those of the other. -/
theorem exists_append_of_forall₂ {lines : List String} {trace more : List Entry}
    (h : List.Forall₂ LineOf lines (trace ++ more)) :
    ∃ front back, lines = front ++ back ∧ List.Forall₂ LineOf front trace ∧
      List.Forall₂ LineOf back more := by
  induction trace generalizing lines with
  | nil => exact ⟨[], lines, rfl, .nil, h⟩
  | cons e trace ih =>
    obtain _ | ⟨hline, hlines⟩ := h
    obtain ⟨front, back, rfl, hfront, hback⟩ := ih hlines
    exact ⟨_ :: front, back, rfl, .cons hline hfront, hback⟩

/-- A logger that lets every entry of a trace through writes a line for each. -/
theorem Logger.exists_written_record {l : Logger} {trace : List Entry}
    (henabled : ∀ e ∈ trace, l.threshold.enabled e.severity = true) :
    ∃ lines, (l.record trace).written = l.written ++ lines ∧ List.Forall₂ LineOf lines trace := by
  induction trace generalizing l with
  | nil => exact ⟨[], (List.append_nil _).symm, .nil⟩
  | cons e trace ih =>
    rw [List.forall_mem_cons] at henabled
    obtain ⟨lines, hwritten, hlines⟩ := ih (l := l.log e) henabled.2
    have hlog : (l.log e).written = l.written ++ [e.line (l.stopwatch l.timed)] :=
      if_pos henabled.1
    refine ⟨e.line (l.stopwatch l.timed) :: lines, ?_, .cons ⟨_, rfl⟩ hlines⟩
    calc (l.record (e :: trace)).written = ((l.log e).record trace).written := rfl
      _ = l.written ++ [e.line (l.stopwatch l.timed)] ++ lines := by rw [hwritten, hlog]
      _ = l.written ++ e.line (l.stopwatch l.timed) :: lines := by
        rw [List.append_assoc, List.singleton_append]

/-- The lowest threshold lets everything through. -/
theorem Severity.enabled_trace (severity : Severity) : Severity.trace.enabled severity = true :=
  decide_eq_true (Nat.zero_le _)

end

end CourseQuery.Trace
