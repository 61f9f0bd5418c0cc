import CourseQuery.Proofs.Text.Keys
import CourseQuery.Proofs.Trace.Line

/-!
# One line for one event

What is written of an event is one line, and the line says what was logged and nothing else: read as
a value it has the event, the severity and the fields in the order of their keys, every string as it
was given. So the line is the same for every order of fields with different keys, and what was
logged can be told from it.
-/

set_option autoImplicit false

namespace CourseQuery.Trace

open Text (SortedByKey ofKey ofKey_eq_iff sortedByKey_mergeSort)

/-- A text is one line that is read as an event with its severity and its fields in the order of
their keys. -/
structure Tells (text : String) (severity : Severity) (event : String)
    (fields : List (String × String)) : Prop where
  one_line : ∃ front, text.toList = front ++ ['\n'] ∧ ∀ c ∈ front, Entry.isControl c = false
  decoded : ∃ sorted, SortedByKey fields sorted ∧
    Json.parse? text = some (.object (("event", .string event) ::
      ("severity", .string severity.name) :: sorted.map fun f => (f.1, .string f.2)))

/-- The line of any entry is written, the time it tells being one of the fields. -/
theorem line_eq_written (elapsed : Nat) (e : Entry) :
    e.line elapsed ++ "\n" = written e.severity e.event (e.timedFields elapsed) := rfl

/-- The line that is written of an event is read as its name, its severity and its sorted fields. -/
theorem parse?_written (severity : Severity) (event : String) (fields : List (String × String)) :
    Json.parse? (written severity event fields) =
      some (.object (("event", .string event) :: ("severity", .string severity.name) ::
        (fields.mergeSort fun a b => decide (a.1 ≤ b.1)).map fun f => (f.1, .string f.2))) := by
  have htext : (written severity event fields).toList =
      '\x7b' :: (textOfMembers (Entry.members 0 ⟨severity, event, fields, false⟩) ++
        '\x7d' :: ['\n']) := by
    rw [written, String.toList_append, toList_line, List.cons_append, List.append_assoc]
    rfl
  rw [Json.parse?, parseFront?_of_members (List.cons_ne_nil _ _) htext]
  rfl

/-- The line that is written of an event tells it. -/
theorem tells_written (severity : Severity) (event : String) (fields : List (String × String)) :
    Tells (written severity event fields) severity event fields where
  one_line := ⟨_, String.toList_append, Entry.isControl_line 0 _⟩
  decoded := ⟨_, sortedByKey_mergeSort fields, parse?_written severity event fields⟩

/-- Each severity has a name of its own. -/
theorem Severity.name_inj {severity severity' : Severity} :
    severity.name = severity'.name ↔ severity = severity' := by
  refine ⟨fun h => ?_, congrArg name⟩
  have hof := congrArg ofName? h
  rwa [ofName?_name, ofName?_name, Option.some.injEq] at hof

/-- Two events are written as one line exactly when they have the same name, the same severity and
the same fields of each key. -/
theorem written_eq_iff {severity severity' : Severity} {event event' : String}
    {fields fields' : List (String × String)} :
    written severity event fields = written severity' event' fields' ↔
      severity = severity' ∧ event = event' ∧ ∀ key, ofKey key fields = ofKey key fields' := by
  rw [← (sortedByKey_mergeSort fields).eq_iff (sortedByKey_mergeSort fields')]
  constructor
  · intro h
    have hread := congrArg Json.parse? h
    rw [parse?_written, parse?_written] at hread
    simp only [Option.some.injEq, Json.object.injEq, List.cons.injEq, Prod.mk.injEq, true_and,
      Json.string.injEq] at hread
    obtain ⟨hevent, hseverity, hsorted⟩ := hread
    have hfield : ∀ f g : String × String,
        (f.1, Json.string f.2) = (g.1, Json.string g.2) → f = g := by
      intro f g hfg
      rw [Prod.mk.injEq, Json.string.injEq] at hfg
      exact Prod.ext hfg.1 hfg.2
    exact ⟨Severity.name_inj.1 hseverity, hevent, (List.map_inj_right hfield).1 hsorted⟩
  · rintro ⟨rfl, rfl, hsorted⟩
    rw [written, written, Entry.line, Entry.line, Entry.members, Entry.members]
    simp only [Entry.timedFields, Bool.false_eq_true, if_false, hsorted]

/-- What is written of an event is one line that tells the event, and tells no other event: two
lines are the same exactly when what they tell is the same up to the order of different keys. Where
the keys of each are different, that is to say that the fields are the same in any order. -/
theorem written_canonical (severity severity' : Severity) (event event' : String)
    (fields fields' : List (String × String)) :
    Tells (written severity event fields) severity event fields ∧
      (written severity event fields = written severity' event' fields' ↔
        severity = severity' ∧ event = event' ∧
          ∀ key, ofKey key fields = ofKey key fields') ∧
      ((fields.map Prod.fst).Nodup → (fields'.map Prod.fst).Nodup →
        (written severity event fields = written severity' event' fields' ↔
          severity = severity' ∧ event = event' ∧ ∀ f, f ∈ fields ↔ f ∈ fields')) ∧
      ((fields.map Prod.fst).Nodup → fields.Perm fields' →
        written severity event fields = written severity event fields') := by
  refine ⟨tells_written severity event fields, written_eq_iff, fun h h' => ?_, fun h hperm => ?_⟩
  · rw [written_eq_iff, ofKey_eq_iff h h']
  · have h' : (fields'.map Prod.fst).Nodup := (hperm.map Prod.fst).nodup_iff.1 h
    exact written_eq_iff.2 ⟨rfl, rfl, (ofKey_eq_iff h h').2 fun _ => hperm.mem_iff⟩

/-- Three fields in two orders: the two lines are one, and with another value it is another line. -/
theorem written_canonical_three :
    written .info "TEST" [("zebra", "1"), ("apple", "2"), ("mango", "3")] =
        written .info "TEST" [("apple", "2"), ("mango", "3"), ("zebra", "1")] ∧
      written .info "TEST" [("zebra", "1"), ("apple", "2"), ("mango", "3")] ≠
        written .info "TEST" [("zebra", "1"), ("apple", "2"), ("mango", "4")] := by
  constructor
  · exact (written_canonical .info .info "TEST" "TEST" [("zebra", "1"), ("apple", "2"),
      ("mango", "3")] [("apple", "2"), ("mango", "3"), ("zebra", "1")]).2.2.2 (by decide)
        (by decide)
  · intro h
    have hsame := ((written_canonical .info .info "TEST" "TEST" [("zebra", "1"), ("apple", "2"),
      ("mango", "3")] [("zebra", "1"), ("apple", "2"), ("mango", "4")]).2.2.1 (by decide)
        (by decide)).1 h
    exact absurd (hsame.2.2 ("mango", "3")) (by decide)

end CourseQuery.Trace
