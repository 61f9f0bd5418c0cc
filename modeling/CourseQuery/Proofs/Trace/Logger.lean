import CourseQuery.Proofs.Trace.Line
import CourseQuery.Trace.Logger
import Mathlib.Data.List.Forall2

/-!
# What a threshold does

Work that logs does the same whatever the logger is: it has one value and logs one trace (`Logs`).
Sequencing work sequences the traces. What two loggers write of one trace differs in no more than
the threshold says: the lines of the one with the higher threshold are those lines of the other
whose severity reaches it, apart from the times that they tell.
-/

set_option autoImplicit false

namespace CourseQuery.Trace

/-! ## Work that logs -/

/-- Whatever the logger is, work has a value and logs a trace. -/
def Logs {α : Type} (work : Logging α) (value : α) (trace : List Entry) : Prop :=
  ∀ l : Logger, (work.run l).run = (value, l.record trace)

/-- A logger records one trace behind the other. -/
theorem Logger.record_append (l : Logger) (trace more : List Entry) :
    l.record (trace ++ more) = (l.record trace).record more := by
  rw [record, List.foldl_append, ← record, ← record]

section

variable {α β : Type}

/-- A result that costs nothing logs nothing. -/
theorem Logs.pure (a : α) : Logs (pure a) a [] := fun _ => rfl

/-- Logging an entry logs it. -/
theorem logs_log (e : Entry) : Logs (log e) () [e] := fun _ => rfl

/-- Work after work logs the one trace and then the other. -/
theorem Logs.bind {work : Logging α} {next : α → Logging β} {a : α} {b : β}
    {trace more : List Entry} (hwork : Logs work a trace) (hnext : Logs (next a) b more) :
    Logs (work >>= next) b (trace ++ more) := by
  intro l
  have hrun : ((work >>= next).run l).run =
      ((next (work.run l).run.1).run (work.run l).run.2).run := rfl
  rw [hrun, hwork l, hnext, Logger.record_append]

/-- Work that goes on without logging logs the same. -/
theorem Logs.andThen {work : Logging α} {next : α → Logging β} {a : α} {b : β} {trace : List Entry}
    (hwork : Logs work a trace) (hnext : Logs (next a) b []) : Logs (work >>= next) b trace := by
  have h := hwork.bind hnext
  rwa [List.append_nil] at h

/-- Logging an entry before work puts it in front of the trace. -/
theorem Logs.cons {next : Unit → Logging β} {e : Entry} {b : β} {trace : List Entry}
    (hnext : Logs (next ()) b trace) : Logs (log e >>= next) b (e :: trace) :=
  (logs_log e).bind hnext

end

/-! ## Scopes -/

/-- Entering a scope logs its beginning. -/
theorem logs_enter (s : Scope) : Logs s.enter ⟨s, false⟩ [s.begun] :=
  Logs.cons (Logs.pure _)

section

variable (s : OpenScope)

/-- Completing a scope logs its completion. -/
theorem logs_complete (more : List (String × String)) :
    Logs (s.complete more) { s with closed := true } [s.scope.completed more] :=
  Logs.cons (Logs.pure _)

/-- Failing in a scope logs its failure. -/
theorem logs_fail (reason : String) :
    Logs (s.fail reason) { s with closed := true } [s.scope.failed reason] :=
  Logs.cons (Logs.pure _)

/-- A scope is left silently exactly when it had an end. -/
theorem logs_leave : Logs s.leave () (if s.closed then [] else [s.scope.abandoned]) := by
  unfold OpenScope.leave
  cases s.closed with
  | true => exact Logs.pure _
  | false => exact logs_log _

end

/-! ## Thresholds -/

/-- Two lines of one entry, which may tell different times. -/
def SameButTime (line line' : String) : Prop :=
  ∃ e elapsed elapsed', line = Entry.line elapsed e ∧ line' = Entry.line elapsed' e

/-- A line whose severity reaches a threshold. -/
def reaches (threshold : Severity) (line : String) : Bool :=
  (severityOf? line).any threshold.enabled

/-- A line reaches a threshold if its entry does. -/
theorem reaches_line (threshold : Severity) (elapsed : Nat) (e : Entry) :
    reaches threshold (e.line elapsed) = threshold.enabled e.severity := by
  rw [reaches, severityOf?_line, Option.any_some]

/-- What one logger wrote is what the other wrote, as far as the threshold of the one lets it
through. -/
def Logger.Filters (l l' : Logger) : Prop :=
  List.Forall₂ SameButTime (l.written.filter (reaches l'.threshold)) l'.written

section

variable {l l' : Logger}

/-- Logging an entry keeps it so. -/
theorem Logger.Filters.log (h : l.Filters l') (hrank : l.threshold.rank ≤ l'.threshold.rank)
    (e : Entry) : (l.log e).Filters (l'.log e) := by
  have hline := reaches_line l'.threshold (l.stopwatch l.timed) e
  by_cases hupper : l'.threshold.enabled e.severity = true
  · have hlower : l.threshold.enabled e.severity = true := by
      simp only [Severity.enabled, decide_eq_true_eq] at hupper ⊢
      exact Nat.le_trans hrank hupper
    simp only [Filters, Logger.log, hupper, hlower, if_true, List.filter_append] at h ⊢
    refine List.rel_append h ?_
    rw [List.filter_cons_of_pos (hline.trans hupper), List.filter_nil]
    exact .cons ⟨e, _, _, rfl, rfl⟩ .nil
  · have hdropped : ((l.log e).written).filter (reaches l'.threshold) =
        l.written.filter (reaches l'.threshold) := by
      simp only [Logger.log]
      split
      · rw [List.filter_append, List.filter_cons_of_neg (by rwa [hline]), List.filter_nil,
          List.append_nil]
      · rfl
    simp only [Filters, Logger.log, hupper, Bool.false_eq_true, if_false] at h ⊢
    exact hdropped ▸ h

/-- So does logging a trace. -/
theorem Logger.Filters.record (h : l.Filters l') (hrank : l.threshold.rank ≤ l'.threshold.rank)
    (trace : List Entry) : (l.record trace).Filters (l'.record trace) := by
  induction trace generalizing l l' with
  | nil => exact h
  | cons e trace ih => exact ih (h.log hrank e) hrank

end

/-- Logging never changes the threshold. -/
theorem Logger.threshold_record (l : Logger) (trace : List Entry) :
    (l.record trace).threshold = l.threshold := by
  induction trace generalizing l with
  | nil => rfl
  | cons e trace ih => exact ih (l.log e)

/-- With a stopwatch that always shows one time, a logger writes the lines of what it logs. -/
theorem Logger.written_record {l : Logger} {elapsed : Nat} (h : ∀ n, l.stopwatch n = elapsed)
    (trace : List Entry) :
    (l.record trace).written = l.written ++ Entry.lines l.threshold elapsed trace := by
  induction trace generalizing l with
  | nil => exact (List.append_nil _).symm
  | cons e trace ih =>
    have hrest : (l.record (e :: trace)).written =
        (l.log e).written ++ Entry.lines l.threshold elapsed trace := ih h
    rw [hrest]
    by_cases henabled : l.threshold.enabled e.severity = true
    · simp [Logger.log, Entry.lines, henabled, h]
    · simp [Logger.log, Entry.lines, henabled]

/-- A logger writes the line of each untimed entry that its threshold lets through. -/
theorem Logger.written_record_of_untimed {l : Logger} {trace : List Entry}
    (huntimed : ∀ e ∈ trace, e.timed = false)
    (henabled : ∀ e ∈ trace, l.threshold.enabled e.severity = true) :
    (l.record trace).written = l.written ++ trace.map (Entry.line 0) := by
  induction trace generalizing l with
  | nil => exact (List.append_nil _).symm
  | cons e trace ih =>
    rw [List.forall_mem_cons] at huntimed henabled
    have hrest : (l.record (e :: trace)).written =
        (l.log e).written ++ trace.map (Entry.line 0) := ih huntimed.2 henabled.2
    have hline := Entry.line_of_untimed huntimed.1 (l.stopwatch l.timed) 0
    rw [hrest, List.map_cons]
    simp [Logger.log, henabled.1, hline]

end CourseQuery.Trace
