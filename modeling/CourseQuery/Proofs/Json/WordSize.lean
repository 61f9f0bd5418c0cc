import CourseQuery.Proofs.Json.ReadsBack

/-!
# Integers beyond 64 bits

An integer that does not fit in 64 bits is written digit by digit like any other, but what is read
from its digits is a number that is no integer, or nothing at all. So where a structure was written
with such an integer, it does not come back.
-/

set_option autoImplicit false

namespace CourseQuery.Json

variable {skim : Bool} {skimValue : String → Bool} {fuel : Nat}

/-- A natural number fits in a word if it is below 2 to the 64. -/
theorem fitsWord_natCast {n : Nat} : fitsWord n = true ↔ n < UInt64.size := by
  have hmin : Int64.minValue.toInt = -9223372036854775808 := by decide
  simp only [fitsWord, hmin, Bool.and_eq_true, decide_eq_true_eq]
  omega

/-- The numeral of an integer begins with a digit or a minus sign. -/
theorem head_toString_int (i : Int) :
    ∃ c tail, (toString i).toList = c :: tail ∧ (c = '-' ∨ c.isDigit = true) := by
  have hdigits := Numeral.digits_toDigits i.natAbs
  rw [Numeral.toList_toString_int]
  cases decide (i < 0) with
  | true => exact ⟨'-', _, rfl, .inl rfl⟩
  | false =>
    refine ⟨_, _, (List.cons_head_tail hdigits.1).symm, .inr ?_⟩
    exact hdigits.2 _ (List.head_mem hdigits.1)

/-- The text of an integer that does not fit is read as a number that is no integer, if at all. -/
theorem value_large {i : Int} (hi : fitsWord i = false) {rest last : List Char}
    (hrest : Stops rest) {v : Json}
    (h : value skim fuel (chars (integer i) ++ rest) = some (v, last)) : ∃ x, v = real x := by
  cases fuel with
  | zero => contradiction
  | succ fuel =>
    obtain ⟨c, tail, hchars, hc⟩ := head_toString_int i
    have htext : chars (integer i) = (toString i).toList := rfl
    rw [htext, hchars, List.cons_append, value_eq_number hc, ← List.cons_append, ← hchars] at h
    exact number_large hi hrest h

/-- Members that are read begin with one whose name and value are read, and go on behind a comma or
end with a brace. -/
theorem members_cases {name : String} {spelled s t rest : List Char} {ms : List (String × Json)}
    (hname : Quotes spelled name) (hs : skipSpace s = spelled ++ ':' :: t)
    (h : members skim skimValue (fuel + 1) s = some (ms, rest)) :
    ∃ v last ms', value (skimValue name) fuel t = some (v, last) ∧ ms = (name, v) :: ms' ∧
      (skipSpace last = '\x7d' :: rest ∨ ∃ behind, skipSpace last = ',' :: behind ∧
        members skim skimValue fuel behind = some (ms', rest)) := by
  obtain ⟨body, hquote, hbody⟩ := hname (':' :: t)
  have hcolon : skipSpace (':' :: t) = ':' :: t := skipSpace_cons (by decide) t
  simp only [members, hs, hquote, hbody, hcolon] at h
  split at h
  · contradiction
  · rename_i v last hvalue
    split at h
    · rename_i behind hlast
      obtain ⟨⟨ms', rest'⟩, hms, heq⟩ := Option.map_eq_some_iff.1 h
      obtain ⟨rfl, rfl⟩ := Prod.mk.inj heq
      exact ⟨v, last, ms', hvalue, rfl, .inr ⟨behind, hlast, hms⟩⟩
    · rename_i tail hlast
      obtain ⟨rfl, rfl⟩ := Prod.mk.inj (Option.some.inj h)
      exact ⟨v, last, [], hvalue, rfl, .inl hlast⟩
    · contradiction

/-- The lines of members in front of a text are the first line and those behind it. -/
theorem linesOfMembers_append (name : String) (v : Json) (ms : List (String × Json))
    (tail : List Char) :
    linesOfMembers ((name, v) :: ms) ++ tail =
      ' ' :: ' ' :: (quoted name ++ ':' :: ' ' :: (chars v ++
        if ms = [] then tail else ',' :: '\n' :: (linesOfMembers ms ++ tail))) := by
  by_cases hms : ms = []
  · rw [if_pos hms, hms, linesOfMembers_singleton]
    simp
  · rw [if_neg hms, linesOfMembers_cons name v hms]
    simp

/-- Where members are read that were written one a line, and the values of the first ones are read
as they are, so is the name of the next one, with some value that is read from its text. -/
theorem mem_of_members_lines {front back ms : List (String × Json)} {name : String} {v : Json}
    (hfront : ∀ m ∈ front, ReadAs m.2 m.2 ∧ skimValue m.1 = false) (hname : skimValue name = false)
    (hfuel : (linesOfMembers (front ++ (name, v) :: back)).length ≤ fuel + 4)
    {rest last : List Char}
    (h : members false skimValue (fuel + 2)
      (linesOfMembers (front ++ (name, v) :: back) ++ '\n' :: '\x7d' :: rest) = some (ms, last)) :
    ∃ w fuel' after tail, Stops after ∧ value false fuel' (chars v ++ after) = some (w, tail) ∧
      (name, w) ∈ ms := by
  induction front generalizing fuel ms with
  | nil =>
    rw [List.nil_append, linesOfMembers_append, members_space (by decide),
      members_space (by decide)] at h
    obtain ⟨w, tail, ms, hvalue, rfl, -⟩ :=
      members_cases (quotes_quoted name) ((quotes_quoted name).skipSpace _) h
    rw [hname, value_space (by decide)] at hvalue
    refine ⟨w, _, _, tail, ?_, hvalue, List.mem_cons_self⟩
    split
    · exact stops_cons (by decide)
    · exact stops_comma _
  | cons m front ih =>
    obtain ⟨first, u⟩ := m
    obtain ⟨hu, hskim⟩ := hfront (first, u) List.mem_cons_self
    dsimp only at hu hskim
    have hne : front ++ (name, v) :: back ≠ [] := List.append_ne_nil_of_right_ne_nil _ (by simp)
    rw [List.cons_append, linesOfMembers_append, if_neg hne, members_space (by decide),
      members_space (by decide)] at h
    rw [List.cons_append, linesOfMembers_cons first u hne] at hfuel
    simp only [List.length_cons, List.length_append] at hfuel
    obtain ⟨w, tail, ms, hvalue, rfl, hnext⟩ :=
      members_cases (quotes_quoted first) ((quotes_quoted first).skipSpace _) h
    -- the value in front is read as itself, so what follows it is the comma and the next line
    rw [hskim, value_space (by decide), hu fuel _ (stops_comma _) (by omega)] at hvalue
    obtain ⟨rfl, rfl⟩ := Prod.mk.inj (Option.some.inj hvalue)
    rw [skipSpace_cons (by decide)] at hnext
    rcases hnext with hbrace | ⟨behind, hcomma, hms⟩
    · exact absurd (List.cons.inj hbrace).1 (by decide)
    · obtain ⟨-, rfl⟩ := List.cons.inj hcomma
      rw [members_space (by decide)] at hms
      obtain ⟨fuel, rfl⟩ : ∃ n, fuel = n + 1 := ⟨fuel - 1, by omega⟩
      obtain ⟨w, fuel', after, tail, hafter, hvalue, hmem⟩ :=
        ih (fun n hn => hfront n (List.mem_cons_of_mem _ hn)) (by omega) hms
      exact ⟨w, fuel', after, tail, hafter, hvalue, List.mem_cons_of_mem _ hmem⟩

/-- Where an integer was written that does not fit, another number is read under its name, if
anything is read at all. -/
theorem real_of_fields? {names : List String} {front back ms : List (String × Json)} {name : String}
    {i : Int} (hi : fitsWord i = false) (hfront : ∀ m ∈ front, m.1 ∈ names ∧ m.2.Readable)
    (hname : name ∈ names)
    (h : fields? names (membersByLine (front ++ (name, integer i) :: back)) = some ms) :
    ∃ x, (name, real x) ∈ ms := by
  have hne : front ++ (name, integer i) :: back ≠ [] :=
    List.append_ne_nil_of_right_ne_nil _ (List.cons_ne_nil _ _)
  obtain ⟨body, hbody⟩ := linesOfMembers_eq hne
  have hs : skipSpace (membersByLine (front ++ (name, integer i) :: back)).toList =
      '\x7b' :: '\n' :: ' ' :: ' ' :: '"' :: (body ++ ['\n', '\x7d']) := by
    rw [membersByLine_toList, hbody]
    exact skipSpace_cons (by decide) _
  have hquote : skipSpace ('\n' :: ' ' :: ' ' :: '"' :: (body ++ ['\n', '\x7d'])) =
      '"' :: (body ++ ['\n', '\x7d']) := rfl
  simp only [fields?, hs, hquote] at h
  split at h
  · rename_i found last hmembers
    have hlines : members false (fun name => !names.contains name) (body.length + 2 + 2)
        (linesOfMembers (front ++ (name, integer i) :: back) ++ ['\n', '\x7d']) =
          some (found, last) := by
      rw [hbody, List.cons_append, List.cons_append, members_space (by decide),
        members_space (by decide), ← hmembers]
      simp
    have hlength : (linesOfMembers (front ++ (name, integer i) :: back)).length ≤
        body.length + 2 + 4 := by
      rw [hbody]
      simp
    obtain ⟨w, fuel, after, tail, hafter, hvalue, hmem⟩ := mem_of_members_lines
      (fun m hm => ⟨(hfront m hm).2.readAs, by simpa using (hfront m hm).1⟩) (by simpa using hname)
      hlength hlines
    obtain ⟨x, rfl⟩ := value_large hi hafter hvalue
    rw [Option.ite_none_right_eq_some, Option.some.injEq] at h
    refine ⟨x, ?_⟩
    rw [← h.2]
    exact List.mem_filter.2 ⟨hmem, by simpa using hname⟩
  · contradiction

end CourseQuery.Json
