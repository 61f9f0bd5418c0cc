import CourseQuery.Proofs.Json.Reals

/-!
# Documents read back

A JSON value is `Writable` when its integers have 64 bits and its other numbers are finite. Its text
is then read, wherever it stands in a document, as the value with every number reread. The value is
`Readable` when rereading its numbers does not change them; of most binary64 numbers this is so, but
not of all, since reading rounds in steps. Then the text is read back as the value itself, and so is
a structure that is written with one member a line.

The fuel of the reader bounds the number of nested calls. Every call takes at least one character,
so the length of a text is enough for it, with one more for the list of the elements or members.
-/

set_option autoImplicit false

namespace CourseQuery

/-- The number is read back from the text that a document has for it. -/
def Binary64.ReadsBack (x : Binary64) : Prop :=
  Json.parseFront? (Json.real x).text = some (.real x, [])

/-- The check of a number that is to be read back. -/
def Binary64.readsBack (x : Binary64) : Bool :=
  match Json.parseFront? (Json.real x).text with
  | some (.real y, []) => decide (y = x)
  | _ => false

/-- Whether a number reads back is tested as it is meant. -/
theorem Binary64.readsBack_iff {x : Binary64} : x.readsBack = true ↔ x.ReadsBack := by
  unfold readsBack ReadsBack
  constructor
  · intro h
    split at h
    · rename_i y hread
      rw [hread, of_decide_eq_true h]
    · contradiction
  · intro h
    rw [h]
    exact decide_eq_true rfl

instance (x : Binary64) : Decidable x.ReadsBack :=
  decidable_of_iff _ Binary64.readsBack_iff

namespace Json

/-- Every number of a value is an integer of 64 bits or is read back from its text. -/
inductive Readable : Json → Prop
  | null : Readable null
  | bool (b : Bool) : Readable (bool b)
  | integer {i : Int} (h : fitsWord i = true) : Readable (integer i)
  | real {x : Binary64} (h : x.ReadsBack) : Readable (real x)
  | string (s : String) : Readable (string s)
  | array {vs : List Json} (h : ∀ v ∈ vs, Readable v) : Readable (array vs)
  | object {ms : List (String × Json)} (h : ∀ m ∈ ms, Readable m.2) : Readable (object ms)

/-- Every number of a value is an integer of 64 bits or finite. -/
inductive Writable : Json → Prop
  | null : Writable null
  | bool (b : Bool) : Writable (bool b)
  | integer {i : Int} (h : fitsWord i = true) : Writable (integer i)
  | real {x : Binary64} (h : x.isFinite = true) : Writable (real x)
  | string (s : String) : Writable (string s)
  | array {vs : List Json} (h : ∀ v ∈ vs, Writable v) : Writable (array vs)
  | object {ms : List (String × Json)} (h : ∀ m ∈ ms, Writable m.2) : Writable (object ms)

mutual

/-- The value that is read from the text of a value. -/
def reread : Json → Json
  | real x => real x.reread
  | array vs => array (rereadList vs)
  | object ms => object (rereadMembers ms)
  | v => v

/-- The values that are read from the texts of values. -/
def rereadList : List Json → List Json
  | [] => []
  | v :: vs => reread v :: rereadList vs

/-- The members that are read from the texts of members. -/
def rereadMembers : List (String × Json) → List (String × Json)
  | [] => []
  | (name, v) :: ms => (name, reread v) :: rereadMembers ms

end

/-- Elements are read back one by one. -/
theorem rereadList_eq_map (vs : List Json) : rereadList vs = vs.map reread := by
  induction vs with
  | nil => rfl
  | cons v vs ih => rw [rereadList, ih, List.map_cons]

/-- Members are read back one by one under their names. -/
theorem rereadMembers_eq_map (ms : List (String × Json)) :
    rereadMembers ms = ms.map fun m => (m.1, m.2.reread) := by
  induction ms with
  | nil => rfl
  | cons m ms ih =>
    obtain ⟨name, v⟩ := m
    rw [rereadMembers, ih, List.map_cons]

/-! ## White space -/

/-- In front of anything but a space there is nothing to skip. -/
theorem skipSpace_of_head? {s : List Char} (h : ∀ c ∈ s.head?, isSpace c = false) :
    skipSpace s = s := by
  cases s with
  | nil => rfl
  | cons c s =>
    have hc := h c rfl
    simp [skipSpace, hc]

/-- A character that is no space is not skipped. -/
theorem skipSpace_cons {c : Char} (h : isSpace c = false) (s : List Char) :
    skipSpace (c :: s) = c :: s :=
  skipSpace_of_head? (by simpa using h)

/-- A space in front is skipped. -/
theorem skipSpace_space {c : Char} (h : isSpace c = true) (s : List Char) :
    skipSpace (c :: s) = skipSpace s := by
  simp [skipSpace, h]

/-- Behind skipped spaces comes no space. -/
theorem head?_skipSpace {s : List Char} : ∀ c ∈ (skipSpace s).head?, isSpace c = false := by
  intro c hc
  have := List.head?_dropWhile_not isSpace s
  rw [skipSpace] at hc
  rw [Option.mem_def.1 hc] at this
  simpa using this

/-- A string in quotes has no white space in front of it. -/
theorem Quotes.skipSpace {spelled : List Char} {s : String} (h : Quotes spelled s)
    (rest : List Char) : skipSpace (spelled ++ rest) = spelled ++ rest := by
  obtain ⟨body, hquote, -⟩ := h rest
  rw [hquote]
  exact skipSpace_cons (by decide) body

/-- Skipping spaces twice is skipping them once. -/
theorem skipSpace_skipSpace (s : List Char) : skipSpace (skipSpace s) = skipSpace s :=
  skipSpace_of_head? head?_skipSpace

/-! ## Single steps of the reader -/

variable {skim : Bool} {skimValue : String → Bool} {fuel : Nat}

/-- Spaces in front of a value do not count. -/
theorem value_skipSpace (s : List Char) : value skim fuel (skipSpace s) = value skim fuel s := by
  cases fuel with
  | zero => rfl
  | succ fuel => rw [value, value, skipSpace_skipSpace]

/-- Spaces in front of elements do not count. -/
theorem elements_skipSpace (s : List Char) :
    elements skim fuel (skipSpace s) = elements skim fuel s := by
  cases fuel with
  | zero => rfl
  | succ fuel => rw [elements, elements, value_skipSpace]

/-- Spaces in front of members do not count. -/
theorem members_skipSpace (s : List Char) :
    members skim skimValue fuel (skipSpace s) = members skim skimValue fuel s := by
  cases fuel with
  | zero => rfl
  | succ fuel => rw [members, members, skipSpace_skipSpace]

/-- A number begins with a digit or a minus sign. -/
theorem number_eq_none {c : Char} (hminus : c ≠ '-') (hdigit : c.isDigit = false) (s : List Char) :
    number skim (c :: s) = none := by
  refine Option.eq_none_iff_forall_ne_some.2 fun ⟨v, rest⟩ h => ?_
  obtain ⟨negative, whole, fraction, exponent, hparts, -⟩ := number_eq_some_iff.1 h
  obtain ⟨body, tail, tail', htake, hdigits, -⟩ := hparts.parts
  have hbody : Numeral.takeMinus (c :: s) = (false, c :: s) :=
    Numeral.takeMinus_of_ne (by simpa using hminus)
  obtain ⟨-, rfl⟩ := Prod.mk.inj (hbody.symm.trans htake)
  apply hparts.whole_ne_nil
  rw [← (Prod.mk.inj hdigits).1]
  simp [hdigit]

/-- What is read as a number begins with a digit or a minus sign. -/
theorem head_of_number {s rest : List Char} {v : Json} (h : number skim s = some (v, rest)) :
    ∃ c tail, s = c :: tail ∧ (c = '-' ∨ c.isDigit = true) := by
  cases s with
  | nil => simp [number, Numeral.takeMinus, takeDigits] at h
  | cons c tail =>
    refine ⟨c, tail, rfl, ?_⟩
    by_contra hc
    rw [not_or, Bool.not_eq_true] at hc
    rw [number_eq_none hc.1 hc.2] at h
    contradiction

/-- What begins as a number is read as one. -/
theorem value_eq_number {c : Char} (hc : c = '-' ∨ c.isDigit = true) (s : List Char) :
    value skim (fuel + 1) (c :: s) = number skim (c :: s) := by
  have hne : ∀ d : Char, d ≠ '-' → d.isDigit = false → d ≠ c := by
    rintro d hminus hdigit rfl
    rcases hc with hc | hc
    · exact hminus hc
    · rw [hdigit] at hc
      contradiction
  have hspace : isSpace c = false := by
    simp only [isSpace, Bool.or_eq_false_iff, beq_eq_false_iff_ne]
    exact ⟨⟨⟨(hne _ (by decide) (by decide)).symm, (hne _ (by decide) (by decide)).symm⟩,
      (hne _ (by decide) (by decide)).symm⟩, (hne _ (by decide) (by decide)).symm⟩
  rw [value, skipSpace_cons hspace]
  split
  case h_7 => rfl
  all_goals
    rename_i heq
    exact absurd (List.cons.inj heq).1.symm (hne _ (by decide) (by decide))

/-- What is read as a number is the value at the front. -/
theorem value_of_number {s rest : List Char} {v : Json} (h : number skim s = some (v, rest)) :
    value skim (fuel + 1) s = some (v, rest) := by
  obtain ⟨c, tail, rfl, hc⟩ := head_of_number h
  rw [value_eq_number hc, h]

/-- A string in quotes is read as the string. -/
theorem Quotes.value {spelled : List Char} {s : String} (h : Quotes spelled s) (rest : List Char) :
    value skim (fuel + 1) (spelled ++ rest) = some (string s, rest) := by
  rw [Json.value, h.skipSpace]
  obtain ⟨body, hquote, hbody⟩ := h rest
  simp only [hquote, hbody, Option.map_some]

/-- A bracket opens an array. -/
theorem value_bracket (s : List Char) :
    value skim (fuel + 1) ('[' :: s) =
      match skipSpace s with
      | ']' :: rest => some (array [], rest)
      | rest => (elements skim fuel rest).map fun (vs, rest) => (array vs, rest) := rfl

/-- A brace opens an object. -/
theorem value_brace (s : List Char) :
    value skim (fuel + 1) ('\x7b' :: s) =
      match skipSpace s with
      | '\x7d' :: rest => some (object [], rest)
      | rest => (members skim (fun _ => skim) fuel rest).map fun (ms, rest) => (object ms, rest) :=
  rfl

/-- What is read as elements behind an opening bracket is an array. -/
theorem value_of_elements {s rest : List Char} {vs : List Json}
    (h : elements skim fuel s = some (vs, rest)) :
    value skim (fuel + 1) ('[' :: s) = some (array vs, rest) := by
  rw [value_bracket]
  split
  · rename_i tail heq
    cases fuel with
    | zero => contradiction
    | succ fuel =>
      have hnone : value skim fuel s = none := by
        cases fuel with
        | zero => rfl
        | succ fuel =>
          rw [value, heq]
          exact number_eq_none (by decide) (by decide) tail
      rw [elements, hnone] at h
      contradiction
  · rw [elements_skipSpace, h]
    rfl

/-- What is read as members behind an opening brace is an object. -/
theorem value_of_members {s rest : List Char} {ms : List (String × Json)}
    (h : members skim (fun _ => skim) fuel s = some (ms, rest)) :
    value skim (fuel + 1) ('\x7b' :: s) = some (object ms, rest) := by
  rw [value_brace]
  split
  · rename_i tail heq
    cases fuel with
    | zero => contradiction
    | succ fuel =>
      rw [members, heq] at h
      contradiction
  · rw [members_skipSpace, h]
    rfl

section Element

variable {v : Json} {s rest behind : List Char} (hv : value skim fuel s = some (v, rest))

include hv

/-- An element in front of a bracket is the last. -/
theorem elements_last (hend : skipSpace rest = ']' :: behind) :
    elements skim (fuel + 1) s = some ([v], behind) := by
  simp only [elements, hv, hend]

/-- An element in front of a comma is followed by others. -/
theorem elements_next {vs : List Json} {last : List Char} (hnext : skipSpace rest = ',' :: behind)
    (hvs : elements skim fuel behind = some (vs, last)) :
    elements skim (fuel + 1) s = some (v :: vs, last) := by
  simp only [elements, hv, hnext, hvs, Option.map_some]

end Element

section Member

variable {name : String} {v : Json} {spelled s t rest behind : List Char}
  (hname : Quotes spelled name) (hs : skipSpace s = spelled ++ ':' :: t)
  (hv : value (skimValue name) fuel t = some (v, rest))

include hname hs hv

/-- A member in front of a brace is the last. -/
theorem members_last (hend : skipSpace rest = '\x7d' :: behind) :
    members skim skimValue (fuel + 1) s = some ([(name, v)], behind) := by
  obtain ⟨body, hquote, hbody⟩ := hname (':' :: t)
  have hcolon : skipSpace (':' :: t) = ':' :: t := skipSpace_cons (by decide) t
  simp only [members, hs, hquote, hbody, hcolon, hv, hend]

/-- A member in front of a comma is followed by others. -/
theorem members_next {ms : List (String × Json)} {last : List Char}
    (hnext : skipSpace rest = ',' :: behind)
    (hms : members skim skimValue fuel behind = some (ms, last)) :
    members skim skimValue (fuel + 1) s = some ((name, v) :: ms, last) := by
  obtain ⟨body, hquote, hbody⟩ := hname (':' :: t)
  have hcolon : skipSpace (':' :: t) = ':' :: t := skipSpace_cons (by decide) t
  simp only [members, hs, hquote, hbody, hcolon, hv, hnext, hms, Option.map_some]

end Member

/-! ## Values -/

/-- A finite number is reread in front of what cannot go on with it. -/
theorem value_real {x : Binary64} (h : x.isFinite = true) (fuel : Nat) {rest : List Char}
    (hrest : Stops rest) :
    value false (fuel + 1) (chars (real x) ++ rest) = some (real x.reread, rest) := by
  obtain ⟨hnumber, -⟩ := Binary64.number_chars_real h
  exact value_of_number (number_stops hnumber hrest)

/-- What is not finite has the text of the null. -/
theorem chars_real_of_not_finite {x : Binary64} (h : x.isFinite = false) :
    chars (real x) = chars null := by
  cases x with
  | nan => rfl
  | signed negative m =>
    have hinfinite : m = .infinity := by
      obtain ⟨c, hc⟩ := m
      have hlarge : ¬ c < infinityCode := of_decide_eq_false h
      obtain rfl : c = infinityCode := by omega
      rfl
    rw [hinfinite]
    rfl

/-- A number is read back from its text exactly when it is finite and reread as itself. -/
theorem readsBack_iff_reread {x : Binary64} :
    x.ReadsBack ↔ x.isFinite = true ∧ x.reread = x := by
  unfold Binary64.ReadsBack parseFront? text
  rw [String.toList_ofList]
  cases hfinite : x.isFinite with
  | false =>
    rw [chars_real_of_not_finite hfinite]
    refine ⟨fun h => ?_, fun h => absurd h.1 Bool.false_ne_true⟩
    have hnull : value false ((chars null).length + 1) (chars null) = some (null, []) := rfl
    rw [hnull] at h
    exact absurd (Prod.mk.inj (Option.some.inj h)).1 nofun
  | true =>
    have hread := value_real hfinite (chars (real x)).length stops_nil
    rw [List.append_nil] at hread
    rw [hread]
    simp

/-- A comma ends a number. -/
theorem stops_comma (rest : List Char) : Stops (',' :: rest) := stops_cons (by decide)

/-- A bracket ends a number. -/
theorem stops_bracket (rest : List Char) : Stops (']' :: rest) := stops_cons (by decide)

/-- A brace ends a number. -/
theorem stops_brace (rest : List Char) : Stops ('\x7d' :: rest) := stops_cons (by decide)

/-- Wherever it stands in a document, the text of a value is read as some value. -/
def ReadAs (v w : Json) : Prop :=
  ∀ fuel rest, Stops rest → (chars v).length ≤ fuel →
    value false (fuel + 1) (chars v ++ rest) = some (w, rest)

/-- The texts of values between commas are read up to the closing bracket. -/
theorem elements_charsOfList {vs : List Json} (hne : vs ≠ []) (h : ∀ v ∈ vs, ReadAs v v.reread)
    {fuel : Nat} (hfuel : (charsOfList vs).length ≤ fuel) (rest : List Char) :
    elements false (fuel + 2) (charsOfList vs ++ ']' :: rest) = some (rereadList vs, rest) := by
  induction vs generalizing fuel with
  | nil => contradiction
  | cons v vs ih =>
    have hv := h v List.mem_cons_self
    cases vs with
    | nil =>
      rw [charsOfList] at hfuel ⊢
      exact elements_last (hv fuel _ (stops_bracket rest) hfuel) (skipSpace_cons (by decide) rest)
    | cons w ws =>
      have hcons : charsOfList (v :: w :: ws) = chars v ++ ',' :: charsOfList (w :: ws) := rfl
      rw [hcons, List.length_append, List.length_cons] at hfuel
      obtain ⟨fuel, rfl⟩ : ∃ n, fuel = n + 1 := ⟨fuel - 1, by omega⟩
      have hlength : (charsOfList (w :: ws)).length ≤ fuel := by omega
      have hrest := ih (List.cons_ne_nil w ws) (fun u hu => h u (List.mem_cons_of_mem v hu)) hlength
      rw [hcons, List.append_assoc, List.cons_append]
      exact elements_next (hv (fuel + 1) _ (stops_comma _) (by omega))
        (skipSpace_cons (by decide) _) hrest

/-- The texts of members between commas are read up to the closing brace. -/
theorem members_charsOfMembers {skimValue : String → Bool} {ms : List (String × Json)}
    (hne : ms ≠ []) (h : ∀ m ∈ ms, ReadAs m.2 m.2.reread ∧ skimValue m.1 = false)
    {fuel : Nat} (hfuel : (charsOfMembers ms).length ≤ fuel) (rest : List Char) :
    members false skimValue (fuel + 2) (charsOfMembers ms ++ '\x7d' :: rest) =
      some (rereadMembers ms, rest) := by
  induction ms generalizing fuel with
  | nil => contradiction
  | cons m ms ih =>
    obtain ⟨name, v⟩ := m
    obtain ⟨hv, hskim⟩ := h (name, v) List.mem_cons_self
    dsimp only at hv hskim
    cases ms with
    | nil =>
      have hlast : charsOfMembers [(name, v)] = quoted name ++ ':' :: chars v := rfl
      rw [hlast, List.length_append, List.length_cons] at hfuel
      rw [hlast, List.append_assoc, List.cons_append]
      refine members_last (quotes_quoted name) ((quotes_quoted name).skipSpace _) ?_
        (skipSpace_cons (by decide) rest)
      rw [hskim]
      exact hv fuel _ (stops_brace rest) (by omega)
    | cons m ms =>
      have hcons : charsOfMembers ((name, v) :: m :: ms) =
          quoted name ++ ':' :: chars v ++ ',' :: charsOfMembers (m :: ms) := rfl
      rw [hcons, List.length_append, List.length_append, List.length_cons,
        List.length_cons] at hfuel
      obtain ⟨fuel, rfl⟩ : ∃ n, fuel = n + 1 := ⟨fuel - 1, by omega⟩
      rw [hcons, List.append_assoc, List.append_assoc, List.cons_append, List.cons_append]
      refine members_next (quotes_quoted name) ((quotes_quoted name).skipSpace _) ?_
        (skipSpace_cons (by decide) _)
        (ih (List.cons_ne_nil m ms) (fun n hn => h n (List.mem_cons_of_mem _ hn)) (by omega))
      rw [hskim]
      exact hv (fuel + 1) _ (stops_comma _) (by omega)

/-- The text of a writable value is read as the value reread. -/
theorem Writable.readAs {v : Json} (h : v.Writable) : ReadAs v v.reread := by
  induction h with
  | null => exact fun fuel rest _ _ => rfl
  | bool b =>
    cases b with
    | true => exact fun fuel rest _ _ => rfl
    | false => exact fun fuel rest _ _ => rfl
  | integer hi => exact fun fuel rest hrest _ => value_of_number (number_integer hi false hrest)
  | real hx => exact fun fuel rest hrest _ => value_real hx fuel hrest
  | string s =>
    exact fun fuel rest _ _ => (quotes_quoted s).value rest
  | @array vs hvs ih =>
    intro fuel rest hrest hfuel
    by_cases hnil : vs = []
    · subst hnil
      rfl
    · have hchars : chars (Json.array vs) ++ rest = '[' :: (charsOfList vs ++ ']' :: rest) := by
        simp [chars]
      rw [chars, List.length_append, List.length_cons, List.length_singleton] at hfuel
      obtain ⟨fuel, rfl⟩ : ∃ n, fuel = n + 2 := ⟨fuel - 2, by omega⟩
      rw [hchars]
      exact value_of_elements (elements_charsOfList hnil ih (by omega) rest)
  | @object ms hms ih =>
    intro fuel rest hrest hfuel
    by_cases hnil : ms = []
    · subst hnil
      rfl
    · have hchars : chars (Json.object ms) ++ rest =
          '\x7b' :: (charsOfMembers ms ++ '\x7d' :: rest) := by
        simp [chars]
      rw [chars, List.length_append, List.length_cons, List.length_singleton] at hfuel
      obtain ⟨fuel, rfl⟩ : ∃ n, fuel = n + 2 := ⟨fuel - 2, by omega⟩
      rw [hchars]
      exact value_of_members
        (members_charsOfMembers hnil (fun m hm => ⟨ih m hm, rfl⟩) (by omega) rest)

/-- What can be read back can be written. -/
theorem Readable.writable {v : Json} (h : v.Readable) : v.Writable := by
  induction h with
  | null => exact .null
  | bool b => exact .bool b
  | integer hi => exact .integer hi
  | real hx => exact .real (readsBack_iff_reread.1 hx).1
  | string s => exact .string s
  | array _ ih => exact .array ih
  | object _ ih => exact .object ih

/-- What can be read back is read back as itself. -/
theorem Readable.reread_eq {v : Json} (h : v.Readable) : v.reread = v := by
  induction h with
  | null | bool | integer | string => rfl
  | real hx => rw [reread, (readsBack_iff_reread.1 hx).2]
  | @array vs _ ih =>
    have hvs : vs.map reread = vs.map id := List.map_congr_left ih
    rw [reread, rereadList_eq_map, hvs, List.map_id]
  | @object ms _ ih =>
    have hms : (ms.map fun m => (m.1, m.2.reread)) = ms.map id :=
      List.map_congr_left fun m hm => by rw [ih m hm, id]
    rw [reread, rereadMembers_eq_map, hms, List.map_id]

/-- The text of a readable value is read as the value. -/
theorem Readable.readAs {v : Json} (h : v.Readable) : ReadAs v v := by
  have hread := h.writable.readAs
  rwa [h.reread_eq] at hread

/-- At the front of its text a writable value is read, reread, and nothing is left. -/
theorem parseFront?_text_reread {v : Json} (h : v.Writable) :
    parseFront? v.text = some (v.reread, []) := by
  have hread := h.readAs (chars v).length [] stops_nil (Nat.le_refl _)
  rw [List.append_nil] at hread
  rw [parseFront?, text, String.toList_ofList, hread]

/-- The text of a writable value is read as the value reread. -/
theorem parse?_text_reread {v : Json} (h : v.Writable) : parse? v.text = some v.reread := by
  rw [parse?, parseFront?_text_reread h]
  rfl

/-- The text of a readable value is read back. -/
theorem parse?_text {v : Json} (h : v.Readable) : parse? v.text = some v := by
  rw [parse?_text_reread h.writable, h.reread_eq]

/-! ## Structures with one member a line -/

/-- The lines of members, without the ends of the first line and the last. -/
def linesOfMembers (ms : List (String × Json)) : List Char :=
  List.intercalate ",\n".toList
    (ms.map fun (name, v) => "  ".toList ++ quoted name ++ ": ".toList ++ chars v)

/-- An object by lines is its members between two braces. -/
theorem membersByLine_toList (ms : List (String × Json)) :
    (membersByLine ms).toList = '\x7b' :: '\n' :: (linesOfMembers ms ++ ['\n', '\x7d']) := by
  simp [membersByLine, linesOfMembers]

/-- A single member takes a line of its own without a comma. -/
theorem linesOfMembers_singleton (name : String) (v : Json) :
    linesOfMembers [(name, v)] = ' ' :: ' ' :: (quoted name ++ ':' :: ' ' :: chars v) := by
  simp [linesOfMembers]

/-- A member in front of others takes a line of its own with a comma. -/
theorem linesOfMembers_cons (name : String) (v : Json) {ms : List (String × Json)} (hne : ms ≠ []) :
    linesOfMembers ((name, v) :: ms) =
      ' ' :: ' ' ::
        (quoted name ++ ':' :: ' ' :: (chars v ++ ',' :: '\n' :: linesOfMembers ms)) := by
  have hlines : (ms.map fun (name, v) =>
      "  ".toList ++ quoted name ++ ": ".toList ++ chars v) ≠ [] :=
    fun h => hne (List.map_eq_nil_iff.1 h)
  rw [linesOfMembers, List.map_cons, List.intercalate_cons_of_ne_nil hlines]
  simp [linesOfMembers]

/-- The lines of members begin with two spaces and a quote. -/
theorem linesOfMembers_eq {ms : List (String × Json)} (hne : ms ≠ []) :
    ∃ body, linesOfMembers ms = ' ' :: ' ' :: '"' :: body := by
  cases ms with
  | nil => contradiction
  | cons m ms =>
    obtain ⟨name, v⟩ := m
    by_cases hnil : ms = []
    · rw [hnil, linesOfMembers_singleton, quoted_append]
      exact ⟨_, rfl⟩
    · rw [linesOfMembers_cons name v hnil, quoted_append]
      exact ⟨_, rfl⟩

/-- A space in front of a value does not count. -/
theorem value_space {c : Char} (h : isSpace c = true) (s : List Char) :
    value skim fuel (c :: s) = value skim fuel s := by
  rw [← value_skipSpace, skipSpace_space h, value_skipSpace]

/-- A space in front of members does not count. -/
theorem members_space {c : Char} (h : isSpace c = true) (s : List Char) :
    members skim skimValue fuel (c :: s) = members skim skimValue fuel s := by
  rw [← members_skipSpace, skipSpace_space h, members_skipSpace]

/-- Members that are written line by line are read back as themselves. -/
theorem members_linesOfMembers {ms : List (String × Json)} (hne : ms ≠ [])
    (h : ∀ m ∈ ms, ReadAs m.2 m.2 ∧ skimValue m.1 = false) {fuel : Nat}
    (hfuel : (linesOfMembers ms).length ≤ fuel + 4) (rest : List Char) :
    members false skimValue (fuel + 2) (linesOfMembers ms ++ '\n' :: '\x7d' :: rest) =
      some (ms, rest) := by
  induction ms generalizing fuel with
  | nil => contradiction
  | cons m ms ih =>
    obtain ⟨name, v⟩ := m
    obtain ⟨hv, hskim⟩ := h (name, v) List.mem_cons_self
    dsimp only at hv hskim
    by_cases hnil : ms = []
    · subst hnil
      rw [linesOfMembers_singleton] at hfuel ⊢
      simp only [List.length_cons, List.length_append] at hfuel
      simp only [List.cons_append, List.append_assoc]
      rw [members_space (by decide), members_space (by decide)]
      have hend : skipSpace ('\n' :: '\x7d' :: rest) = '\x7d' :: rest := by
        rw [skipSpace_space (by decide), skipSpace_cons (by decide)]
      refine members_last (quotes_quoted name) ((quotes_quoted name).skipSpace _) ?_ hend
      rw [hskim, value_space (by decide)]
      exact hv fuel _ (stops_cons (by decide)) (by omega)
    · rw [linesOfMembers_cons name v hnil] at hfuel ⊢
      simp only [List.length_cons, List.length_append] at hfuel
      obtain ⟨body, hbody⟩ := linesOfMembers_eq hnil
      have hlength : 3 ≤ (linesOfMembers ms).length := by
        rw [hbody]
        simp
      obtain ⟨fuel, rfl⟩ : ∃ n, fuel = n + 1 := ⟨fuel - 1, by omega⟩
      have hfuel' : (linesOfMembers ms).length ≤ fuel + 4 := by omega
      have hrest := ih hnil (fun n hn => h n (List.mem_cons_of_mem _ hn)) hfuel'
      simp only [List.cons_append, List.append_assoc]
      rw [members_space (by decide), members_space (by decide)]
      refine members_next (quotes_quoted name) ((quotes_quoted name).skipSpace _) ?_
        (skipSpace_cons (by decide) _) ((members_space (c := '\n') (by decide) _).trans hrest)
      rw [hskim, value_space (by decide)]
      exact hv (fuel + 1) _ (stops_comma _) (by omega)

/-- A text that is an object with members to its end is a structure with those of them that are
asked for. -/
theorem fields?_of_members {names : List String} {s : String} {rest : List Char}
    {ms : List (String × Json)} (hs : skipSpace s.toList = '\x7b' :: rest)
    (hms : members false (fun name => !names.contains name) ((skipSpace rest).length + 1) rest =
      some (ms, [])) : fields? names s = some (ms.filter fun m => names.contains m.1) := by
  rw [← members_skipSpace] at hms
  unfold fields?
  split
  · rename_i rest' hrest
    obtain rfl : rest = rest' := (List.cons.inj (hs.symm.trans hrest)).2
    have hbrace : ∀ tail, skipSpace rest ≠ '\x7d' :: tail := by
      intro tail heq
      rw [heq] at hms
      contradiction
    cases hrest : skipSpace rest with
    | nil =>
      rw [hrest] at hms
      contradiction
    | cons c tail =>
      have hc : c ≠ '\x7d' := fun hc => hbrace tail (hc ▸ hrest)
      simp only [hrest, List.length_cons, List.contains_eq_mem] at hms
      simp [hc, hms]
  · rename_i hother
    exact absurd hs (hother rest)

/-- A structure that is written with one member a line is read back by the names of its members. -/
theorem fields?_membersByLine {names : List String} {ms : List (String × Json)} (hne : ms ≠ [])
    (h : ∀ m ∈ ms, m.1 ∈ names ∧ m.2.Readable) : fields? names (membersByLine ms) = some ms := by
  have hread : ∀ m ∈ ms, ReadAs m.2 m.2 ∧ (!names.contains m.1) = false := by
    intro m hm
    obtain ⟨hname, hreadable⟩ := h m hm
    exact ⟨hreadable.readAs, by simpa using hname⟩
  have hfilter : ms.filter (fun m => names.contains m.1) = ms :=
    List.filter_eq_self.2 fun m hm => by simpa using (h m hm).1
  obtain ⟨body, hbody⟩ := linesOfMembers_eq hne
  have hskip : skipSpace ('\n' :: (linesOfMembers ms ++ ['\n', '\x7d'])) =
      '"' :: (body ++ ['\n', '\x7d']) := by
    rw [hbody]
    rfl
  have hs : skipSpace (membersByLine ms).toList =
      '\x7b' :: '\n' :: (linesOfMembers ms ++ ['\n', '\x7d']) := by
    rw [membersByLine_toList]
    exact skipSpace_cons (by decide) _
  have hlength : (linesOfMembers ms).length ≤ body.length + 2 + 4 := by
    rw [hbody]
    simp
  have hms : members false (fun name => !names.contains name) (body.length + 2 + 2)
      (linesOfMembers ms ++ ['\n', '\x7d']) = some (ms, []) :=
    members_linesOfMembers hne hread hlength []
  rw [fields?_of_members hs, hfilter]
  rw [hskip, members_space (by decide), List.length_cons, List.length_append]
  exact hms

end Json

end CourseQuery
