import CourseQuery.Proofs.Json.ReadsBack

/-!
# Different values have different texts

The reader finds out where the text of a value ends, so a text can be cut into the texts of the
elements or the members in one way only. With that a value is known from its text part by part, down
to its numbers, which are known from their digits although not every number is read back.
-/

set_option autoImplicit false

namespace CourseQuery.Json

variable {v w : Json}

/-- A text is the text of one value and what follows it in one way only. -/
theorem Writable.chars_append_inj (hv : v.Writable) (hw : w.Writable) {rest rest' : List Char}
    (hrest : Stops rest) (hrest' : Stops rest') (h : chars v ++ rest = chars w ++ rest') :
    chars v = chars w ∧ rest = rest' ∧ v.reread = w.reread := by
  have hreadv := hv.readAs ((chars v).length + (chars w).length) rest hrest (by omega)
  have hreadw := hw.readAs ((chars v).length + (chars w).length) rest' hrest' (by omega)
  rw [h, hreadw] at hreadv
  obtain ⟨hreread, rfl⟩ := Prod.mk.inj (Option.some.inj hreadv)
  exact ⟨List.append_cancel_right h, rfl, hreread.symm⟩

/-- The value is known from its text. -/
def Known (v : Json) : Prop :=
  v.Writable ∧ ∀ w : Json, w.Writable → chars v = chars w → v = w

/-- A value is known by its text if it is known among those that are read back alike. -/
theorem Known.of_reread (hv : v.Writable)
    (h : ∀ w : Json, w.Writable → chars v = chars w → v.reread = w.reread → v = w) : Known v :=
  ⟨hv, fun w hw hchars =>
    h w hw hchars (hv.chars_append_inj hw stops_nil stops_nil (by rw [hchars])).2.2⟩

/-- A value that holds no number but integers, and no other values, is known from what it is reread
as. -/
theorem eq_of_reread (hreal : ∀ x, v ≠ real x) (harray : ∀ vs, v ≠ array vs)
    (hobject : ∀ ms, v ≠ object ms) (h : v.reread = w.reread) : v = w := by
  cases v with
  | real x => exact absurd rfl (hreal x)
  | array vs => exact absurd rfl (harray vs)
  | object ms => exact absurd rfl (hobject ms)
  | null | bool | integer | string => cases w <;> first | exact h | contradiction

/-- Lists of known values of one length are told apart by their text. -/
theorem charsOfList_inj {vs ws : List Json} (hvs : ∀ v ∈ vs, Known v)
    (hws : ∀ w ∈ ws, w.Writable) (hlength : vs.length = ws.length)
    (h : charsOfList vs = charsOfList ws) : vs = ws := by
  induction vs generalizing ws with
  | nil => exact (List.length_eq_zero_iff.1 hlength.symm).symm
  | cons v vs ih =>
    cases ws with
    | nil => contradiction
    | cons w ws =>
      rw [List.forall_mem_cons] at hvs hws
      obtain ⟨⟨hv, hknown⟩, hvs⟩ := hvs
      obtain ⟨hw, hws⟩ := hws
      have hlength : vs.length = ws.length := Nat.succ.inj hlength
      cases vs with
      | nil =>
        obtain rfl := List.length_eq_zero_iff.1 hlength.symm
        rw [hknown w hw h]
      | cons v' vs =>
        cases ws with
        | nil => contradiction
        | cons w' ws =>
          obtain ⟨hchars, hrest, -⟩ := hv.chars_append_inj hw (stops_comma _) (stops_comma _) h
          rw [hknown w hw hchars, ih hvs hws hlength (List.cons.inj hrest).2]

/-- Members of known values under the same names are told apart by their text. -/
theorem charsOfMembers_inj {ms ns : List (String × Json)} (hms : ∀ m ∈ ms, Known m.2)
    (hns : ∀ n ∈ ns, n.2.Writable) (hnames : ms.map Prod.fst = ns.map Prod.fst)
    (h : charsOfMembers ms = charsOfMembers ns) : ms = ns := by
  induction ms generalizing ns with
  | nil => exact (List.map_eq_nil_iff.1 hnames.symm).symm
  | cons m ms ih =>
    cases ns with
    | nil => contradiction
    | cons n ns =>
      obtain ⟨name, v⟩ := m
      obtain ⟨name', w⟩ := n
      rw [List.map_cons, List.map_cons, List.cons.injEq] at hnames
      rw [List.forall_mem_cons] at hms hns
      dsimp only at hms hns hnames
      obtain ⟨⟨hv, hknown⟩, hms⟩ := hms
      obtain ⟨hw, hns⟩ := hns
      obtain ⟨rfl, hnames⟩ := hnames
      cases ms with
      | nil =>
        obtain rfl := List.map_eq_nil_iff.1 hnames.symm
        have hvalue := (List.cons.inj (List.append_cancel_left h)).2
        rw [hknown w hw hvalue]
      | cons m' ms =>
        cases ns with
        | nil => contradiction
        | cons n' ns =>
          have hcons : ∀ u m (ms : List (String × Json)), charsOfMembers ((name, u) :: m :: ms) =
              quoted name ++ ':' :: (chars u ++ ',' :: charsOfMembers (m :: ms)) := fun u m ms => by
            rw [charsOfMembers, List.append_assoc, List.cons_append]
            exact nofun
          rw [hcons, hcons] at h
          have hvalue := (List.cons.inj (List.append_cancel_left h)).2
          obtain ⟨hchars, hrest, -⟩ :=
            hv.chars_append_inj hw (stops_comma _) (stops_comma _) hvalue
          rw [hknown w hw hchars, ih hms hns hnames (List.cons.inj hrest).2]

/-- Every value that can be written is known from its text. -/
theorem Writable.known (hv : v.Writable) : Known v := by
  induction hv with
  | null => exact .of_reread .null fun w _ _ => eq_of_reread nofun nofun nofun
  | bool b => exact .of_reread (.bool b) fun w _ _ => eq_of_reread nofun nofun nofun
  | integer hi => exact .of_reread (.integer hi) fun w _ _ => eq_of_reread nofun nofun nofun
  | string s => exact .of_reread (.string s) fun w _ _ => eq_of_reread nofun nofun nofun
  | real hx =>
    refine .of_reread (.real hx) fun w hw hchars hreread => ?_
    cases hw with
    | real hy => rw [chars_real_inj hx hy hchars]
    | _ => contradiction
  | @array vs hvs ih =>
    refine .of_reread (.array hvs) fun w hw hchars hreread => ?_
    cases hw with
    | @array ws hws =>
      have hlists := Json.array.inj hreread
      rw [rereadList_eq_map, rereadList_eq_map] at hlists
      have hlength : vs.length = ws.length := by
        simpa only [List.length_map] using congrArg List.length hlists
      have hinside : charsOfList vs = charsOfList ws :=
        List.append_cancel_right (List.cons.inj hchars).2
      rw [charsOfList_inj ih hws hlength hinside]
    | _ => contradiction
  | @object ms hms ih =>
    refine .of_reread (.object hms) fun w hw hchars hreread => ?_
    cases hw with
    | @object ns hns =>
      have hlists := Json.object.inj hreread
      rw [rereadMembers_eq_map, rereadMembers_eq_map] at hlists
      have hnames : ms.map Prod.fst = ns.map Prod.fst := by
        have hfst := congrArg (List.map Prod.fst) hlists
        rwa [List.map_map, List.map_map] at hfst
      have hinside : charsOfMembers ms = charsOfMembers ns :=
        List.append_cancel_right (List.cons.inj hchars).2
      rw [charsOfMembers_inj ih hns hnames hinside]
    | _ => contradiction

/-- Values that can be written have one text exactly when they are one value. -/
theorem Writable.text_eq_iff (hv : v.Writable) (hw : w.Writable) : v.text = w.text ↔ v = w := by
  constructor
  · intro h
    have hchars : chars v = chars w := by
      have hlist := congrArg String.toList h
      rwa [text, text, String.toList_ofList, String.toList_ofList] at hlist
    exact hv.known.2 w hw hchars
  · rintro rfl
    rfl

end CourseQuery.Json
