import CourseQuery.Proofs.Json.Distinct
import CourseQuery.Proofs.Json.Sorted
import CourseQuery.Proofs.Record.Stored

/-!
# One text for a record

The text of a record with finite numbers is the text of all records with its values and of no other.
It is read as a record again, which has the same values exactly when the numbers that are not stored
as integers are read back. The order in which the cells were put in does not show, and neither does
the order in which a response has the members.
-/

set_option autoImplicit false

namespace CourseQuery

/-! ## Cells with one stored form -/

/-- Equality of numbers does not depend on the order. -/
theorem Binary64.equal_comm (x y : Binary64) : x.equal y = y.equal x := by
  unfold equal
  cases x.rank <;> cases y.rank <;> first | rfl | exact Bool.beq_comm

/-- Finite numbers have one value exactly when they are one number up to the sign of a zero. -/
theorem Binary64.equal_iff_unsignedZero {x y : Binary64} (hx : x.isFinite = true) :
    x.equal y = true ↔ x.unsignedZero = y.unsignedZero := by
  constructor
  · intro h
    by_cases hzero : x.toInt? = some 0
    · by_cases hzero' : y.toInt? = some 0
      · rw [← ofInt_of_toInt? hzero, ofInt_of_toInt? hzero']
      · rw [equal_comm] at h
        rw [eq_of_equal hzero' h]
    · rw [eq_of_equal hzero h]
  · intro h
    have hrank : y.rank = x.rank := by
      rw [← rank_unsignedZero x, h, rank_unsignedZero]
    cases x with
    | nan => contradiction
    | signed negative m =>
      rw [equal, hrank]
      exact beq_self_eq_true _

namespace Cell

/-- The stored form of a cell with a finite number is that of the cell with a plain zero. -/
theorem ofJson?_toJson {c : Cell} (h : ∀ x, c = .number x → x.isFinite = true) :
    ofJson? c.toJson = some c.stored := by
  cases c with
  | text s => rfl
  | number x =>
    rcases toJson_number_cases x with ⟨i, hint, -, hjson⟩ | ⟨hplain, hjson⟩ | ⟨hfinite, -⟩
    · rw [hjson, stored, ← Binary64.ofInt_of_toInt? hint]
      rfl
    · rw [hjson, stored, hplain]
      rfl
    · rw [h x rfl] at hfinite
      contradiction

section

variable {c d : Cell} (hc : ∀ x, c = .number x → x.isFinite = true)

include hc

/-- Cells have one value exactly when they are one cell up to the sign of a zero. -/
theorem equal_iff_stored : c.equal d = true ↔ c.stored = d.stored := by
  cases c with
  | text s => cases d <;> simp [equal, stored]
  | number x =>
    cases d with
    | text t => simp [equal, stored]
    | number y => simp [equal, stored, Binary64.equal_iff_unsignedZero (hc x rfl)]

/-- Cells have one value exactly when they have one stored form. -/
theorem equal_iff_toJson (hd : ∀ x, d = .number x → x.isFinite = true) :
    c.equal d = true ↔ c.toJson = d.toJson := by
  rw [equal_iff_stored hc]
  constructor
  · intro h
    rw [← toJson_stored c, h, toJson_stored]
  · intro h
    have hread := ofJson?_toJson hc
    rw [h, ofJson?_toJson hd] at hread
    exact (Option.some.inj hread).symm

end

/-- A cell holds no object, so there is nothing to sort in it. -/
theorem sorted_toJson (c : Cell) : c.toJson.sorted = c.toJson := by
  cases c with
  | text s => rfl
  | number x =>
    rcases toJson_number_cases x with ⟨i, -, -, hjson⟩ | ⟨-, hjson⟩ | ⟨-, hjson⟩ <;>
    · rw [hjson]
      rfl

end Cell

namespace Record

variable {r s : Record}

/-! ## Records with one text -/

/-- Records have one stored form exactly when their cells have, field by field. -/
theorem toJson_eq_iff : r.toJson = s.toJson ↔
    ∀ f, (r.cell f).map Cell.toJson = (s.cell f).map Cell.toJson := by
  have hmem : ∀ (r : Record) f v,
      (r.cell f).map Cell.toJson = some v ↔
        (f.key, v) ∈ r.cells.map fun m => (m.1.key, m.2.toJson) := fun r f v => by
    rw [Option.map_eq_some_iff, List.mem_map]
    constructor
    · rintro ⟨c, hc, rfl⟩
      exact ⟨(f, c), mem_cells.2 hc, rfl⟩
    · rintro ⟨⟨g, c⟩, hc, heq⟩
      obtain ⟨hkey, rfl⟩ := Prod.mk.inj heq
      obtain rfl : g = f := Field.key_inj.1 hkey
      exact ⟨c, mem_cells.1 hc, rfl⟩
  constructor
  · intro h f
    have hmembers : (r.cells.map fun m => (m.1.key, m.2.toJson)) =
        s.cells.map fun m => (m.1.key, m.2.toJson) := Json.object.inj h
    exact Option.ext fun v => by rw [hmem, hmem, hmembers]
  · intro h
    have hmembers : ∀ r : Record, r.toJson = .object (Field.all.filterMap fun f =>
        ((r.cell f).map Cell.toJson).map fun v => (f.key, v)) := fun r => by
      rw [toJson, cells, List.map_filterMap]
      simp only [Option.map_map]
      rfl
    simp only [hmembers, h]

/-- Records with finite numbers have the same values exactly when they have one stored form. -/
theorem equal_iff_toJson (hr : r.Finite) (hs : s.Finite) :
    r.equal s = true ↔ r.toJson = s.toJson := by
  rw [toJson_eq_iff, equal, List.all_eq_true,
    forall_congr' fun f => forall_prop_of_true (Field.mem_all f)]
  refine forall_congr' fun f => ?_
  cases hc : r.cell f with
  | none => cases s.cell f <;> simp
  | some c =>
    cases hd : s.cell f with
    | none => simp
    | some d =>
      simp only [Option.map_some, Option.some.injEq]
      exact Cell.equal_iff_toJson (fun x hx => hr f x (hx ▸ hc)) fun x hx => hs f x (hx ▸ hd)

/-- Records with finite numbers have the same values exactly when they have one text. -/
theorem text_eq_iff (hr : r.Finite) (hs : s.Finite) : r.text = s.text ↔ r.equal s = true := by
  rw [equal_iff_toJson hr hs]
  exact (writable_toJson r).text_eq_iff (writable_toJson s)

/-! ## Reading what is written -/

/-- A record reads back if the real numbers in its cells do. -/
theorem readsBack_ofCells {cells : List (Field × Cell)}
    (h : ∀ m ∈ cells, ∀ x ∈ m.2.storedReal?, x.ReadsBack) : (ofCells cells).ReadsBack :=
  fun f c x hc hx => h (f, c) (mem_of_cell_ofCells hc) x (Cell.mem_storedReal?.2 hx)

/-- The text of a record with finite numbers is read as the record that comes back. -/
theorem parse_text (h : r.Finite) : parse r.text = .ok r.reread := by
  rw [parse, text, Json.parseFront?_text_reread (writable_toJson r)]
  simp only [ofJson_reread h, List.all_nil, if_true]

/-- A record is spelled by the values under each name alone. -/
theorem SpelledBy.congr {ms ns : List (String × Json)} (h : r.SpelledBy ms)
    (hvalues : ∀ name, Json.valuesOf name ns = Json.valuesOf name ms) : r.SpelledBy ns := by
  have hmem : ∀ n ∈ ns, n ∈ ms := fun n hn => by
    rw [← Json.mem_valuesOf] at hn ⊢
    rwa [← hvalues]
  exact ⟨fun n hn => h.known n (hmem n hn), fun n hn => h.valued n (hmem n hn),
    fun f => by rw [hvalues, h.cell f]⟩

/-- With its members in the order of their names the stored form of a record is read as before. -/
theorem ofJson_sorted_reread (h : r.Finite) : ofJson r.toJson.sorted.reread = .ok r.reread := by
  let members : List (String × Json) := r.cells.map fun m => (m.1.key, m.2.toJson)
  have hobject : r.toJson = .object members := rfl
  have hmembers : members.map (fun m => (m.1, m.2.sorted)) = members := by
    simp only [members, List.map_map, Function.comp_def, Cell.sorted_toJson]
  have hread := ofJson_reread h
  rw [hobject, Json.reread, Json.rereadMembers_eq_map] at hread
  rw [hobject, Json.sorted, Json.sortedMembers_eq_map, hmembers, Json.reread,
    Json.rereadMembers_eq_map]
  refine ((spelledBy_of_ofJson hread).congr fun name => ?_).ofJson
  rw [Json.valuesOf_map, Json.valuesOf_map, Json.valuesOf_sortByName]

end Record

end CourseQuery
