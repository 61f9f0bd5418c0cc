import CourseQuery.Proofs.Record.Canonical
import CourseQuery.Proofs.Service.Framing

/-!
# Records as callers get them

A record with finite numbers is read from its own text and from the result of a response, and what
is read has its values exactly when its numbers are read back. Records have one text exactly when
they have the same values.
-/

set_option autoImplicit false

namespace CourseQuery

open Service (Response)

/-- The response with records is read as an array of their stored forms, the members of each in the
order of their names. -/
theorem Service.Response.parse?_text_ofRecords (records : List Record) :
    Json.parse? (ofRecords records).text = some (.object [("code", .integer 200),
      ("body", .object [("result", .array (records.map fun r => r.toJson.sorted.reread))])]) := by
  have hbody : (ofRecords records).body.reread =
      .object [("result", .array (records.map fun r => r.toJson.sorted.reread))] := by
    rw [ofRecords, ofResult, Json.sorted, Json.sortedElements_eq_map]
    simp only [Json.reread, Json.rereadMembers, Json.rereadList_eq_map, List.map_map]
    rfl
  rw [parse?_text (writable_ofRecords records), hbody]
  rfl

namespace Record

/-- A reading gives a record, which has the values of the one that was written exactly when the
numbers of that are read back. -/
def ComesBack (r : Record) (reading : Except ReadFault Record) : Prop :=
  ∃ s, reading = .ok s ∧ (r.equal s = true ↔ r.ReadsBack)

/-- A finite record comes back when it is read as what it reads back as. -/
theorem comesBack_reread {r : Record} (h : r.Finite) {reading : Except ReadFault Record}
    (hreading : reading = .ok r.reread) : r.ComesBack reading :=
  ⟨r.reread, hreading, equal_reread_iff h⟩

/-- The text of a record with finite numbers comes back as a record with its values if its numbers
are read back, and it is the text of the records with these values and of no others, in whatever
order the cells were put in. So do records come back of the result of a response. -/
theorem text_canonical :
    (∀ r : Record, r.Finite → r.ComesBack (parse r.text)) ∧
    (∀ cells cells' : List (Field × Cell), (ofCells cells).Finite → (ofCells cells').Finite →
      ((ofCells cells).text = (ofCells cells').text ↔
        (ofCells cells).equal (ofCells cells') = true)) ∧
    (∀ cells cells' : List (Field × Cell), (∀ f, lastCell? cells f = lastCell? cells' f) →
      (ofCells cells).text = (ofCells cells').text) ∧
    ∀ records : List Record, (∀ r ∈ records, r.Finite) → ∃ values,
      Json.parse? (Response.ofRecords records).text = some (.object [("code", .integer 200),
        ("body", .object [("result", .array values)])]) ∧
      List.Forall₂ (fun r v => r.ComesBack (ofJson v)) records values := by
  refine ⟨fun r h => comesBack_reread h (parse_text h),
    fun cells cells' h h' => text_eq_iff h h', fun cells cells' hlast => ?_, fun records h => ?_⟩
  · have hcells : (ofCells cells).cell = (ofCells cells').cell := by
      rw [cell_ofCells, cell_ofCells]
      exact funext hlast
    rw [show ofCells cells = ofCells cells' from congrArg Record.mk hcells]
  · refine ⟨_, Response.parse?_text_ofRecords records, ?_⟩
    rw [List.forall₂_map_right_iff, List.forall₂_same]
    exact fun r hr => comesBack_reread (h r hr) (ofJson_sorted_reread (h r hr))

/-! ## Two records that differ in the sign of a zero -/

/-- The cells of a record with a text that looks like a number, a number that is not whole, and a
zero. -/
def plainCells : List (Field × Cell) :=
  [(.department, .text "120"), (.average, .number (.ofDecimal false 785 (-1))),
    (.pass, .number .zero)]

/-- The same cells in another order, the average after another one, and with a negative zero. -/
def signedCells : List (Field × Cell) :=
  [(.pass, .number (.signed true .zero)), (.average, .text "none"),
    (.average, .number (.ofDecimal false 785 (-1))), (.department, .text "120")]

/-- A record whose cells are given in another order or with a negative zero has the same text. -/
theorem text_plainCells :
    (∃ r, parse (ofCells plainCells).text = .ok r ∧ (ofCells plainCells).equal r = true) ∧
    (ofCells plainCells).text = (ofCells signedCells).text ∧
    (ofCells plainCells).text = (ofCells plainCells.reverse).text ∧
    ∃ values,
      Json.parse? (Response.ofRecords [ofCells plainCells, ofCells signedCells]).text =
        some (.object [("code", .integer 200), ("body", .object [("result", .array values)])]) ∧
      List.Forall₂ (fun r v => ∃ s, ofJson v = .ok s ∧ r.equal s = true)
        [ofCells plainCells, ofCells signedCells] values := by
  have hfinite : (ofCells plainCells).Finite ∧ (ofCells signedCells).Finite := by
    constructor <;> refine finite_ofCells ?_ <;> simp [plainCells, signedCells] <;>
      decide +kernel
  have hback : (ofCells plainCells).ReadsBack ∧ (ofCells signedCells).ReadsBack := by
    constructor <;> refine readsBack_ofCells ?_ <;> decide +kernel
  obtain ⟨r, hparse, hequal⟩ := text_canonical.1 _ hfinite.1
  refine ⟨⟨r, hparse, hequal.2 hback.1⟩, ?_, ?_, ?_⟩
  · exact (text_canonical.2.1 _ _ hfinite.1 hfinite.2).2 (by decide +kernel)
  · refine text_canonical.2.2.1 _ _ fun f => ?_
    cases f <;> rfl
  · obtain ⟨values, hvalues, hread⟩ := text_canonical.2.2.2
      [ofCells plainCells, ofCells signedCells] (by simp [hfinite])
    refine ⟨values, hvalues, ?_⟩
    simp only [List.forall₂_cons_left_iff, List.forall₂_nil_left_iff] at hread ⊢
    obtain ⟨v, _, ⟨s, hs, hvs⟩, ⟨w, _, ⟨t, ht, hwt⟩, rfl, rfl⟩, rfl⟩ := hread
    exact ⟨v, _, ⟨s, hs, hvs.2 hback.1⟩, ⟨w, _, ⟨t, ht, hwt.2 hback.2⟩, rfl, rfl⟩, rfl⟩

end Record

end CourseQuery
