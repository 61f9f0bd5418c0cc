import CourseQuery.Proofs.Json.ReadsBack
import CourseQuery.Proofs.Record.Reading

/-!
# Records read back

What comes back of a stored record has a plain zero in place of every negative one: a whole number
is stored as an integer, and an integer has no negative zero. The numbers that are not stored as
integers are reread. This is `Record.reread`, and it has the values of the record exactly when these
numbers are read back from their text. Then it is `Record.stored`, and nothing that is shown of a
record can tell the two apart. A record is `Storable` when it is complete, its numbers are finite,
and those that are not stored as integers are read back.
-/

set_option autoImplicit false

namespace CourseQuery

/-- A number that equals one that is not zero is that number. -/
theorem Binary64.eq_of_equal {x y : Binary64} (hx : x.toInt? ≠ some 0) (h : x.equal y = true) :
    y = x := by
  cases x with
  | nan => contradiction
  | signed negative m =>
    cases y with
    | nan => contradiction
    | signed negative' m' =>
      have hcode : m.code ≠ 0 := by
        intro hzero
        obtain rfl : m = .zero := by
          obtain ⟨c, hc⟩ := m
          obtain rfl : c = 0 := hzero
          rfl
        cases negative with
        | true => exact hx (by decide +kernel)
        | false => exact hx (by decide +kernel)
      have hrank : (if negative = true then -(m.code : Int) else m.code) =
          if negative' = true then -(m'.code : Int) else m'.code := eq_of_beq h
      obtain ⟨c, hc⟩ := m
      obtain ⟨c', hc'⟩ := m'
      dsimp only at hcode hrank
      cases negative <;> cases negative' <;>
        simp only [Bool.false_eq_true, if_false, if_true, signed.injEq, Magnitude.mk.injEq,
          reduceCtorEq, true_and, false_and] at hrank ⊢ <;> omega

/-! ## Cells -/

/-- The cell with a plain zero in place of a negative one. -/
def Cell.stored : Cell → Cell
  | .number x => .number x.unsignedZero
  | .text s => .text s

namespace Cell

/-- Storing changes no kind of a cell. -/
@[simp]
theorem kind_stored (c : Cell) : c.stored.kind = c.kind := by
  cases c <;> rfl

/-- A number is stored as an integer when it is a small one, else as itself, which then is no
negative zero, unless it is not finite. -/
theorem toJson_number_cases (x : Binary64) :
    (∃ i, x.toInt? = some i ∧ i.natAbs < 2 * binade ∧ toJson (.number x) = .integer i) ∨
      (x.unsignedZero = x ∧ toJson (.number x) = .real x) ∨
      (x.isFinite = false ∧ toJson (.number x) = .null) := by
  by_cases hx : x = .signed true .zero
  · subst hx
    have hint : (Binary64.signed true .zero).toInt? = some 0 := by decide +kernel
    refine Or.inl ⟨0, hint, by decide, ?_⟩
    simp only [toJson, hint]
    rfl
  have hplain := Binary64.unsignedZero_of_ne hx
  cases hint : x.toInt? with
  | some i =>
    by_cases hsmall : i.natAbs < 2 * binade
    · exact Or.inl ⟨i, rfl, hsmall, by simp only [toJson, hint, if_pos hsmall]⟩
    · exact Or.inr (Or.inl ⟨hplain, by simp only [toJson, hint, if_neg hsmall]⟩)
  | none =>
    cases hfinite : x.isFinite with
    | true => exact Or.inr (Or.inl ⟨hplain, by simp only [toJson, hint, hfinite, if_true]⟩)
    | false =>
      refine Or.inr (Or.inr ⟨rfl, ?_⟩)
      simp only [toJson, hint, hfinite, Bool.false_eq_true, if_false]

/-- A cell that is written as a real number is this number. -/
theorem number_of_toJson_real {c : Cell} {x : Binary64} (h : c.toJson = .real x) :
    c = .number x := by
  cases c with
  | text s => contradiction
  | number y =>
    rcases toJson_number_cases y with ⟨i, -, -, hjson⟩ | ⟨-, hjson⟩ | ⟨-, hjson⟩
    · rw [hjson] at h
      contradiction
    · rw [hjson] at h
      rw [Json.real.inj h]
    · rw [hjson] at h
      contradiction

/-- The number that a cell is stored as, if it is stored as a real number. -/
def storedReal? (c : Cell) : Option Binary64 :=
  match c.toJson with
  | .real x => some x
  | _ => none

/-- The stored real number of a cell is the one it is written as. -/
theorem mem_storedReal? {c : Cell} {x : Binary64} : x ∈ storedReal? c ↔ c.toJson = .real x := by
  unfold storedReal?
  cases c.toJson <;> simp

/-- A cell is written in the same way after it was stored. -/
@[simp]
theorem toJson_stored (c : Cell) : c.stored.toJson = c.toJson := by
  cases c with
  | text s => rfl
  | number x =>
    rcases toJson_number_cases x with ⟨i, hint, hsmall, hjson⟩ | ⟨hplain, -⟩ | ⟨hfinite, hjson⟩
    · rw [hjson]
      simp only [stored, toJson, Binary64.toInt?_unsignedZero, hint, if_pos hsmall]
    · rw [stored, hplain]
    · rw [stored, Binary64.unsignedZero_of_ne]
      rintro rfl
      contradiction

/-- The cell that comes back of a stored cell. -/
def reread (c : Cell) : Cell :=
  match c.toJson with
  | .real x => .number x.reread
  | _ => c.stored

/-- A cell that is written as a real number is read back as what this number is read back as. -/
theorem reread_of_real {c : Cell} {x : Binary64} (h : c.toJson = .real x) :
    c.reread = .number x.reread := by
  simp only [reread, h]

/-- A text is read back as itself. -/
@[simp]
theorem reread_text (s : String) : (text s).reread = text s := rfl

/-- Reading back changes no kind of a cell. -/
@[simp]
theorem kind_reread (c : Cell) : c.reread.kind = c.kind := by
  cases c with
  | text s => rfl
  | number x =>
    unfold reread
    split
    · rfl
    · exact kind_stored _

/-- A cell is stored as it stands when its number is read back. -/
theorem reread_eq_stored {c : Cell} (h : ∀ x, c.toJson = .real x → x.ReadsBack) :
    c.reread = c.stored := by
  cases c with
  | text s => rfl
  | number x =>
    rcases toJson_number_cases x with ⟨i, -, -, hjson⟩ | ⟨hplain, hjson⟩ | ⟨-, hjson⟩
    · simp only [reread, hjson]
    · rw [reread_of_real hjson, (Json.readsBack_iff_reread.1 (h x hjson)).2, stored, hplain]
    · simp only [reread, hjson]

/-- What is not finite is stored as the null. -/
theorem toJson_of_not_finite {x : Binary64} (h : x.isFinite = false) :
    toJson (.number x) = .null := by
  have hint : x.toInt? = none := by
    cases x with
    | nan => rfl
    | signed negative m =>
      have hm : m.isFinite = false := h
      simp [Binary64.toInt?, Magnitude.toNat?, hm]
  simp only [toJson, hint, h, Bool.false_eq_true, if_false]

/-- The stored form of a cell can be written. -/
theorem writable_toJson (c : Cell) : c.toJson.Writable := by
  cases c with
  | text s => exact .string s
  | number x =>
    cases hfinite : x.isFinite with
    | false =>
      rw [toJson_of_not_finite hfinite]
      exact .null
    | true =>
      rcases toJson_number_cases x with ⟨i, -, hsmall, hjson⟩ | ⟨-, hjson⟩ | ⟨-, hjson⟩
      · have hword : Json.fitsWord i = true := by
          have hmin : Int64.minValue.toInt = -9223372036854775808 := by decide
          have hsize : UInt64.size = 18446744073709551616 := rfl
          simp only [Json.fitsWord, hmin, hsize, Bool.and_eq_true, decide_eq_true_eq]
          simp only [binade] at hsmall
          omega
        rw [hjson]
        exact .integer hword
      · rw [hjson]
        exact .real hfinite
      · rw [hjson]
        exact .null

section

variable {c : Cell} (h : ∀ x, c = .number x → x.isFinite = true)

include h

/-- What is read from the text of a stored cell is the cell that comes back. -/
theorem ofJson?_reread : ofJson? c.toJson.reread = some c.reread := by
  cases c with
  | text s => rfl
  | number x =>
    rcases toJson_number_cases x with ⟨i, hint, -, hjson⟩ | ⟨-, hjson⟩ | ⟨hfinite, -⟩
    · simp only [reread, hjson, stored, ← Binary64.ofInt_of_toInt? hint]
      rfl
    · rw [reread_of_real hjson, hjson]
      rfl
    · rw [h x rfl] at hfinite
      contradiction

/-- A cell equals itself after it was stored. -/
theorem equal_stored : c.equal c.stored = true := by
  cases c with
  | text s => exact beq_self_eq_true s
  | number x =>
    cases x with
    | nan => exact absurd (h .nan rfl) Bool.false_ne_true
    | signed negative m =>
      have hrank : (Binary64.signed negative m).rank =
          some (if negative then -(m.code : Int) else m.code) := rfl
      simp only [equal, stored, Binary64.equal, Binary64.rank_unsignedZero, hrank,
        beq_self_eq_true]

/-- What comes back of a cell with a finite number has its value exactly when the number is read
back. -/
theorem equal_reread_iff : c.equal c.reread = true ↔ ∀ x, c.toJson = .real x → x.ReadsBack := by
  constructor
  · intro hequal x hjson
    have hnumber : c = .number x := number_of_toJson_real hjson
    subst hnumber
    rw [reread_of_real hjson] at hequal
    have hzero : x.toInt? ≠ some 0 := by
      intro hzero
      simp [toJson, hzero, binade] at hjson
    exact Json.readsBack_iff_reread.2 ⟨h x rfl, Binary64.eq_of_equal hzero hequal⟩
  · intro hback
    rw [reread_eq_stored hback]
    exact equal_stored h

end

end Cell

namespace Record

/-- The record with plain zeros. -/
def stored (r : Record) : Record :=
  ⟨fun f => (r.cell f).map Cell.stored⟩

/-- The record that comes back of a stored record. -/
def reread (r : Record) : Record :=
  ⟨fun f => (r.cell f).map Cell.reread⟩

/-- Every number that is not stored as an integer is read back from its text. -/
def ReadsBack (r : Record) : Prop :=
  ∀ f c x, r.cell f = some c → c.toJson = .real x → x.ReadsBack

/-- A record that is complete, has finite numbers, and is read back. -/
structure Storable (r : Record) : Prop where
  complete : r.Complete
  finite : r.Finite
  readsBack : r.ReadsBack

/-! ## The cells of a record -/

/-- The cells of a record that is mapped are the mapped cells. -/
theorem cells_mk_map (r : Record) (φ : Cell → Cell) :
    (⟨fun f => (r.cell f).map φ⟩ : Record).cells = r.cells.map fun (f, c) => (f, φ c) := by
  rw [cells, cells, List.map_filterMap]
  congr
  funext f
  cases h : r.cell f <;> simp [h]

/-- The cells of a stored record are the stored cells. -/
theorem cells_stored (r : Record) :
    r.stored.cells = r.cells.map fun (f, c) => (f, c.stored) :=
  r.cells_mk_map Cell.stored

/-- A record is written in the same way after it was stored. -/
@[simp]
theorem toJson_stored (r : Record) : r.stored.toJson = r.toJson := by
  simp [toJson, cells_stored]

/-! ## Reading back -/

/-- What is read from the text of a record with finite numbers is the record that comes back. -/
theorem ofJson_reread {r : Record} (h : r.Finite) : ofJson r.toJson.reread = .ok r.reread := by
  have hmembers : r.toJson.reread =
      .object (r.cells.map fun m => (m.1.key, m.2.toJson.reread)) := by
    rw [toJson, Json.reread, Json.rereadMembers_eq_map, List.map_map]
    rfl
  have hcells : (r.cells.map fun m => (m.1.key, m.2.toJson.reread)).mapM cellOf? =
      some (r.cells.map fun m => (m.1.key, m.2.reread)) := by
    refine mapM_map_eq_some fun m hm => ?_
    obtain ⟨f, c⟩ := m
    have hcell := mem_cells.1 hm
    exact cellOf?_eq_some_iff.2 ⟨Cell.ofJson?_reread fun x hx => h f x (hx ▸ hcell), rfl⟩
  have hunknown : firstUnknown? ((r.cells.map fun m => (m.1.key, m.2.reread)).map Prod.fst) =
      none := by
    refine firstUnknown?_eq_none_iff.2 fun name hname => ?_
    rw [List.map_map] at hname
    obtain ⟨m, -, rfl⟩ := List.mem_map.1 hname
    exact ⟨m.1, rfl⟩
  have hfields : (r.cells.map fun m => (m.1.key, m.2.reread)).filterMap
      (fun m => (Field.ofKey? m.1).map fun f => (f, m.2)) = r.reread.cells := by
    rw [reread, cells_mk_map, List.filterMap_map, ← List.filterMap_eq_map]
    refine congrArg (List.filterMap · r.cells) (funext fun m => ?_)
    simp only [Function.comp_apply, Field.ofKey?_key, Option.map_some]
  rw [hmembers]
  exact ofJson_object.2 ⟨_, hcells, hunknown, by rw [hfields, ofCells_cells]⟩

/-- The stored form of a record can be written. -/
theorem writable_toJson (r : Record) : r.toJson.Writable := by
  refine .object fun m hm => ?_
  obtain ⟨⟨f, c⟩, -, rfl⟩ := List.mem_map.1 hm
  exact Cell.writable_toJson c

/-- A list of records with finite numbers comes back from its text record by record. -/
theorem listOfText?_reread {rs : List Record} (h : ∀ r ∈ rs, r.Finite) :
    listOfText? (textOfList rs) = some (rs.map reread) := by
  have hwritable : (Json.array (rs.map toJson)).Writable := by
    refine .array fun v hv => ?_
    obtain ⟨r, hr, rfl⟩ := List.mem_map.1 hv
    exact writable_toJson r
  have hread : (Json.array (rs.map toJson)).reread =
      .array (rs.map fun r => r.toJson.reread) := by
    rw [Json.reread, Json.rereadList_eq_map, List.map_map]
    rfl
  rw [listOfText?, textOfList, Json.parse?_text_reread hwritable, hread]
  refine mapM_map_eq_some fun r hr => ?_
  rw [ofJson_reread (h r hr)]
  rfl

/-- A record is stored as it stands when its numbers are read back. -/
theorem reread_eq_stored {r : Record} (h : r.ReadsBack) : r.reread = r.stored := by
  refine congrArg Record.mk (funext fun f => Option.map_congr fun c hc => ?_)
  exact Cell.reread_eq_stored fun x hx => h f c x hc hx

/-! ## Values -/

/-- A record equals its image under a map if each of its cells does. -/
theorem equal_mk_map_iff {φ : Cell → Cell} {r : Record} :
    r.equal ⟨fun f => (r.cell f).map φ⟩ = true ↔
      ∀ f c, r.cell f = some c → c.equal (φ c) = true := by
  unfold equal
  rw [List.all_eq_true]
  constructor
  · intro h f c hc
    have hf := h f (Field.mem_all f)
    simpa only [hc, Option.map_some] using hf
  · intro h f _
    cases hc : r.cell f with
    | none => simp [hc]
    | some c =>
      simp only [hc, Option.map_some]
      exact h f c hc

/-- A record with finite numbers has the values of the one with plain zeros. -/
theorem equal_stored {r : Record} (h : r.Finite) : r.equal r.stored = true :=
  equal_mk_map_iff.2 fun f _ hc => Cell.equal_stored fun x hx => h f x (hx ▸ hc)

/-- What comes back of a record with finite numbers has its values exactly when the numbers that are
not stored as integers are read back. -/
theorem equal_reread_iff {r : Record} (h : r.Finite) :
    r.equal r.reread = true ↔ r.ReadsBack := by
  have hcell : ∀ f c, r.cell f = some c →
      (c.equal c.reread = true ↔ ∀ x, c.toJson = .real x → x.ReadsBack) := fun f c hc =>
    Cell.equal_reread_iff fun x hx => h f x (hx ▸ hc)
  unfold reread ReadsBack
  rw [equal_mk_map_iff]
  constructor
  · intro hequal f c x hc
    exact (hcell f c hc).1 (hequal f c hc) x
  · intro hback f c hc
    exact (hcell f c hc).2 fun x => hback f c x hc

/-! ## Defects -/

/-- What keeps the kinds of the cells keeps the defects. -/
theorem defectAt?_mk_map {φ : Cell → Cell} (hφ : ∀ c, (φ c).kind = c.kind) (r : Record)
    (f : Field) : (⟨fun f => (r.cell f).map φ⟩ : Record).defectAt? f = r.defectAt? f := by
  unfold defectAt?
  cases h : r.cell f with
  | none => simp [h]
  | some c => simp [h, hφ]

/-- Storing brings no defect and mends none. -/
@[simp]
theorem defectAt?_stored (r : Record) (f : Field) : r.stored.defectAt? f = r.defectAt? f :=
  defectAt?_mk_map Cell.kind_stored r f

/-- What comes back of a complete record is complete. -/
theorem Complete.reread {r : Record} (h : r.Complete) : r.reread.Complete := by
  intro f
  rw [← defectAt?_eq_none_iff, Record.reread, defectAt?_mk_map Cell.kind_reread,
    defectAt?_eq_none_iff]
  exact h f

/-- The texts of a complete record come back as they are. -/
theorem Complete.restrict_reread {r : Record} (h : r.Complete) {fields : List Field}
    (hfields : ∀ f ∈ fields, f.kind = .text) : r.reread.restrict fields = r.restrict fields := by
  refine congrArg Record.mk (funext fun f => ?_)
  by_cases hf : f ∈ fields
  · obtain ⟨s, hs⟩ := h.text (hfields f hf)
    have hreread : r.reread.cell f = (r.cell f).map Cell.reread := rfl
    rw [if_pos hf, if_pos hf, hreread, hs, Option.map_some, Cell.reread_text]
  · rw [if_neg hf, if_neg hf]

end Record

end CourseQuery
