import CourseQuery.Proofs.Json.Value
import CourseQuery.Proofs.Record.Cells
import CourseQuery.Proofs.Steps
import CourseQuery.Record.Json
import Mathlib.Data.List.Forall2

/-!
# What is read as a record

An object is read as a record exactly when it spells one: its names are keys, its values are numbers
and strings, and the cell of a field is the last value under the key of the field, if there is one.
A document lists records exactly when it is an array of objects that spell them one by one.
-/

set_option autoImplicit false

namespace CourseQuery

/-- A field is found under its key. -/
theorem Field.ofKey?_key (f : Field) : ofKey? f.key = some f := by
  cases f <;> decide

/-- Each field has a key of its own. -/
theorem Field.key_inj {f g : Field} : f.key = g.key ↔ f = g := by
  refine ⟨fun h => ?_, congrArg key⟩
  have hfield := congrArg ofKey? h
  rwa [ofKey?_key, ofKey?_key, Option.some.injEq] at hfield

/-- Only its key leads to a field. -/
theorem Field.ofKey?_eq_some_iff {s : String} {f : Field} : ofKey? s = some f ↔ s = f.key := by
  constructor
  · intro h
    have hkey := List.find?_some h
    exact (of_decide_eq_true hkey).symm
  · rintro rfl
    exact ofKey?_key f

namespace Record

/-- The members of an object spell a record. -/
structure SpelledBy (r : Record) (members : List (String × Json)) : Prop where
  /-- Every name is a key. -/
  known : ∀ m ∈ members, ∃ f : Field, m.1 = f.key
  /-- Every value is a number or a string. -/
  valued : ∀ m ∈ members, ∃ c, Cell.ofJson? m.2 = some c
  /-- Of the values under one key the last one counts. -/
  cell : ∀ f : Field, r.cell f = (Json.valuesOf f.key members).getLast?.bind Cell.ofJson?

/-- Members spell only one record. -/
theorem SpelledBy.unique {r s : Record} {members : List (String × Json)} (hr : r.SpelledBy members)
    (hs : s.SpelledBy members) : r = s := by
  have hcell : r.cell = s.cell := funext fun f => (hr.cell f).trans (hs.cell f).symm
  cases r
  exact congrArg Record.mk hcell

/-- The step that reads the value of a member as a cell. -/
def cellOf? (m : String × Json) : Option (String × Cell) :=
  (Cell.ofJson? m.2).map fun c => (m.1, c)

section

variable {r : Record} {members : List (String × Json)} {cells : List (String × Cell)}

/-- A member is read as a cell if its value is one. -/
theorem cellOf?_eq_some_iff {m : String × Json} {cell : String × Cell} :
    cellOf? m = some cell ↔ Cell.ofJson? m.2 = some cell.2 ∧ m.1 = cell.1 := by
  rw [cellOf?, Option.map_eq_some_iff]
  constructor
  · rintro ⟨c, hc, rfl⟩
    exact ⟨hc, rfl⟩
  · rintro ⟨hc, hname⟩
    exact ⟨cell.2, hc, by rw [hname]⟩

/-- The cells that are put into a field are those read from the values under its key. -/
theorem cells_of_members (h : members.map cellOf? = cells.map some) (f : Field) :
    ((cells.filterMap fun m => (Field.ofKey? m.1).map fun g => (g, m.2)).filter
      fun m => m.1 = f).map (fun m => some m.2) =
        (Json.valuesOf f.key members).map Cell.ofJson? := by
  induction members generalizing cells with
  | nil =>
    obtain rfl := List.map_eq_nil_iff.1 h.symm
    rfl
  | cons m members ih =>
    obtain ⟨⟨name, c⟩, cells, rfl, hcell, hcells⟩ := List.map_eq_cons_iff.1 h.symm
    obtain ⟨hc, hname⟩ := cellOf?_eq_some_iff.1 hcell.symm
    have hrest := ih hcells.symm
    rw [List.filterMap_cons, Json.valuesOf_cons, hname]
    dsimp only at hc ⊢
    cases hkey : Field.ofKey? name with
    | none =>
      have hne : name ≠ f.key := by
        rintro rfl
        rw [Field.ofKey?_key] at hkey
        contradiction
      rw [Option.map_none, if_neg hne]
      exact hrest
    | some g =>
      obtain rfl := Field.ofKey?_eq_some_iff.1 hkey
      rw [Option.map_some]
      dsimp only
      by_cases hfg : g = f
      · subst hfg
        rw [if_pos rfl, List.filter_cons, if_pos (decide_eq_true rfl), List.map_cons, List.map_cons,
          hrest, hc]
      · have hne : g.key ≠ f.key := fun heq => hfg (Field.key_inj.1 heq)
        rw [if_neg hne, List.filter_cons_of_neg (by simpa using hfg), hrest]

/-- Filled with the cells that are read from members, a record has the last value under the key of
each field. -/
theorem cell_ofCells_members (h : members.map cellOf? = cells.map some) (f : Field) :
    (ofCells (cells.filterMap fun m => (Field.ofKey? m.1).map fun g => (g, m.2))).cell f =
      (Json.valuesOf f.key members).getLast?.bind Cell.ofJson? := by
  have hlast := congrArg List.getLast? (cells_of_members h f)
  rw [List.getLast?_map, List.getLast?_map] at hlast
  have hbind := congrArg (Option.bind · id) hlast
  rw [Option.bind_map, Option.bind_map] at hbind
  rw [cell_ofCells, lastCell?, List.getLast?_map, Option.map_eq_bind]
  exact hbind

/-- No name is unknown if each of them is the key of a field. -/
theorem firstUnknown?_eq_none_iff {names : List String} :
    firstUnknown? names = none ↔ ∀ name ∈ names, ∃ f : Field, name = f.key := by
  rw [firstUnknown?, List.head?_eq_none_iff, ← List.length_eq_zero_iff, List.length_mergeSort,
    List.length_eq_zero_iff, List.filter_eq_nil_iff]
  refine forall₂_congr fun name _ => ?_
  simp only [Bool.not_eq_true, Option.isNone_eq_false_iff, Option.isSome_iff_exists,
    Field.ofKey?_eq_some_iff]

/-- An object is read as a record if its members are cells under known keys. -/
theorem ofJson_object :
    ofJson (.object members) = .ok r ↔ ∃ cells, members.mapM cellOf? = some cells ∧
      firstUnknown? (cells.map Prod.fst) = none ∧
      ofCells (cells.filterMap fun m => (Field.ofKey? m.1).map fun g => (g, m.2)) = r := by
  unfold ofJson
  dsimp only
  split
  · rename_i hnone
    have hcells : members.mapM cellOf? = none := hnone
    simp [hcells]
  · rename_i cells hsome
    have hcells : members.mapM cellOf? = some cells := hsome
    cases hunknown : firstUnknown? (cells.map Prod.fst) <;> simp [hcells, hunknown]

/-- The members of an object that is read as a record spell it. -/
theorem spelledBy_of_ofJson (h : ofJson (.object members) = .ok r) : r.SpelledBy members := by
  obtain ⟨cells, hcells, hunknown, rfl⟩ := ofJson_object.1 h
  rw [mapM_eq_some_iff] at hcells
  have hcell : ∀ m ∈ members, ∃ cell ∈ cells, Cell.ofJson? m.2 = some cell.2 ∧ m.1 = cell.1 := by
    intro m hm
    have hmem : cellOf? m ∈ cells.map some := by
      rw [← hcells]
      exact List.mem_map_of_mem hm
    obtain ⟨cell, hcell, heq⟩ := List.mem_map.1 hmem
    exact ⟨cell, hcell, cellOf?_eq_some_iff.1 heq.symm⟩
  refine ⟨fun m hm => ?_, fun m hm => ?_, fun f => ?_⟩
  · obtain ⟨cell, hmem, -, hname⟩ := hcell m hm
    rw [hname]
    exact firstUnknown?_eq_none_iff.1 hunknown _ (List.mem_map_of_mem hmem)
  · obtain ⟨cell, -, hread, -⟩ := hcell m hm
    exact ⟨cell.2, hread⟩
  · exact cell_ofCells_members hcells f

/-- An object whose members spell a record is read as it. -/
theorem SpelledBy.ofJson (h : r.SpelledBy members) : ofJson (.object members) = .ok r := by
  have hread : ∃ s, Record.ofJson (.object members) = .ok s := by
    have hvalued : ∀ m ∈ members, ∃ cell, cellOf? m = some cell := fun m hm => by
      obtain ⟨c, hc⟩ := h.valued m hm
      exact ⟨(m.1, c), cellOf?_eq_some_iff.2 ⟨hc, rfl⟩⟩
    obtain ⟨cells, hcells⟩ := exists_mapM_eq_some hvalued
    refine ⟨_, ofJson_object.2 ⟨cells, hcells, firstUnknown?_eq_none_iff.2 ?_, rfl⟩⟩
    intro name hname
    obtain ⟨cell, hcell, rfl⟩ := List.mem_map.1 hname
    obtain ⟨m, hm, hmcell⟩ := exists_of_mem_mapM hcells hcell
    rw [← (cellOf?_eq_some_iff.1 hmcell).2]
    exact h.known m hm
  obtain ⟨s, hs⟩ := hread
  rw [hs, (spelledBy_of_ofJson hs).unique h]

/-- An object is read as a record exactly when it spells it. -/
theorem ofJson_eq_ok_iff {v : Json} :
    ofJson v = .ok r ↔ ∃ members, v = .object members ∧ r.SpelledBy members := by
  constructor
  · intro h
    cases v with
    | object members => exact ⟨members, rfl, spelledBy_of_ofJson h⟩
    | _ => contradiction
  · rintro ⟨members, rfl, h⟩
    exact h.ofJson

/-- A document lists records exactly when it is an array of objects that spell them. -/
theorem listOfText?_eq_some_iff {document : String} {records : List Record} :
    listOfText? document = some records ↔ ∃ values, Json.parse? document = some (.array values) ∧
      List.Forall₂ (fun v (r : Record) => ∃ members, v = .object members ∧ r.SpelledBy members)
        values records := by
  have hvalue : ∀ v (r : Record), (ofJson v).toOption = some r ↔
      ∃ members, v = .object members ∧ r.SpelledBy members := fun v r => by
    rw [← ofJson_eq_ok_iff]
    cases ofJson v <;> simp [Except.toOption]
  have hvalues : ∀ values, (values.mapM fun v => (ofJson v).toOption) = some records ↔
      List.Forall₂ (fun v (r : Record) => ∃ members, v = .object members ∧ r.SpelledBy members)
        values records := fun values => by
    simp only [← hvalue]
    rw [mapM_eq_some_iff, ← List.forall₂_eq_eq_eq, List.forall₂_map_left_iff,
      List.forall₂_map_right_iff]
  unfold listOfText?
  split
  · rename_i values hparse
    rw [hvalues, hparse]
    simp
  · rename_i hparse
    refine iff_of_false nofun ?_
    rintro ⟨values, hvalues, -⟩
    exact hparse values hvalues

end

end Record

end CourseQuery
