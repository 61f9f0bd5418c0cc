import CourseQuery.Proofs.Record.Complete
import Mathlib.Data.List.Induction

/-!
# Cells put into records

Of the cells that are put into one field of a record the last one stays. So a record that is filled
is known from the last cell of each field, and filled with the cells of a record it is that record.
-/

set_option autoImplicit false

namespace CourseQuery.Record

variable {cells : List (Field × Cell)} {f : Field} {c : Cell}

/-- The last of the cells that are put into a field. -/
def lastCell? (cells : List (Field × Cell)) (f : Field) : Option Cell :=
  ((cells.filter fun m => m.1 = f).map Prod.snd).getLast?

/-- Each field of a record holds the last cell that was put into it. -/
theorem cell_ofCells (cells : List (Field × Cell)) : (ofCells cells).cell = lastCell? cells := by
  funext f
  induction cells using List.reverseRecOn with
  | nil => rfl
  | append_singleton cells m ih =>
    obtain ⟨g, c⟩ := m
    rw [ofCells, List.foldl_append, List.foldl_cons, List.foldl_nil, cell_insert, lastCell?,
      List.filter_append, List.map_append]
    by_cases hfg : f = g
    · simp [hfg]
    · have hother : [(g, c)].filter (fun m => decide (m.1 = f)) = [] :=
        List.filter_eq_nil_iff.2 fun m hm => by simpa [List.mem_singleton.1 hm] using Ne.symm hfg
      rw [if_neg hfg, hother, List.map_nil, List.append_nil]
      exact ih

/-- A cell of a record that is made of cells is one of them. -/
theorem mem_of_cell_ofCells (h : (ofCells cells).cell f = some c) : (f, c) ∈ cells := by
  rw [cell_ofCells] at h
  obtain ⟨⟨g, d⟩, hmem, rfl⟩ := List.mem_map.1 (List.mem_of_getLast? h)
  obtain ⟨hcells, hfield⟩ := List.mem_filter.1 hmem
  obtain rfl : g = f := of_decide_eq_true hfield
  exact hcells

/-- A field for which there is a cell has one in the record. -/
theorem exists_cell_ofCells (h : (f, c) ∈ cells) : ∃ d, (ofCells cells).cell f = some d := by
  have hmem : c ∈ (cells.filter fun m => m.1 = f).map Prod.snd :=
    List.mem_map.2 ⟨(f, c), List.mem_filter.2 ⟨h, decide_eq_true rfl⟩, rfl⟩
  rw [cell_ofCells, lastCell?]
  exact ⟨_, List.getLast?_eq_some_getLast (List.ne_nil_of_mem hmem)⟩

/-- The cells of a record are listed with their fields. -/
theorem mem_cells {r : Record} : (f, c) ∈ r.cells ↔ r.cell f = some c := by
  simp [Record.cells, Field.mem_all]

/-- Filled with the cells of a record, a record is that record. -/
theorem ofCells_cells (r : Record) : ofCells r.cells = r := by
  have hcell : (ofCells r.cells).cell = r.cell := by
    refine funext fun f => Option.ext fun c => ?_
    constructor
    · exact fun h => mem_cells.1 (mem_of_cell_ofCells h)
    · intro h
      obtain ⟨d, hd⟩ := exists_cell_ofCells (mem_cells.2 h)
      obtain rfl : d = c := Option.some.inj ((mem_cells.1 (mem_of_cell_ofCells hd)).symm.trans h)
      exact hd
  cases r
  exact congrArg Record.mk hcell

/-- A record of finite cells is finite. -/
theorem finite_ofCells (h : ∀ m ∈ cells, ∀ x, m.2 = .number x → x.isFinite = true) :
    (ofCells cells).Finite :=
  fun f x hx => h (f, .number x) (mem_of_cell_ofCells hx) x rfl

end CourseQuery.Record
