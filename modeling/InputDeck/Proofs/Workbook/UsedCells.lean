/-
Where the cells of a range stand on their sheet.

A range begins with the first row and the first column of the sheet that hold anything, and a reader
of the range counts from there.  So a cell of the range is to be looked for behind the rows and
columns that were left out in front (`shows_range`).  Behind the range a sheet holds nothing, nor is
there anything behind the cells of a row.
-/
import Mathlib.Data.List.Forall2
import Mathlib.Data.List.GetD
import InputDeck.Workbook.Sheet

namespace InputDeck
namespace Workbook
namespace Sheet

/-- What is stored in a cell.  Rows and columns are counted from zero, and cells that are not listed
are blank. -/
def stored (s : Sheet) (row column : Nat) : Stored := (s.rows.getD row []).getD column .blank

/-- What a cell of a sheet is read as. -/
def Shows (s : Sheet) (row column : Nat) (c : Cell) : Prop :=
  (s.stored row column).read? = some c

/-- That the used cells of a sheet begin in a row and a column. -/
structure Begins (s : Sheet) (top left : Nat) : Prop where
  above : ∀ row < top, ∀ column, s.stored row column = .blank
  before : ∀ column < left, ∀ row, s.stored row column = .blank
  row_used : ∃ column, s.stored top column ≠ .blank
  column_used : ∃ row, s.stored row left ≠ .blank

/-! ## Blank cells -/

theorem read?_eq_empty_iff {c : Stored} : c.read? = some .empty ↔ c = .blank := by
  have hnumeric (kind : Binary64 → Cell) (hkind : ∀ x, kind x ≠ .empty) (s : String) :
      Cell.ofNumeric kind s ≠ .empty := by
    unfold Cell.ofNumeric
    split <;> simp [hkind]
  cases c with
  | error code =>
      simp only [Stored.read?, reduceCtorEq, iff_false]
      split <;> simp
  | number s => simp [Stored.read?, hnumeric .number (by simp)]
  | date s => simp [Stored.read?, hnumeric .date (by simp)]
  | duration s => simp [Stored.read?, hnumeric .duration (by simp)]
  | _ => simp [Stored.read?]

variable {row : List Stored} {rows : List (List Stored)} {column : Nat}

theorem getD_of_isBlankRow (h : isBlankRow row = true) (column : Nat) :
    row.getD column .blank = .blank := by
  rw [List.getD_eq_getElem?_getD]
  cases hcell : row[column]? with
  | none => rfl
  | some c => simpa using List.all_eq_true.1 h c (List.mem_of_getElem? hcell)

theorem getD_of_lt_rowStart (h : column < rowStart row) : row.getD column .blank = .blank := by
  have hwhole := List.takeWhile_append_dropWhile (p := (· == .blank)) (l := row)
  rw [← hwhole, List.getD_append _ _ _ _ h]
  exact getD_of_isBlankRow List.all_takeWhile column

theorem getD_rowStart (h : isBlankRow row = false) : row.getD (rowStart row) .blank ≠ .blank := by
  have hwhole := List.takeWhile_append_dropWhile (p := (· == .blank)) (l := row)
  cases hrest : row.dropWhile (· == .blank) with
  | nil =>
      rw [hrest, List.append_nil] at hwhole
      rw [isBlankRow, ← hwhole, List.all_takeWhile] at h
      simp at h
  | cons c rest =>
      have hc := List.head?_dropWhile_not (p := (· == .blank)) (l := row)
      have hfirst : (row.takeWhile (· == .blank) ++ c :: rest).getD (rowStart row) .blank = c := by
        rw [rowStart, List.getD_append_right _ _ _ _ (Nat.le_refl _), Nat.sub_self]
        rfl
      rw [hrest] at hc hwhole
      rw [hwhole] at hfirst
      rw [hfirst]
      simpa using hc

theorem getD_of_rowEnd_le (h : rowEnd row ≤ column) : row.getD column .blank = .blank := by
  have hwhole := List.takeWhile_append_dropWhile (p := (· == .blank)) (l := row.reverse)
  have hrow : row = (row.reverse.dropWhile (· == .blank)).reverse ++
      (row.reverse.takeWhile (· == .blank)).reverse := by
    rw [← List.reverse_append, hwhole, List.reverse_reverse]
  rw [hrow, List.getD_append_right _ _ _ _ (by rwa [List.length_reverse])]
  apply getD_of_isBlankRow
  rw [isBlankRow, List.all_reverse]
  exact List.all_takeWhile

/-! ## Rows in use -/

/-- The row of the first used cell. -/
def top (s : Sheet) : Nat := (s.rows.takeWhile isBlankRow).length

/-- The column of the first used cell of any row. -/
def left (s : Sheet) : Nat :=
  ((((usedRows s.rows).filter fun row => !isBlankRow row).map rowStart).min?).getD 0

/-- The column behind the last used cell of any row. -/
def right (s : Sheet) : Nat := (((usedRows s.rows).map rowEnd).max?).getD 0

theorem usedCells_eq (s : Sheet) : s.usedCells = (usedRows s.rows).map fun row =>
    (List.range (s.right - s.left)).map fun column => row.getD (s.left + column) .blank := rfl

theorem exists_rows (rows : List (List Stored)) : ∃ below, (∀ row ∈ below, isBlankRow row = true) ∧
    rows = rows.takeWhile isBlankRow ++ (usedRows rows ++ below) := by
  refine ⟨((rows.dropWhile isBlankRow).reverse.takeWhile isBlankRow).reverse, ?_, ?_⟩
  · intro row hrow
    exact List.all_eq_true.1 List.all_takeWhile row (List.mem_reverse.1 hrow)
  · rw [usedRows, ← List.reverse_append, List.takeWhile_append_dropWhile, List.reverse_reverse,
      List.takeWhile_append_dropWhile]

variable {s : Sheet} {i : Nat}

theorem rows_of_usedRows (h : (usedRows s.rows)[i]? = some row) :
    s.rows.getD (s.top + i) [] = row := by
  obtain ⟨below, -, hrows⟩ := exists_rows s.rows
  have hi : i < (usedRows s.rows).length := (List.getElem?_eq_some_iff.1 h).1
  rw [hrows, top, List.getD_append_right _ _ _ _ (by omega), Nat.add_sub_cancel_left,
    List.getD_append _ _ _ _ hi, List.getD_eq_getElem?_getD, h]
  rfl

theorem stored_above (h : i < s.top) (column : Nat) : s.stored i column = .blank := by
  have hwhole := List.takeWhile_append_dropWhile (p := isBlankRow) (l := s.rows)
  rw [stored, ← hwhole, List.getD_append _ _ _ _ h, List.getD_eq_getElem _ _ h]
  exact getD_of_isBlankRow
    (List.all_eq_true.1 List.all_takeWhile _ (List.getElem_mem h)) column

theorem stored_below (h : s.top + (usedRows s.rows).length ≤ i) (column : Nat) :
    s.stored i column = .blank := by
  obtain ⟨below, hbelow, hrows⟩ := exists_rows s.rows
  rw [top] at h
  rw [stored, hrows, List.getD_append_right _ _ _ _ (by omega),
    List.getD_append_right _ _ _ _ (by omega), List.getD_eq_getElem?_getD (l := below)]
  cases hrow : below[i - (s.rows.takeWhile isBlankRow).length - (usedRows s.rows).length]? with
  | none => rfl
  | some row => exact getD_of_isBlankRow (hbelow row (List.mem_of_getElem? hrow)) column

/-- A row of the sheet is blank or one of the used ones. -/
theorem stored_cases (s : Sheet) (i : Nat) : (∀ column, s.stored i column = .blank) ∨
    ∃ row ∈ usedRows s.rows, ∀ column, s.stored i column = row.getD column .blank := by
  by_cases habove : i < s.top
  · exact Or.inl (stored_above habove)
  by_cases hbelow : s.top + (usedRows s.rows).length ≤ i
  · exact Or.inl (stored_below hbelow)
  · have hi : i - s.top < (usedRows s.rows).length := by omega
    have hrow := rows_of_usedRows (List.getElem?_eq_getElem hi)
    rw [Nat.add_sub_cancel' (Nat.le_of_not_lt habove)] at hrow
    exact Or.inr ⟨_, List.getElem_mem hi, fun column => by rw [stored, hrow]⟩

/-! ## Columns in use -/

theorem getD_of_lt_left (hrow : row ∈ usedRows s.rows) (h : column < s.left) :
    row.getD column .blank = .blank := by
  cases hblank : isBlankRow row with
  | true => exact getD_of_isBlankRow hblank column
  | false =>
      have hmem : rowStart row ∈
          ((usedRows s.rows).filter fun row => !isBlankRow row).map rowStart :=
        List.mem_map_of_mem (List.mem_filter.2 ⟨hrow, by simp [hblank]⟩)
      apply getD_of_lt_rowStart
      refine Nat.lt_of_lt_of_le h ?_
      rw [left]
      cases hmin : (((usedRows s.rows).filter fun row => !isBlankRow row).map rowStart).min? with
      | none => exact Nat.zero_le _
      | some least => exact (List.min?_eq_some_iff.1 hmin).2 _ hmem

theorem getD_of_right_le (hrow : row ∈ usedRows s.rows) (h : s.right ≤ column) :
    row.getD column .blank = .blank := by
  have hmem : rowEnd row ∈ (usedRows s.rows).map rowEnd := List.mem_map_of_mem hrow
  apply getD_of_rowEnd_le
  refine Nat.le_trans ?_ h
  rw [right]
  cases hmax : ((usedRows s.rows).map rowEnd).max? with
  | none =>
      rw [List.max?_eq_none_iff] at hmax
      simp [hmax] at hmem
  | some most => exact (List.max?_eq_some_iff.1 hmax).2 _ hmem

theorem isBlankRow_of_head? (h : (usedRows s.rows).head? = some row) : isBlankRow row = false := by
  obtain ⟨below, -, hrows⟩ := exists_rows s.rows
  have hwhole := List.takeWhile_append_dropWhile (p := isBlankRow) (l := s.rows)
  have hrest : s.rows.dropWhile isBlankRow = usedRows s.rows ++ below :=
    List.append_cancel_left (hwhole.trans hrows)
  have hhead := List.head?_dropWhile_not (p := isBlankRow) (l := s.rows)
  rw [hrest, List.head?_append, h] at hhead
  simpa using hhead

/-- The top and left of the used rows are where the used cells of a sheet begin. -/
theorem begins_top_left (h : usedRows s.rows ≠ []) : s.Begins s.top s.left := by
  obtain ⟨first, rest, hused⟩ := List.exists_cons_of_ne_nil h
  have hfirst : isBlankRow first = false := isBlankRow_of_head? (by rw [hused]; rfl)
  refine ⟨fun i hi => stored_above hi, ?_, ⟨rowStart first, ?_⟩, ?_⟩
  · intro column hcolumn i
    rcases stored_cases s i with hblank | ⟨row, hrow, hcells⟩
    · exact hblank column
    · rw [hcells, getD_of_lt_left hrow hcolumn]
  · have hrow : s.rows.getD (s.top + 0) [] = first := rows_of_usedRows (by rw [hused]; rfl)
    rw [Nat.add_zero] at hrow
    rw [stored, hrow]
    exact getD_rowStart hfirst
  · have hmem : rowStart first ∈
        ((usedRows s.rows).filter fun row => !isBlankRow row).map rowStart := by
      apply List.mem_map_of_mem
      simp [hused, hfirst]
    cases hmin : (((usedRows s.rows).filter fun row => !isBlankRow row).map rowStart).min? with
    | none =>
        rw [List.min?_eq_none_iff] at hmin
        simp [hmin] at hmem
    | some least =>
        obtain ⟨row, hrow, hstart⟩ := List.mem_map.1 (List.min?_eq_some_iff.1 hmin).1
        obtain ⟨hrow, hblank⟩ := List.mem_filter.1 hrow
        obtain ⟨i, hi⟩ := List.mem_iff_getElem?.1 hrow
        refine ⟨s.top + i, ?_⟩
        rw [stored, rows_of_usedRows hi, left, hmin, Option.getD_some, ← hstart]
        exact getD_rowStart (by simpa using hblank)

theorem Begins.unique {top left top' left' : Nat} (h : s.Begins top left)
    (h' : s.Begins top' left') : top = top' ∧ left = left' := by
  obtain ⟨column, hcolumn⟩ := h.row_used
  obtain ⟨column', hcolumn'⟩ := h'.row_used
  obtain ⟨row, hrow⟩ := h.column_used
  obtain ⟨row', hrow'⟩ := h'.column_used
  constructor
  · refine Nat.le_antisymm (Nat.le_of_not_lt fun hlt => ?_) (Nat.le_of_not_lt fun hlt => ?_)
    · exact hcolumn' (h.above _ hlt _)
    · exact hcolumn (h'.above _ hlt _)
  · refine Nat.le_antisymm (Nat.le_of_not_lt fun hlt => ?_) (Nat.le_of_not_lt fun hlt => ?_)
    · exact hrow' (h.before _ hlt _)
    · exact hrow (h'.before _ hlt _)

/-! ## Cells of the range -/

theorem forall₂_of_mapM {α β : Type} {f : α → Option β} {items : List α} {images : List β}
    (h : items.mapM f = some images) :
    List.Forall₂ (fun item image => f item = some image) items images := by
  induction items generalizing images with
  | nil =>
      obtain rfl := Option.some.inj h
      exact .nil
  | cons item rest ih =>
      rw [List.mapM_cons] at h
      obtain ⟨image, hitem, hmore⟩ := Option.bind_eq_some_iff.1 h
      obtain ⟨more, hrest, himages⟩ := Option.bind_eq_some_iff.1 hmore
      obtain rfl := Option.some.inj himages
      exact .cons hitem (ih hrest)

variable {range : List (List Cell)} {cells : List Cell}

theorem length_range (h : s.range? = some range) : range.length = (usedRows s.rows).length := by
  rw [← (forall₂_of_mapM h).length_eq, usedCells_eq, List.length_map]

/-- A cell of the range is read from the cell of the sheet as far below the first used row and as
far behind the first used column.  Where the range ends the sheet is blank. -/
theorem shows_range (h : s.range? = some range) (hcells : range[i]? = some cells) (j : Nat) :
    s.Shows (s.top + i) (s.left + j) (cells.getD j .empty) := by
  have hrows := forall₂_of_mapM h
  have hi : i < s.usedCells.length := by
    rw [hrows.length_eq]
    exact (List.getElem?_eq_some_iff.1 hcells).1
  have hi' : i < (usedRows s.rows).length := by rwa [usedCells_eq, List.length_map] at hi
  obtain ⟨hi'', rfl⟩ := List.getElem?_eq_some_iff.1 hcells
  have hread := hrows.get hi hi''
  have hrow := rows_of_usedRows (List.getElem?_eq_getElem hi')
  have hstored (j : Nat) : s.stored (s.top + i) (s.left + j) =
      ((usedRows s.rows)[i]).getD (s.left + j) .blank := by
    rw [stored, hrow]
  simp only [List.get_eq_getElem, usedCells_eq, List.getElem_map] at hread
  have hcolumns := forall₂_of_mapM hread
  have hlength := hcolumns.length_eq
  rw [List.length_map, List.length_range] at hlength
  rw [Shows, hstored]
  by_cases hj : j < range[i].length
  · have hcell := hcolumns.get (by simpa [hlength] using hj) hj
    simp only [List.get_eq_getElem, List.getElem_map, List.getElem_range] at hcell
    rw [List.getD_eq_getElem _ _ hj]
    exact hcell
  · rw [List.getD_eq_default _ _ (Nat.le_of_not_lt hj),
      getD_of_right_le (List.getElem_mem hi') (by omega)]
    rfl

end Sheet
end Workbook
end InputDeck
