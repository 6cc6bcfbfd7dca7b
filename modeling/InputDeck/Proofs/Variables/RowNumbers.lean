/-
Which row of a sheet is meant when a row is reported.

A reported row is named by a number.  It counts rows from the first one in use, so on a sheet that
is blank at the top the row stands as much further down, and the number is the row's own only if the
first row of the sheet is used.  What is said of the row is true of the row meant: it has the
reported name and the reported cell, or nothing behind the name, and it is the first row below the
header that is to be reported (`row_of_load`).
-/
import InputDeck.Proofs.Generation.Jobs
import InputDeck.Proofs.Variables.Worksheet
import InputDeck.Proofs.Workbook.UsedCells

namespace InputDeck

open Workbook

/-- The faults that are reported with the number of a row: with what a cell of it shows, or that it
has no value. -/
inductive Fault.NamesRow : Fault → String → Nat → Option String → Prop
  | cell (key : String) (number : Nat) (shown : String) :
      NamesRow (.mismatch (.cell key number shown)) key number (some shown)
  | noValue (key : String) (number : Nat) :
      NamesRow (.workbook (.noValue key number)) key number none

theorem Fault.NamesRow.unique {fault : Fault} {key key' : String} {number number' : Nat}
    {shown shown' : Option String} (h : fault.NamesRow key number shown)
    (h' : fault.NamesRow key' number' shown') : key = key' ∧ number = number' ∧ shown = shown' := by
  cases h <;> cases h' <;> exact ⟨rfl, rfl, rfl⟩

namespace Variables

/-- The words in which a row is reported. -/
def rowMessage (key : String) (number : Nat) : Option String → String
  | some shown =>
      let cause := s!"variable '{key}' on sheet row {number} contains '{shown}', expected a number"
      s!"variable source type mismatch: {cause}"
  | none => s!"invalid workbook structure: variable '{key}' on sheet row {number} has no value"

/-- That a row of a sheet, counted from zero, is one to be reported.  It has a name in the column of
names, and behind that, blank cells at the end left aside, the first cell that holds no number shows
the text, or all cells are blank. -/
inductive Offends (s : Sheet) (left row : Nat) (key : String) : Option String → Prop
  | cell {name c : Cell} {column last : Nat} (hname : s.Shows row left name)
      (hkey : String.ofList (Text.trim name.shown) = key) (hne : key ≠ "")
      (hcolumn : left < column) (hc : s.Shows row column c) (hnone : ∀ x, ¬Holds c x)
      (hbefore : ∀ k, left < k → k < column → ∃ b x, s.Shows row k b ∧ Holds b x)
      (hlast : column ≤ last) (hused : s.stored row last ≠ .blank) :
      Offends s left row key (some (String.ofList c.shown))
  | noValue {name : Cell} (hname : s.Shows row left name)
      (hkey : String.ofList (Text.trim name.shown) = key) (hne : key ≠ "")
      (hblank : ∀ column, left < column → s.stored row column = .blank) :
      Offends s left row key none

/-! ## Cells behind the name -/

namespace Row

variable {row : Row}

theorem getD_of_all_empty {cells : List Cell} (h : ∀ c ∈ cells, c = .empty) (k : Nat) :
    cells.getD k .empty = .empty := by
  rw [List.getD_eq_getElem?_getD]
  cases hcell : cells[k]? with
  | none => rfl
  | some c => exact h c (List.mem_of_getElem? hcell)

/-- The cells left out at the end are empty like the ones that do not exist. -/
theorem getD_data (row : Row) (k : Nat) :
    row.data.getD k .empty = row.cells.getD (k + 1) .empty := by
  have hdrop : row.cells.getD (k + 1) .empty = (row.cells.drop 1).getD k .empty := by
    rw [List.getD_eq_getElem?_getD, List.getD_eq_getElem?_getD, List.getElem?_drop,
      Nat.add_comm]
  have hcells : row.data ++ (row.cells.drop 1).rtakeWhile (· == .empty) = row.cells.drop 1 := by
    rw [data, List.rdropWhile, List.rtakeWhile, ← List.reverse_append,
      List.takeWhile_append_dropWhile, List.reverse_reverse]
  have hempty : ∀ c ∈ (row.cells.drop 1).rtakeWhile (· == .empty), c = .empty := by
    intro c hc
    simpa using List.mem_rtakeWhile_imp hc
  rw [hdrop, ← hcells]
  by_cases hk : k < row.data.length
  · rw [List.getD_append _ _ _ _ hk]
  · rw [List.getD_eq_default _ _ (Nat.le_of_not_lt hk),
      List.getD_append_right _ _ _ _ (Nat.le_of_not_lt hk), getD_of_all_empty hempty]

theorem getD_length_data (h : row.data ≠ []) :
    row.cells.getD row.data.length .empty ≠ .empty := by
  have hlast : row.data.getLast h ≠ .empty := fun e =>
    List.rdropWhile_last_not (· == Cell.empty) (row.cells.drop 1) h (beq_iff_eq.2 e)
  have hpos := List.length_pos_iff.2 h
  have hindex : row.data.length - 1 + 1 = row.data.length := by omega
  rw [List.getLast_eq_getElem] at hlast
  rw [← hindex, ← getD_data, List.getD_eq_getElem _ _ (by omega)]
  exact hlast

theorem data_eq_nil_iff : row.data = [] ↔ ∀ k, row.cells.getD (k + 1) .empty = .empty := by
  constructor
  · intro h k
    rw [← getD_data, h]
    rfl
  · intro h
    by_contra hne
    have hpos := List.length_pos_iff.2 hne
    refine getD_length_data hne ?_
    rw [← Nat.sub_add_cancel hpos]
    exact h _

/-- A cell in front of a used one is among those behind the name. -/
theorem lt_length_data {k last : Nat} (hk : k ≤ last)
    (h : row.cells.getD (last + 1) .empty ≠ .empty) : k < row.data.length := by
  by_contra hle
  refine h ?_
  rw [← getD_data, List.getD_eq_default _ _ (by omega)]

end Row

/-! ## Rows of a range and rows of the sheet -/

section Range

variable {s : Sheet} {range : List (List Cell)} {i : Nat} {cells : List Cell}
  (hrange : s.range? = some range) (hcells : range[i]? = some cells)
include hrange hcells

theorem stored_eq_blank_iff (j : Nat) :
    s.stored (s.top + i) (s.left + j) = .blank ↔ cells.getD j .empty = .empty := by
  have hshows := Sheet.shows_range hrange hcells j
  rw [Sheet.Shows] at hshows
  rw [← Sheet.read?_eq_empty_iff, hshows, Option.some.injEq]

theorem shows_iff (j : Nat) {c : Cell} :
    s.Shows (s.top + i) (s.left + j) c ↔ c = cells.getD j .empty := by
  have hshows := Sheet.shows_range hrange hcells j
  rw [Sheet.Shows] at hshows ⊢
  rw [hshows, Option.some.injEq, eq_comm]

omit hrange hcells in
theorem Row.name_eq_getD (number : Nat) (cells : List Cell) :
    Row.name ⟨number, cells⟩ = String.ofList (Text.trim (cells.getD 0 .empty).shown) := by
  cases cells <;> rfl

theorem faulty_of_offends (number : Nat) {key : String} {shown : Option String}
    (h : Offends s s.left (s.top + i) key shown) :
    key = Row.name ⟨number, cells⟩ ∧ key ≠ "" ∧ ∃ fault, Row.Faulty ⟨number, cells⟩ fault := by
  have hfirst {name : Cell} (hname : s.Shows (s.top + i) s.left name) :
      String.ofList (Text.trim name.shown) = Row.name ⟨number, cells⟩ := by
    rw [Row.name_eq_getD, (shows_iff hrange hcells 0).1 hname]
  cases h with
  | noValue hname hkey hne hblank =>
      refine ⟨hkey ▸ hfirst hname, hne, _, .noValue (Row.data_eq_nil_iff.2 fun k => ?_)⟩
      exact (stored_eq_blank_iff hrange hcells _).1 (hblank _ (by omega))
  | @cell name c column last hname hkey hne hcolumn hc hnone hbefore hlast hused =>
      obtain ⟨k, rfl⟩ : ∃ k, column = s.left + (k + 1) := ⟨column - s.left - 1, by omega⟩
      obtain ⟨m, rfl⟩ : ∃ m, last = s.left + (m + 1) := ⟨last - s.left - 1, by omega⟩
      have hm : cells.getD (m + 1) .empty ≠ .empty := fun e =>
        hused ((stored_eq_blank_iff hrange hcells _).2 e)
      have hkm : k ≤ m := by omega
      have hk : k < (Row.data ⟨number, cells⟩).length := Row.lt_length_data hkm hm
      have hcell (j : Nat) (hj : j < (Row.data ⟨number, cells⟩).length) :
          (Row.data ⟨number, cells⟩)[j] = cells.getD (j + 1) .empty := by
        rw [← List.getD_eq_getElem _ .empty hj, Row.getD_data]
      have hsplit : Row.data ⟨number, cells⟩ =
          (Row.data ⟨number, cells⟩).take k ++ c :: (Row.data ⟨number, cells⟩).drop (k + 1) := by
        rw [(shows_iff hrange hcells _).1 hc, ← hcell k hk, ← List.drop_eq_getElem_cons,
          List.take_append_drop]
      refine ⟨hkey ▸ hfirst hname, hne, _, .cell hsplit ?_ hnone⟩
      intro b hb
      obtain ⟨j, hj, rfl⟩ := List.mem_iff_getElem.1 hb
      rw [List.length_take] at hj
      obtain ⟨b, x, hshows, hx⟩ := hbefore (s.left + (j + 1)) (by omega) (by omega)
      rw [List.getElem_take, hcell j (by omega), ← (shows_iff hrange hcells _).1 hshows]
      exact ⟨x, hx⟩

theorem offends_of_faulty {number : Nat} {fault : Fault}
    (hname : Row.name ⟨number, cells⟩ ≠ "") (h : Row.Faulty ⟨number, cells⟩ fault) :
    ∃ shown, fault.NamesRow (Row.name ⟨number, cells⟩) number shown ∧
      Offends s s.left (s.top + i) (Row.name ⟨number, cells⟩) shown := by
  have hfirst : s.Shows (s.top + i) s.left (cells.getD 0 .empty) :=
    (shows_iff hrange hcells 0).2 rfl
  have hkey := (Row.name_eq_getD number cells).symm
  cases h with
  | noValue hdata =>
      refine ⟨_, .noValue _ _, .noValue hfirst hkey hname ?_⟩
      intro column hcolumn
      obtain ⟨k, rfl⟩ : ∃ k, column = s.left + (k + 1) := ⟨column - s.left - 1, by omega⟩
      exact (stored_eq_blank_iff hrange hcells _).2 (Row.data_eq_nil_iff.1 hdata k)
  | @cell before after c hdata hbefore hnone =>
      have hne : Row.data ⟨number, cells⟩ ≠ [] := by simp [hdata]
      have hlast := Row.getD_length_data hne
      have hlength : before.length < (Row.data ⟨number, cells⟩).length := by simp [hdata]
      have hcell (j : Nat) : s.Shows (s.top + i) (s.left + (j + 1))
          ((before ++ c :: after).getD j .empty) := by
        rw [shows_iff hrange hcells, ← hdata, Row.getD_data]
      have hc : s.Shows (s.top + i) (s.left + (before.length + 1)) c := by
        have hat := hcell before.length
        rwa [List.getD_append_right _ _ _ _ (Nat.le_refl _), Nat.sub_self] at hat
      have hused : s.stored (s.top + i) (s.left + (Row.data ⟨number, cells⟩).length) ≠ .blank :=
        fun e => hlast ((stored_eq_blank_iff hrange hcells _).1 e)
      refine ⟨_, .cell _ _ _, .cell hfirst hkey hname (by omega) hc hnone ?_ (by omega) hused⟩
      intro column hleft hcolumn
      obtain ⟨j, rfl⟩ : ∃ j, column = s.left + (j + 1) := ⟨column - s.left - 1, by omega⟩
      have hj : j < before.length := by omega
      have hb := hcell j
      rw [List.getD_append _ _ _ _ hj, List.getD_eq_getElem _ _ hj] at hb
      obtain ⟨x, hx⟩ := hbefore _ (List.getElem_mem hj)
      exact ⟨_, x, hb, hx⟩

end Range

/-! ## The rows that are read -/

section Rows

variable {s : Sheet} {range : List (List Cell)} {fault : Fault} {key : String} {number : Nat}
  {shown : Option String}

theorem mem_rows_iff {row : Row} : row ∈ rows range ↔
    ∃ i, 0 < i ∧ range[i]? = some row.cells ∧ row.number = i + 1 ∧ row.name ≠ "" := by
  obtain ⟨number, cells⟩ := row
  rw [rows, rowsFrom, List.mem_filter, List.mem_map, decide_eq_true_iff]
  constructor
  · rintro ⟨⟨⟨c, n⟩, hmem, hrow⟩, hname⟩
    obtain ⟨rfl, rfl⟩ := Row.mk.inj hrow
    obtain ⟨hle, hcells⟩ := List.mk_mem_zipIdx_iff_le_and_getElem?_sub.1 hmem
    rw [List.getElem?_drop] at hcells
    exact ⟨1 + (n - 2), by omega, hcells, by dsimp only; omega, hname⟩
  · rintro ⟨i, hpos, hcells, hnumber, hname⟩
    refine ⟨⟨(cells, number), List.mk_mem_zipIdx_iff_le_and_getElem?_sub.2 ⟨?_, ?_⟩, rfl⟩, hname⟩
    · dsimp only at hnumber
      omega
    · dsimp only at hnumber hcells
      rw [List.getElem?_drop, ← hcells]
      congr 1
      omega

theorem pairwise_rows (range : List (List Cell)) :
    (rows range).Pairwise fun row other => row.number < other.number := by
  apply List.Pairwise.filter
  have hnumbers : (((range.drop 1).zipIdx 2).map Prod.snd).Pairwise (· < ·) := by
    rw [List.zipIdx_map_snd]
    exact List.pairwise_lt_range'
  exact List.pairwise_map.2 (List.pairwise_map.1 hnumbers)

/-- The rows stand in the order of their numbers. -/
theorem mem_of_number_lt {before after : List Row} {row other : Row}
    (hrows : rows range = before ++ row :: after) (hmem : other ∈ rows range)
    (hlt : other.number < row.number) : other ∈ before := by
  have horder := pairwise_rows range
  rw [hrows, List.pairwise_append] at horder
  rw [hrows, List.mem_append, List.mem_cons] at hmem
  rcases hmem with hmem | rfl | hmem
  · exact hmem
  · omega
  · have hgt := (List.pairwise_cons.1 horder.2.1).1 _ hmem
    omega

/-- The first row of a range that is at fault is the first row of the sheet to be reported. -/
theorem exists_offends (hrange : s.range? = some range) (h : Reads (rows range) (.error fault))
    (hnames : fault.NamesRow key number shown) :
    s.Begins s.top s.left ∧ ∃ row, 0 < row ∧ number = row + 1 ∧
      Offends s s.left (s.top + row) key shown ∧
      ∀ earlier, 0 < earlier → earlier < row → ∀ other shown',
        ¬Offends s s.left (s.top + earlier) other shown' := by
  generalize hrows : rows range = all at h
  cases h with
  | ragged => cases hnames
  | @faulty before after row fault hbefore hfaulty =>
      obtain ⟨n, cells⟩ := row
      have hmem : (⟨n, cells⟩ : Row) ∈ rows range := by simp [hrows]
      obtain ⟨i, hpos, hcells, rfl, hname⟩ := mem_rows_iff.1 hmem
      obtain ⟨shown', hnames', hoffends⟩ := offends_of_faulty hrange hcells hname hfaulty
      obtain ⟨rfl, rfl, rfl⟩ := hnames.unique hnames'
      have hused : Sheet.usedRows s.rows ≠ [] := by
        intro hnil
        have hlength := Sheet.length_range hrange
        rw [hnil, List.length_nil, List.length_eq_zero_iff] at hlength
        simp [hlength] at hcells
      refine ⟨Sheet.begins_top_left hused, i, hpos, rfl, hoffends, ?_⟩
      intro earlier hearlier hlt other shown' hoffends'
      have hi := (List.getElem?_eq_some_iff.1 hcells).1
      have hcells' := List.getElem?_eq_getElem (Nat.lt_trans hlt hi)
      obtain ⟨hother, hne, fault', hfaulty'⟩ :=
        faulty_of_offends hrange hcells' (earlier + 1) hoffends'
      have hmem' : (⟨earlier + 1, range[earlier]⟩ : Row) ∈ rows range :=
        mem_rows_iff.2 ⟨earlier, hearlier, hcells', rfl, hother ▸ hne⟩
      have hlt' : earlier + 1 < i + 1 := by omega
      obtain ⟨entry, hgives⟩ := hbefore _ (mem_of_number_lt hrows hmem' hlt')
      have hread := Row.read_eq_ok_iff.2 hgives
      rw [Row.read_eq_error_iff.2 hfaulty'] at hread
      cases hread

end Rows

/-! ## Files -/

theorem not_namesRow_of_ofJsonText {cs : List Char} {fault : Fault} {key : String} {number : Nat}
    {shown : Option String} (h : ofJsonText cs = .error fault) :
    ¬fault.NamesRow key number shown := by
  intro hnames
  unfold ofJsonText at h
  split at h
  · obtain rfl := Except.error.inj h
    cases hnames
  · rename_i v _
    obtain ⟨result, hloads⟩ := exists_loads v
    rw [ofDocument_of_loads hloads] at h
    subst h
    cases hloads with
    | item | other => cases hnames
    | member _ hrefuses => cases hrefuses <;> cases hnames

theorem not_namesRow_of_text {fs : FileSystem} {p : Path} {fault : Fault} {key : String}
    {number : Nat} {shown : Option String} (h : fs.text p = .error fault) :
    ¬fault.NamesRow key number shown := by
  intro hnames
  unfold FileSystem.text at h
  split at h
  · obtain rfl := Except.error.inj h
    cases hnames
  · obtain rfl := Except.error.inj h
    cases hnames
  · split at h
    · cases h
    · obtain rfl := Except.error.inj h
      cases hnames

/-- A row that is reported is one of the sheet of variables, and the first to be reported below the
header; names stand in the first column in use.  Its number is counted from the first row in use and
is less than the row's own in the sheet by as many rows as are blank in front of that. -/
theorem row_of_load {p : Path} {format : Option DocumentFormat} {fs fs' : FileSystem}
    {fault : Fault} {key : String} {number : Nat} {shown : Option String}
    (h : Job.on (load p format) fs = (.error fault, fs'))
    (hnames : fault.NamesRow key number shown) :
    fault.message = rowMessage key number shown ∧
    ∃ book sheet top left, fs.read p = .ok (.workbook book) ∧
      book.sheet? sheetName = some sheet ∧ sheet.Begins top left ∧
      ∃ row, 0 < row ∧ number = row + 1 ∧ Offends sheet left (top + row) key shown ∧
        ∀ earlier, 0 < earlier → earlier < row → ∀ other shown',
          ¬Offends sheet left (top + earlier) other shown' := by
  refine ⟨by cases hnames <;> rfl, ?_⟩
  rw [on_load] at h
  have hload := (Prod.mk.inj h).1
  match hformat : format.or (DocumentFormat.ofPath? p) with
  | none =>
      rw [hformat] at hload
      obtain rfl := Except.error.inj hload
      cases hnames
  | some .json =>
      rw [hformat, FileSystem.variablesAs, Result.bind_eq_error_iff] at hload
      rcases hload with htext | ⟨cs, -, hread⟩
      · exact absurd hnames (not_namesRow_of_text htext)
      · exact absurd hnames (not_namesRow_of_ofJsonText hread)
  | some .workbook =>
      rw [hformat, FileSystem.variablesAs] at hload
      split at hload
      · rename_i book hread
        unfold ofWorkbook at hload
        split at hload
        · obtain rfl := Except.error.inj hload
          cases hnames
        · rename_i sheet hsheet
          split at hload
          · obtain rfl := Except.error.inj hload
            cases hnames
          · rename_i range hrange
            obtain ⟨hbegins, hrow⟩ :=
              exists_offends hrange ((ofRange_eq_iff range _).1 hload) hnames
            exact ⟨book, sheet, sheet.top, sheet.left, hread, hsheet, hbegins, hrow⟩
      · obtain rfl := Except.error.inj hload
        cases hnames

/-! A sheet whose first row and first column are blank. -/

def loweredSheet : Sheet :=
  ⟨sheetName, [[], [.blank, .text "name", .text "value"], [.blank, .text "mass", .text "heavy"]]⟩

def loweredFiles : FileSystem :=
  FileSystem.root.insert [Text.utf8 "v.xlsx"] (.file (.workbook ⟨[loweredSheet]⟩))

theorem load_loweredFiles : Job.on (load (.ofString "v.xlsx") none) loweredFiles =
    (.error (.mismatch (.cell "mass" 2 "heavy")), loweredFiles) := by
  have hformat : DocumentFormat.ofPath? (.ofString "v.xlsx") = some .workbook := by decide
  have hread : loweredFiles.read (.ofString "v.xlsx") = .ok (.workbook ⟨[loweredSheet]⟩) := rfl
  have hbook : ofWorkbook ⟨[loweredSheet]⟩ = .error (.mismatch (.cell "mass" 2 "heavy")) := rfl
  rw [on_load, Option.none_or, hformat, FileSystem.variablesAs, hread]
  exact congrArg (·, loweredFiles) hbook

theorem row_of_load_lowered : Job.on (load (.ofString "v.xlsx") none) loweredFiles =
      (.error (.mismatch (.cell "mass" 2 "heavy")), loweredFiles) ∧
    Offends loweredSheet 1 2 "mass" (some "heavy") := by
  obtain ⟨-, book, sheet, top, left, hread, hsheet, hbegins, row, -, hnumber, hoffends, -⟩ :=
    row_of_load load_loweredFiles (.cell "mass" 2 "heavy")
  have hbook : book = ⟨[loweredSheet]⟩ := by
    have hfile : loweredFiles.read (.ofString "v.xlsx") = .ok (.workbook ⟨[loweredSheet]⟩) := rfl
    rw [hfile] at hread
    cases hread
    rfl
  subst hbook
  obtain rfl : loweredSheet = sheet := Option.some.inj hsheet
  have hused : Sheet.usedRows loweredSheet.rows ≠ [] := by decide
  obtain ⟨htop, hleft⟩ := hbegins.unique (Sheet.begins_top_left hused)
  have hone : loweredSheet.top = 1 ∧ loweredSheet.left = 1 := by decide
  have hrow : top + row = 2 := by omega
  rw [hrow, hleft, hone.2] at hoffends
  exact ⟨load_loweredFiles, hoffends⟩

/-- The header is in the row that is named here, and what is reported stands in the one below. -/
theorem named_row_lowered : Job.on (load (.ofString "v.xlsx") none) loweredFiles =
      (.error (.mismatch (.cell "mass" 2 "heavy")), loweredFiles) ∧
    Fault.message (.mismatch (.cell "mass" 2 "heavy")) = "variable source type mismatch: " ++
      "variable 'mass' on sheet row 2 contains 'heavy', expected a number" ∧
    (∀ column c, loweredSheet.Shows 1 column c →
      c.shown ≠ "mass".toList ∧ c.shown ≠ "heavy".toList) ∧
    loweredSheet.Shows 2 1 (.text "mass") ∧ loweredSheet.Shows 2 2 (.text "heavy") := by
  refine ⟨load_loweredFiles, rfl, ?_, rfl, rfl⟩
  intro column c hc
  have hcells : c = .empty ∨ c = .text "name" ∨ c = .text "value" := by
    match column with
    | 0 => exact Or.inl (Option.some.inj hc).symm
    | 1 => exact Or.inr (Or.inl (Option.some.inj hc).symm)
    | 2 => exact Or.inr (Or.inr (Option.some.inj hc).symm)
    | _ + 3 => exact Or.inl (Option.some.inj hc).symm
  rcases hcells with rfl | rfl | rfl <;> decide

end Variables
end InputDeck
