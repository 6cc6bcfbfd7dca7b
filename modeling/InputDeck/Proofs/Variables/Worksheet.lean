/-
What the sheet of variables is read as, told row by row.

`Reads` is the account of a sheet that does not look at how it is read: the first row with a fault
in the order of the sheet, whatever comes behind it; without one the first name in the order of
bytes whose rows differ in length; and otherwise a value for every name on the sheet.
`ofRange_eq_iff` says that reading comes to that for every range.

The two orders are kept apart in the proof: the pass over the sheet is `mapM` over its named rows,
the pass over the names is `mapM` over a table, and each has its first error.
-/
import Mathlib.Data.List.DropRight
import InputDeck.Proofs.Variables.Document
import InputDeck.Variables.Worksheet

namespace InputDeck
namespace Variables

open Workbook

/-- What a cell holds as a number.  Cells of other kinds and other text hold none. -/
inductive Holds : Cell → Scalar → Prop
  | integer (n : Int64) : Holds (.integer n) (.integer n)
  | number (x : Binary64) : Holds (.number x) (Scalar.ofBinary64 x)
  | whole {s : String} {n : Int64} (h : Number.readInt64 (Text.trim s.toList) = some n) :
      Holds (.text s) (.integer n)
  | real {s : String} {x : Binary64} (hwhole : Number.readInt64 (Text.trim s.toList) = none)
      (h : Number.readBinary64 (Text.trim s.toList) = some x) : Holds (.text s) (.real x)

/-- A row of a sheet and its number. -/
structure Row where
  number : Nat
  cells : List Cell

namespace Row

def name (row : Row) : String := String.ofList (Text.trim (row.cells.headD .empty).shown)

/-- The cells behind the name, without the empty ones at the end. -/
def data (row : Row) : List Cell := (row.cells.drop 1).rdropWhile (· == .empty)

/-- That a row gives these numbers to its name: one for each cell, and at least one. -/
def Gives (row : Row) (entry : String × List Scalar) : Prop :=
  entry.1 = row.name ∧ row.data ≠ [] ∧ List.Forall₂ Holds row.data entry.2

inductive Faulty (row : Row) : Fault → Prop
  | noValue (h : row.data = []) : Faulty row (.workbook (.noValue row.name row.number))
  | cell {left right : List Cell} {c : Cell} (hdata : row.data = left ++ c :: right)
      (hleft : ∀ b ∈ left, ∃ s, Holds b s) (hc : ∀ s, ¬Holds c s) :
      Faulty row (.mismatch (.cell row.name row.number (String.ofList c.shown)))

end Row

/-- The rows with a name, of which the first has number `number`. -/
def rowsFrom (number : Nat) (below : List (List Cell)) : List Row :=
  ((below.zipIdx number).map fun e => ⟨e.2, e.1⟩).filter fun row : Row => row.name ≠ ""

/-- The rows with a name below the header of a range. -/
def rows (range : List (List Cell)) : List Row := rowsFrom 2 (range.drop 1)

/-- That two rows of a name differ in length. -/
def Ragged (rows : List Row) (name : String) : Prop :=
  ∃ row ∈ rows, ∃ other ∈ rows, row.name = name ∧ other.name = name ∧
    row.data.length ≠ other.data.length

/-- The rows of numbers given to a name, in their order. -/
def rowsOf (entries : List (String × List Scalar)) (name : String) : List (List Scalar) :=
  (entries.filter (·.1 == name)).map Prod.snd

/-- The value that rows of numbers make. -/
inductive Shapes : List (List Scalar) → Option Value → Prop
  | absent : Shapes [] none
  | scalar (s : Scalar) : Shapes [[s]] (some (.scalar s))
  | vector {row : List Scalar} (h : 2 ≤ row.length) : Shapes [row] (some (.vector row))
  | matrix {rows : List (List Scalar)} (h : 2 ≤ rows.length) : Shapes rows (some (.matrix rows))

/-- What the named rows of a sheet are read as. -/
inductive Reads : List Row → Except Fault Variables → Prop
  | faulty {before after : List Row} {row : Row} {fault : Fault}
      (hbefore : ∀ r ∈ before, ∃ entry, r.Gives entry) (h : row.Faulty fault) :
      Reads (before ++ row :: after) (.error fault)
  | ragged {rows : List Row} {entries : List (String × List Scalar)} {name : String}
      (hgood : List.Forall₂ Row.Gives rows entries) (h : Ragged rows name)
      (hfirst : ∀ {other}, Text.utf8 other < Text.utf8 name → ¬Ragged rows other) :
      Reads rows (.error (.mismatch (.rowLengths name)))
  | named {rows : List Row} {entries : List (String × List Scalar)} {values : Table String Value}
      (hgood : List.Forall₂ Row.Gives rows entries) (heven : ∀ name, ¬Ragged rows name)
      (h : ∀ name, Shapes (rowsOf entries name) (values.get? name)) :
      Reads rows (.ok (.named values))

/-! ## Cells -/

theorem cellScalar?_eq_some_iff {c : Cell} {s : Scalar} : cellScalar? c = some s ↔ Holds c s := by
  constructor
  · intro h
    cases c with
    | integer n =>
        obtain rfl := Option.some.inj h
        exact .integer n
    | number x =>
        obtain rfl := Option.some.inj h
        exact .number x
    | text text =>
        rw [cellScalar?, Scalar.ofText] at h
        cases hwhole : Number.readInt64 (Text.trim text.toList) with
        | some n =>
            rw [hwhole] at h
            obtain rfl := Option.some.inj h
            exact .whole hwhole
        | none =>
            cases hreal : Number.readBinary64 (Text.trim text.toList) with
            | none => simp [hwhole, hreal] at h
            | some x =>
                rw [hwhole, hreal] at h
                obtain rfl := Option.some.inj h
                exact .real hwhole hreal
    | _ => simp [cellScalar?] at h
  · intro h
    cases h with
    | integer n => rfl
    | number x => rfl
    | whole h => simp [cellScalar?, Scalar.ofText, h]
    | real hwhole h => simp [cellScalar?, Scalar.ofText, hwhole, h]

theorem cellScalar?_eq_none_iff {c : Cell} : cellScalar? c = none ↔ ∀ s, ¬Holds c s := by
  simp [Option.eq_none_iff_forall_ne_some, cellScalar?_eq_some_iff]

def readCell (key : String) (number : Nat) (c : Cell) : Except Fault Scalar :=
  match cellScalar? c with
  | none => .error (.mismatch (.cell key number (String.ofList c.shown)))
  | some s => .ok s

section Cells

variable {key : String} {number : Nat} {cells : List Cell} {c : Cell} {fault : Fault}

theorem readCell_eq_ok_iff {s : Scalar} : readCell key number c = .ok s ↔ Holds c s := by
  rw [← cellScalar?_eq_some_iff, readCell]
  cases cellScalar? c <;> simp

theorem readCell_eq_error_iff : readCell key number c = .error fault ↔
    (∀ s, ¬Holds c s) ∧ .mismatch (.cell key number (String.ofList c.shown)) = fault := by
  rw [← cellScalar?_eq_none_iff, readCell]
  cases cellScalar? c <;> simp

theorem readCells_eq_mapM (key : String) (number : Nat) (cells : List Cell) :
    readCells key number cells = cells.mapM (readCell key number) := by
  induction cells with
  | nil => rfl
  | cons c rest ih =>
      rw [readCells, List.mapM_cons, readCell, ← ih]
      cases cellScalar? c with
      | none => rfl
      | some s => cases readCells key number rest <;> rfl

theorem readCells_eq_ok_iff {values : List Scalar} :
    readCells key number cells = .ok values ↔ List.Forall₂ Holds cells values := by
  simp only [readCells_eq_mapM, Result.mapM_eq_ok_iff, readCell_eq_ok_iff]

theorem readCells_eq_error_iff : readCells key number cells = .error fault ↔
    ∃ left c right, cells = left ++ c :: right ∧
      ((∀ s, ¬Holds c s) ∧ .mismatch (.cell key number (String.ofList c.shown)) = fault) ∧
      ∀ b ∈ left, ∃ s, Holds b s := by
  simp only [readCells_eq_mapM, Result.mapM_eq_error_iff, readCell_eq_ok_iff, readCell_eq_error_iff]

end Cells

/-! ## Rows -/

theorem readRow_eq (key : String) (number : Nat) (cells : List Cell) :
    readRow key number cells =
      if valueCells cells = [] then .error (.workbook (.noValue key number))
      else readCells key number (valueCells cells) := by
  rw [readRow]
  split_ifs with hdata
  · rw [hdata]
    rfl
  · match hread : readCells key number (valueCells cells) with
    | .error fault => rfl
    | .ok [] => exact absurd (List.forall₂_nil_right_iff.1 (readCells_eq_ok_iff.1 hread)) hdata
    | .ok (s :: values) => rfl

namespace Row

variable {row : Row}

def read (row : Row) : Except Fault (String × List Scalar) :=
  (readRow row.name row.number row.cells).map (row.name, ·)

theorem read_of_data_eq_nil (h : row.data = []) :
    row.read = .error (.workbook (.noValue row.name row.number)) := by
  have hcells : valueCells row.cells = [] := h
  rw [read, readRow_eq, if_pos hcells]
  rfl

theorem read_of_data_ne_nil (h : row.data ≠ []) :
    row.read = (readCells row.name row.number row.data).map (row.name, ·) := by
  have hcells : valueCells row.cells ≠ [] := h
  rw [read, readRow_eq, if_neg hcells]
  rfl

theorem read_eq_ok_iff {entry : String × List Scalar} : row.read = .ok entry ↔ row.Gives entry := by
  obtain ⟨name, values⟩ := entry
  by_cases hdata : row.data = []
  · simp [read_of_data_eq_nil hdata, Gives, hdata]
  · rw [read_of_data_ne_nil hdata, Gives, ← readCells_eq_ok_iff]
    constructor
    · intro h
      obtain ⟨hname, hread⟩ := Table.eq_of_map_pair h
      exact ⟨hname, hdata, hread⟩
    · rintro ⟨rfl, -, hread⟩
      rw [hread]
      rfl

theorem read_eq_error_iff {fault : Fault} : row.read = .error fault ↔ row.Faulty fault := by
  by_cases hdata : row.data = []
  · rw [read_of_data_eq_nil hdata]
    constructor
    · intro h
      obtain rfl := Except.error.inj h
      exact .noValue hdata
    · intro h
      cases h with
      | noValue => rfl
      | cell hcells => simp [hdata] at hcells
  · rw [read_of_data_ne_nil hdata, Result.map_eq_error_iff]
    constructor
    · intro h
      obtain ⟨left, c, right, hsplit, ⟨hc, rfl⟩, hleft⟩ := readCells_eq_error_iff.1 h
      exact .cell hsplit hleft hc
    · intro h
      cases h with
      | noValue hnil => exact absurd hnil hdata
      | cell hsplit hleft hc =>
          exact readCells_eq_error_iff.2 ⟨_, _, _, hsplit, ⟨hc, rfl⟩, hleft⟩

theorem name_eq (number : Nat) (cells : List Cell) :
    name ⟨number, cells⟩ = String.ofList (rowName cells) := by
  cases cells with
  | nil => rfl
  | cons c rest => rfl

end Row

theorem rowsFrom_cons (number : Nat) (cells : List Cell) (below : List (List Cell)) :
    rowsFrom number (cells :: below) =
      if rowName cells = [] then rowsFrom (number + 1) below
      else ⟨number, cells⟩ :: rowsFrom (number + 1) below := by
  have hname := Row.name_eq number cells
  split_ifs with h
  · simp [rowsFrom, hname, h]
  · simp [rowsFrom, hname, h]

theorem namedRows_eq_mapM (number : Nat) (below : List (List Cell)) :
    namedRows number below = (rowsFrom number below).mapM Row.read := by
  induction below generalizing number with
  | nil => rfl
  | cons cells rest ih =>
      rw [namedRows, ih, rowsFrom_cons]
      match hname : rowName cells with
      | [] => rfl
      | first :: name =>
          have hkey : Row.name ⟨number, cells⟩ = String.ofList (first :: name) := by
            rw [Row.name_eq, hname]
          rw [if_neg (List.cons_ne_nil first name), List.mapM_cons, Row.read, hkey]
          dsimp only
          cases readRow (String.ofList (first :: name)) number cells <;> rfl

/-! ## Names -/

section Names

variable {entries : List (String × List Scalar)} {name : String}

theorem rowsOf_cons (e : String × List Scalar) (rest : List (String × List Scalar))
    (name : String) :
    rowsOf (e :: rest) name = if e.1 = name then e.2 :: rowsOf rest name else rowsOf rest name := by
  by_cases h : e.1 = name
  · simp [rowsOf, h]
  · simp [rowsOf, h]

theorem mem_rowsOf {values : List Scalar} :
    values ∈ rowsOf entries name ↔ (name, values) ∈ entries := by
  simp [rowsOf]

/-- By induction on the rows, with the table as it was before them. -/
theorem get?_foldl_group (entries : List (String × List Scalar))
    (t : Table String (List (List Scalar))) (name : String) :
    (entries.foldl (fun t r => t.insert r.1 ((t.get? r.1).getD [] ++ [r.2])) t).get? name =
      if rowsOf entries name = [] then t.get? name
      else some ((t.get? name).getD [] ++ rowsOf entries name) := by
  induction entries generalizing t with
  | nil => simp [rowsOf]
  | cons e rest ih =>
      rw [List.foldl_cons, ih, rowsOf_cons]
      by_cases hname : e.1 = name
      · subst hname
        by_cases hrest : rowsOf rest e.1 = []
        · simp [hrest]
        · simp [hrest]
      · simp [hname, Table.get?_insert_ne (Ne.symm hname)]

theorem get?_groupRows (entries : List (String × List Scalar)) (name : String) :
    (groupRows entries).get? name =
      if rowsOf entries name = [] then none else some (rowsOf entries name) := by
  rw [groupRows, get?_foldl_group]
  have hempty : (∅ : Table String (List (List Scalar))).get? name = none := rfl
  simp [hempty]

variable {rows : List Row}

theorem ne_nil_of_mem_rowsOf (hgood : List.Forall₂ Row.Gives rows entries) :
    ∀ values ∈ rowsOf entries name, values ≠ [] := by
  rintro values hvalues rfl
  obtain ⟨row, -, -, hne, hholds⟩ := Result.exists_left hgood (mem_rowsOf.1 hvalues)
  exact hne (List.forall₂_nil_right_iff.1 hholds)

theorem ragged_iff (hgood : List.Forall₂ Row.Gives rows entries) :
    Ragged rows name ↔ ¬sameLengths (rowsOf entries name) = true := by
  rw [sameLengths_iff]
  push Not
  constructor
  · rintro ⟨row, hrow, other, hother, rfl, hname, hlength⟩
    obtain ⟨⟨_, values⟩, hvalues, rfl, -, hholds⟩ := Result.exists_right hgood hrow
    obtain ⟨⟨_, values'⟩, hvalues', rfl, -, hholds'⟩ := Result.exists_right hgood hother
    refine ⟨values, mem_rowsOf.2 hvalues, values', mem_rowsOf.2 (hname ▸ hvalues'), ?_⟩
    rwa [← hholds.length_eq, ← hholds'.length_eq]
  · rintro ⟨values, hvalues, values', hvalues', hlength⟩
    obtain ⟨row, hrow, hname, -, hholds⟩ := Result.exists_left hgood (mem_rowsOf.1 hvalues)
    obtain ⟨other, hother, hname', -, hholds'⟩ := Result.exists_left hgood (mem_rowsOf.1 hvalues')
    refine ⟨row, hrow, other, hother, hname.symm, hname'.symm, ?_⟩
    rwa [hholds.length_eq, hholds'.length_eq]

end Names

/-! ## The rows of a name -/

section Shapes

variable {key : String} {rows : List (List Scalar)}

theorem valueOfRows_of_two (key : String) (h : 2 ≤ rows.length) :
    valueOfRows key rows = matrixOfRows key rows := by
  match rows with
  | [] => simp at h
  | [row] => simp at h
  | first :: second :: rest => simp [valueOfRows]

theorem valueOfRows_of_shapes {value : Value} (h : Shapes rows (some value))
    (heven : sameLengths rows = true) : valueOfRows key rows = .ok value := by
  cases h with
  | scalar s => rfl
  | @vector row hrow =>
      match row with
      | [] => simp at hrow
      | [s] => simp at hrow
      | first :: second :: rest => rfl
  | matrix hrows => rw [valueOfRows_of_two key hrows, matrixOfRows, if_pos heven]

theorem valueOfRows_of_uneven (h : ¬sameLengths rows = true) :
    valueOfRows key rows = .error (.mismatch (.rowLengths key)) := by
  have htwo : 2 ≤ rows.length := by
    match rows with
    | [] => simp [sameLengths] at h
    | [row] => simp [sameLengths] at h
    | first :: second :: rest => simp
  rw [valueOfRows_of_two key htwo, matrixOfRows, if_neg h]

theorem exists_shapes (hne : rows ≠ []) (hrows : ∀ row ∈ rows, row ≠ []) :
    ∃ value, Shapes rows (some value) := by
  match rows with
  | [] => exact absurd rfl hne
  | [[]] => exact absurd rfl (hrows [] List.mem_cons_self)
  | [[s]] => exact ⟨_, .scalar s⟩
  | [first :: second :: rest] => exact ⟨_, .vector (by simp)⟩
  | first :: second :: rest => exact ⟨_, .matrix (by simp)⟩

theorem valueOfRows_eq_ok_iff {value : Value} (hne : rows ≠ []) (hrows : ∀ row ∈ rows, row ≠ []) :
    valueOfRows key rows = .ok value ↔ sameLengths rows = true ∧ Shapes rows (some value) := by
  refine ⟨?_, fun h => valueOfRows_of_shapes h.2 h.1⟩
  intro h
  by_cases heven : sameLengths rows = true
  · obtain ⟨value', hshapes⟩ := exists_shapes hne hrows
    rw [valueOfRows_of_shapes hshapes heven] at h
    exact ⟨heven, Except.ok.inj h ▸ hshapes⟩
  · simp [valueOfRows_of_uneven heven] at h

end Shapes

section Grouped

variable {rows : List Row} {entries : List (String × List Scalar)}

theorem rel_group_iff (hgood : List.Forall₂ Row.Gives rows entries) {name : String}
    {value : Option Value} :
    Option.Rel (fun rows value => valueOfRows name rows = .ok value)
        ((groupRows entries).get? name) value ↔
      ¬Ragged rows name ∧ Shapes (rowsOf entries name) value := by
  rw [ragged_iff hgood, not_not, get?_groupRows]
  by_cases hnil : rowsOf entries name = []
  · rw [if_pos hnil, hnil]
    constructor
    · intro h
      cases h
      exact ⟨rfl, .absent⟩
    · rintro ⟨-, h⟩
      cases h with
      | absent => exact .none
      | matrix htwo => simp at htwo
  · rw [if_neg hnil]
    cases value with
    | none =>
        constructor
        · intro h
          cases h
        · rintro ⟨-, h⟩
          generalize rowsOf entries name = values at h hnil
          cases h
          exact absurd rfl hnil
    | some value =>
        have hiff : valueOfRows name (rowsOf entries name) = .ok value ↔ _ :=
          valueOfRows_eq_ok_iff hnil (ne_nil_of_mem_rowsOf hgood)
        rw [← hiff]
        constructor
        · intro h
          cases h with
          | some hvalue => exact hvalue
        · intro hvalue
          exact .some hvalue

theorem mapM_group_eq_ok_iff (hgood : List.Forall₂ Row.Gives rows entries)
    {values : Table String Value} : (groupRows entries).mapM valueOfRows = .ok values ↔
      (∀ name, ¬Ragged rows name) ∧ ∀ name, Shapes (rowsOf entries name) (values.get? name) := by
  simp only [Table.mapM_eq_ok_iff, rel_group_iff hgood, forall_and]

theorem get?_group_of_ragged (hgood : List.Forall₂ Row.Gives rows entries) {name : String}
    (h : Ragged rows name) : (groupRows entries).get? name = some (rowsOf entries name) ∧
      valueOfRows name (rowsOf entries name) = .error (.mismatch (.rowLengths name)) := by
  have huneven := (ragged_iff hgood).1 h
  refine ⟨?_, valueOfRows_of_uneven huneven⟩
  rw [get?_groupRows, if_neg]
  intro hnil
  rw [hnil] at huneven
  exact huneven rfl

theorem exists_value_of_even (hgood : List.Forall₂ Row.Gives rows entries) {name : String}
    (heven : ¬Ragged rows name) {values : List (List Scalar)}
    (hget : (groupRows entries).get? name = some values) :
    ∃ value, valueOfRows name values = .ok value := by
  rw [ragged_iff hgood, not_not] at heven
  rw [get?_groupRows] at hget
  split_ifs at hget with hnil
  obtain rfl := Option.some.inj hget
  obtain ⟨value, hshapes⟩ := exists_shapes hnil (ne_nil_of_mem_rowsOf hgood)
  exact ⟨value, valueOfRows_of_shapes hshapes heven⟩

theorem mapM_group_of_ragged (hgood : List.Forall₂ Row.Gives rows entries) {name : String}
    (h : Ragged rows name)
    (hfirst : ∀ {other}, Text.utf8 other < Text.utf8 name → ¬Ragged rows other) :
    (groupRows entries).mapM valueOfRows = .error (.mismatch (.rowLengths name)) := by
  rw [Table.mapM_eq_error_iff]
  refine ⟨name, ⟨_, get?_group_of_ragged hgood h⟩, ?_⟩
  intro other values hlt hget
  exact exists_value_of_even hgood (hfirst (Text.compare_eq_lt_iff.1 hlt)) hget

theorem exists_ragged (hgood : List.Forall₂ Row.Gives rows entries) {fault : Fault}
    (h : (groupRows entries).mapM valueOfRows = .error fault) :
    ∃ name, Ragged rows name ∧
      ∀ {other}, Text.utf8 other < Text.utf8 name → ¬Ragged rows other := by
  obtain ⟨name, ⟨values, hget, hfails⟩, hbefore⟩ := Table.firstError_of_mapM h
  refine ⟨name, ?_, ?_⟩
  · by_contra heven
    obtain ⟨value, hvalue⟩ := exists_value_of_even hgood heven hget
    simp [hfails] at hvalue
  · intro other hlt hragged
    obtain ⟨hsome, herror⟩ := get?_group_of_ragged hgood hragged
    obtain ⟨value, hvalue⟩ := hbefore (Text.compare_eq_lt_iff.2 hlt) hsome
    simp [herror] at hvalue

end Grouped

/-! ## Sheets -/

theorem ofRange_eq (range : List (List Cell)) :
    ofRange range = ((rows range).mapM Row.read).bind fun entries =>
      ((groupRows entries).mapM valueOfRows).map .named := by
  rw [ofRange, namedRows_eq_mapM, rows]
  cases (rowsFrom 2 (range.drop 1)).mapM Row.read with
  | error fault => rfl
  | ok entries => cases (groupRows entries).mapM valueOfRows <;> rfl

theorem ofRange_of_reads {range : List (List Cell)} {result : Except Fault Variables}
    (h : Reads (rows range) result) : ofRange range = result := by
  rw [ofRange_eq]
  generalize rows range = rows at h
  cases h with
  | @faulty before after row fault hbefore hfaulty =>
      have hread : ∀ r ∈ before, ∃ entry, r.read = .ok entry := by
        simpa only [Row.read_eq_ok_iff] using hbefore
      rw [Result.mapM_append_cons hread (Row.read_eq_error_iff.2 hfaulty)]
      rfl
  | @ragged _ entries name hgood hragged hfirst =>
      have hread : rows.mapM Row.read = .ok entries := by
        simpa only [Result.mapM_eq_ok_iff, Row.read_eq_ok_iff] using hgood
      rw [hread, Except.bind, mapM_group_of_ragged hgood hragged hfirst]
      rfl
  | @named _ entries values hgood heven hshapes =>
      have hread : rows.mapM Row.read = .ok entries := by
        simpa only [Result.mapM_eq_ok_iff, Row.read_eq_ok_iff] using hgood
      rw [hread, Except.bind, (mapM_group_eq_ok_iff hgood).2 ⟨heven, hshapes⟩]
      rfl

theorem exists_reads (rows : List Row) : ∃ result, Reads rows result := by
  cases hread : rows.mapM Row.read with
  | error fault =>
      obtain ⟨before, row, after, rfl, hrow, hbefore⟩ := Result.first_of_mapM hread
      simp only [Row.read_eq_ok_iff] at hbefore
      exact ⟨_, .faulty hbefore (Row.read_eq_error_iff.1 hrow)⟩
  | ok entries =>
      have hgood : List.Forall₂ Row.Gives rows entries := by
        simpa only [Row.read_eq_ok_iff] using Result.forall₂_of_mapM hread
      cases hgroup : (groupRows entries).mapM valueOfRows with
      | ok values =>
          obtain ⟨heven, hshapes⟩ := (mapM_group_eq_ok_iff hgood).1 hgroup
          exact ⟨_, .named hgood heven hshapes⟩
      | error fault =>
          obtain ⟨name, hragged, hfirst⟩ := exists_ragged hgood hgroup
          exact ⟨_, .ragged hgood hragged hfirst⟩

/-- The named rows below the header decide what a range is read as, and every range is read as
something. -/
theorem ofRange_eq_iff (range : List (List Cell)) (result : Except Fault Variables) :
    ofRange range = result ↔ Reads (rows range) result := by
  refine ⟨?_, ofRange_of_reads⟩
  rintro rfl
  obtain ⟨result, hreads⟩ := exists_reads (rows range)
  rw [ofRange_of_reads hreads]
  exact hreads

end Variables
end InputDeck
