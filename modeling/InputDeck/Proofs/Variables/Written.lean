/-
Sheets that variables are written on.

A sheet lists variables if it has a row for each row of every value, those of one value in their
order, however the values are mixed and whatever rows without a name stand between them.  Each cell
may hold its number as text or as a number.  Reading such a sheet gives the variables back
(`load_listed`).

Only the projection `rowsOf` of the rows to one name matters for a value, so nothing is said of the
mixture itself but what it projects to.
-/
import InputDeck.Proofs.Generation.Jobs
import InputDeck.Proofs.Scalar.Whole
import InputDeck.Proofs.Text.Blank
import InputDeck.Proofs.Value.Fields
import InputDeck.Proofs.Variables.Worksheet

namespace InputDeck

open Workbook

namespace Value

/-- The values that can be told from their rows. -/
inductive Tabular : Value → Prop
  | scalar (s : Scalar) : Tabular (.scalar s)
  | vector {items : List Scalar} (h : 2 ≤ items.length) : Tabular (.vector items)
  | matrix {rows : List (List Scalar)} {width : Nat} (hrows : 2 ≤ rows.length)
      (hwidth : 1 ≤ width) (h : ∀ row ∈ rows, row.length = width) : Tabular (.matrix rows)

end Value

namespace Variables

/-- That a sheet can hold all of the variables: under names that survive trimming, values that can
be told from their rows. -/
def Tabular (values : Table String Value) : Prop :=
  ∀ e ∈ values.entries, Text.Trimmed e.1.toList ∧ e.2.Tabular

/-- That a cell shows a number: as its text between blanks, or as a number of the same value that
is not taken for one of the other kind.  What is no number has bits that its text does not show. -/
inductive Shows : Cell → Scalar → Prop
  | text {text : String} {s : Scalar} {before after : List Char}
      (h : text.toList = before ++ s.text ++ after)
      (hbefore : ∀ c ∈ before, Text.isBlank c = true)
      (hafter : ∀ c ∈ after, Text.isBlank c = true) : Shows (.text text) s.forgetPayload
  | integer (n : Int64) : Shows (.integer n) (.integer n)
  | whole {x : Binary64} {n : Int64} (h : x.value? = some (n.toInt : ℚ)) :
      Shows (.number x) (.integer n)
  | real {x : Binary64} (h : ∀ n : Int64, x.value? ≠ some (n.toInt : ℚ)) :
      Shows (.number x) (.real x)

/-- That rows of cells hold these rows of numbers, in this order.  A row may end in empty cells,
and rows without a name may stand anywhere. -/
inductive Lists : List (List Cell) → List (String × List Scalar) → Prop
  | nil : Lists [] []
  | unnamed {cells : List Cell} {below : List (List Cell)} {entries : List (String × List Scalar)}
      (hname : ∀ c ∈ (cells.headD .empty).shown, Text.isBlank c = true) (h : Lists below entries) :
      Lists (cells :: below) entries
  | row {name : String} {cells : List Cell} {values : List Scalar} {count : Nat}
      {below : List (List Cell)} {entries : List (String × List Scalar)}
      (hcells : List.Forall₂ Shows cells values) (h : Lists below entries) :
      Lists ((.text name :: (cells ++ List.replicate count .empty)) :: below)
        ((name, values) :: entries)

/-- That the rows below a header list the variables: each name has the rows of its value. -/
def Listing (values : Table String Value) (below : List (List Cell)) : Prop :=
  ∃ entries, Lists below entries ∧
    ∀ name, rowsOf entries name = ((values.get? name).map Value.rows).getD []

end Variables

/-! ## Cells -/

namespace Variables

theorem Shows.holds {c : Cell} {s : Scalar} (h : Shows c s) : Holds c s := by
  cases h with
  | @text text s before after h hbefore hafter =>
      rw [← cellScalar?_eq_some_iff, cellScalar?, h,
        Text.trim_between s.trimmed_text hbefore hafter, s.ofText_text]
  | integer n => exact .integer n
  | @whole x n h =>
      rw [← Scalar.ofBinary64_eq_integer_iff.2 h]
      exact .number x
  | @real x h =>
      have hholds := Holds.number x
      rwa [Scalar.ofBinary64_eq_real_iff.2 h] at hholds

theorem Shows.ne_empty {c : Cell} {s : Scalar} (h : Shows c s) : c ≠ .empty := by
  rintro rfl
  nomatch h

/-! ## Rows -/

theorem data_listed {number count : Nat} {c : Cell} {cells : List Cell} {values : List Scalar}
    (h : List.Forall₂ Shows cells values) :
    Row.data ⟨number, c :: (cells ++ List.replicate count .empty)⟩ = cells := by
  have hempty : ∀ b ∈ List.replicate count Cell.empty, (b == .empty) = true := by
    intro b hb
    rw [List.eq_of_mem_replicate hb, beq_self_eq_true]
  have hcells : cells.rdropWhile (· == .empty) = cells := by
    rw [List.rdropWhile_eq_self_iff]
    intro hne hlast
    obtain ⟨s, -, hs⟩ := Result.exists_right h (cells.getLast_mem hne)
    exact hs.ne_empty (eq_of_beq hlast)
  rw [Row.data, List.drop_one, List.tail_cons, Text.rdropWhile_append _ hempty, hcells]

/-- Every row with a name gives its numbers, wherever the sheet begins. -/
theorem Lists.forall₂_gives {below : List (List Cell)} {entries : List (String × List Scalar)}
    (h : Lists below entries)
    (hentries : ∀ e ∈ entries, Text.Trimmed e.1.toList ∧ e.2 ≠ []) (number : Nat) :
    List.Forall₂ Row.Gives (rowsFrom number below) entries := by
  induction h generalizing number with
  | nil => exact .nil
  | @unnamed cells below entries hname _ ih =>
      have hblank : rowName cells = [] := by
        cases cells with
        | nil => rfl
        | cons c rest => exact Text.trim_eq_nil_iff.2 hname
      rw [rowsFrom_cons, if_pos hblank]
      exact ih hentries (number + 1)
  | @row name cells values count below entries hcells _ ih =>
      obtain ⟨htrimmed, hne⟩ := hentries _ List.mem_cons_self
      have hname : Text.trim name.toList = name.toList := Text.trim_of_trimmed htrimmed
      have hnamed : rowName (.text name :: (cells ++ List.replicate count .empty)) ≠ [] := by
        rw [rowName, Cell.shown, hname]
        exact htrimmed.ne_nil
      have hdata :
          Row.data ⟨number, .text name :: (cells ++ List.replicate count .empty)⟩ = cells :=
        data_listed hcells
      rw [rowsFrom_cons, if_neg hnamed]
      refine .cons ⟨?_, ?_, ?_⟩ (ih (fun e he => hentries e (List.mem_cons_of_mem _ he)) _)
      · rw [Row.name_eq, rowName, Cell.shown, hname, String.ofList_toList]
      · rw [hdata]
        rintro rfl
        exact hne (List.forall₂_nil_left_iff.1 hcells)
      · rw [hdata]
        exact hcells.imp fun _ _ => Shows.holds

end Variables

/-! ## Values -/

namespace Value

variable {value : Value}

theorem Tabular.shapes (h : value.Tabular) : Variables.Shapes value.rows (some value) := by
  cases h with
  | scalar s => exact .scalar s
  | vector h => exact .vector h
  | matrix hrows => exact .matrix hrows

theorem Tabular.even (h : value.Tabular) : Variables.sameLengths value.rows = true := by
  rw [Variables.sameLengths_iff]
  cases h with
  | scalar s => simp [rows]
  | vector h => simp [rows]
  | matrix _ _ h =>
      intro row hrow other hother
      rw [h row hrow, h other hother]

theorem Tabular.ne_nil (h : value.Tabular) {row : List Scalar} (hrow : row ∈ value.rows) :
    row ≠ [] := by
  rw [← List.length_pos_iff]
  cases h with
  | scalar s => simp [List.mem_singleton.1 hrow]
  | vector h =>
      rw [List.mem_singleton.1 hrow]
      omega
  | matrix _ hwidth h =>
      rw [h row hrow]
      exact hwidth

end Value

namespace Variables

variable {values : Table String Value} {below : List (List Cell)}

theorem Tabular.of_get? (h : Tabular values) {name : String} {value : Value}
    (hget : values.get? name = some value) : Text.Trimmed name.toList ∧ value.Tabular :=
  h (name, value) (Table.get?_eq_some_iff.1 hget)

theorem ofRange_listed (hvalues : Tabular values) (h : Listing values below) (header : List Cell) :
    ofRange (header :: below) = .ok (.named values) := by
  obtain ⟨entries, hlists, hrows⟩ := h
  have hentries : ∀ e ∈ entries, Text.Trimmed e.1.toList ∧ e.2 ≠ [] := by
    intro e he
    have hmem : e.2 ∈ rowsOf entries e.1 := mem_rowsOf.2 he
    rw [hrows] at hmem
    cases hget : values.get? e.1 with
    | none => simp [hget] at hmem
    | some value =>
        obtain ⟨htrimmed, htabular⟩ := hvalues.of_get? hget
        exact ⟨htrimmed, htabular.ne_nil (by simpa [hget] using hmem)⟩
  have hgood : List.Forall₂ Row.Gives (rows (header :: below)) entries :=
    hlists.forall₂_gives hentries 2
  refine ofRange_of_reads (.named hgood (fun name => ?_) fun name => ?_)
  · rw [ragged_iff hgood, not_not, hrows]
    cases hget : values.get? name with
    | none => rfl
    | some value => exact (hvalues.of_get? hget).2.even
  · rw [hrows]
    cases hget : values.get? name with
    | none => exact .absent
    | some value => exact (hvalues.of_get? hget).2.shapes

/-! ## Files -/

/-- A workbook is loaded from the range of its sheet. -/
theorem on_load_of_range {fs : FileSystem} {p : Path} {format : Option DocumentFormat}
    {book : Workbook} {sheet : Sheet} {range : List (List Cell)}
    (hformat : format.or (DocumentFormat.ofPath? p) = some .workbook)
    (hread : fs.read p = .ok (.workbook book)) (hsheet : book.sheet? sheetName = some sheet)
    (hrange : sheet.range? = some range) :
    Job.on (load p format) fs = (ofRange range, fs) := by
  rw [on_load, hformat, FileSystem.variablesAs, hread]
  dsimp only
  rw [ofWorkbook, hsheet]
  dsimp only
  rw [hrange]

/-- Variables come back from every sheet that lists them, whatever its header and the file system
that holds it. -/
theorem load_listed (hvalues : Tabular values) (h : Listing values below) (header : List Cell) :
    ofRange (header :: below) = .ok (.named values) ∧
      ∀ {fs : FileSystem} {p : Path} {format : Option DocumentFormat} {book : Workbook}
        {sheet : Sheet}, format.or (DocumentFormat.ofPath? p) = some .workbook →
        fs.read p = .ok (.workbook book) → book.sheet? sheetName = some sheet →
        sheet.range? = some (header :: below) →
        Job.on (load p format) fs = (.ok (.named values), fs) := by
  have hlisted := ofRange_listed hvalues h header
  refine ⟨hlisted, ?_⟩
  intro fs p format book sheet hformat hread hsheet hrange
  rw [on_load_of_range hformat hread hsheet hrange, hlisted]

/-! A matrix among other values, with numbers as text and as numbers. -/

def mixedValues : Table String Value :=
  .ofList [
    ("k", .matrix [
      [.integer 1, .real (.signed false (.ofDecimal 25 (-1)))],
      [.real (.signed true .zero), .real (.signed false (.ofDecimal 5 (-1)))]]),
    ("n", .scalar (.integer 7)),
    ("v", .vector [.real (.signed false (.ofDecimal 1 300)), .integer (-2)])]

def mixedSheet : Sheet :=
  ⟨sheetName, [
    [.text "name"],
    [.text "k", .number "1", .text " 2.5"],
    [.text "n", .text "7\n"],
    [.text " ", .boolean "1", .text "remark"],
    [.text "k", .text "-0.0", .number "0.5"],
    [.text "v", .number "1e300", .text "-2", .blank]]⟩

def mixedBelow : List (List Cell) := [
  [.text "k", .number (.signed false (.ofNat 1)), .text " 2.5"],
  [.text "n", .text "7\n", .empty],
  [.text " ", .boolean true, .text "remark"],
  [.text "k", .text "-0.0", .number (.signed false (.ofDecimal 5 (-1)))],
  [.text "v", .number (.signed false (.ofDecimal 1 300)), .text "-2"]]

def mixedFiles : FileSystem :=
  FileSystem.root.insert [Text.utf8 "v.xlsx"] (.file (.workbook ⟨[mixedSheet]⟩))

theorem tabular_mixed : Tabular mixedValues := by
  have hentries : mixedValues.entries = [
      ("k", .matrix [
        [.integer 1, .real (.signed false (.ofDecimal 25 (-1)))],
        [.real (.signed true .zero), .real (.signed false (.ofDecimal 5 (-1)))]]),
      ("n", .scalar (.integer 7)),
      ("v", .vector [.real (.signed false (.ofDecimal 1 300)), .integer (-2)])] := rfl
  have hname : ∀ {c : Char}, Text.isBlank c = false →
      Text.Trimmed (String.ofList [c]).toList := by
    intro c hc
    rw [String.toList_ofList]
    exact Text.trimmed_of_forall (List.cons_ne_nil c []) (List.forall_mem_singleton.2 hc)
  intro e he
  rw [hentries] at he
  simp only [List.mem_cons, List.not_mem_nil, or_false] at he
  rcases he with rfl | rfl | rfl
  · exact ⟨@hname 'k' rfl, @Value.Tabular.matrix _ 2 (by decide) (by decide) (by decide)⟩
  · exact ⟨@hname 'n' rfl, .scalar _⟩
  · exact ⟨@hname 'v' rfl, .vector (by decide)⟩

theorem listing_mixed : Listing mixedValues mixedBelow := by
  have hone : Shows (.number (.signed false (.ofNat 1))) (.integer 1) :=
    .whole (Scalar.ofBinary64_eq_integer_iff.1 (by decide +kernel))
  have hhalf : Shows (.number (.signed false (.ofDecimal 5 (-1))))
      (.real (.signed false (.ofDecimal 5 (-1)))) :=
    .real (Scalar.ofBinary64_eq_real_iff.1 (by decide +kernel))
  have hlarge : Shows (.number (.signed false (.ofDecimal 1 300)))
      (.real (.signed false (.ofDecimal 1 300))) :=
    .real (Scalar.ofBinary64_eq_real_iff.1 (by decide +kernel))
  have htwo : Shows (.text " 2.5") (.real (.signed false (.ofDecimal 25 (-1)))) :=
    @Shows.text _ (.real (.signed false (.ofDecimal 25 (-1)))) [' '] [] (by decide +kernel)
      (List.all_eq_true.1 rfl) (List.all_eq_true.1 rfl)
  have hseven : Shows (.text "7\n") (.integer 7) :=
    @Shows.text _ (.integer 7) [] ['\n'] (by decide +kernel) (List.all_eq_true.1 rfl)
      (List.all_eq_true.1 rfl)
  have hzero : Shows (.text "-0.0") (.real (.signed true .zero)) :=
    @Shows.text _ (.real (.signed true .zero)) [] [] (by decide +kernel) (List.all_eq_true.1 rfl)
      (List.all_eq_true.1 rfl)
  have hminus : Shows (.text "-2") (.integer (-2)) :=
    @Shows.text _ (.integer (-2)) [] [] (by decide +kernel) (List.all_eq_true.1 rfl)
      (List.all_eq_true.1 rfl)
  refine ⟨[("k", [.integer 1, .real (.signed false (.ofDecimal 25 (-1)))]),
    ("n", [.integer 7]),
    ("k", [.real (.signed true .zero), .real (.signed false (.ofDecimal 5 (-1)))]),
    ("v", [.real (.signed false (.ofDecimal 1 300)), .integer (-2)])], ?_, ?_⟩
  · refine @Lists.row _ _ _ 0 _ _ (.cons hone (.cons htwo .nil)) ?_
    refine @Lists.row _ _ _ 1 _ _ (.cons hseven .nil) ?_
    refine .unnamed (List.all_eq_true.1 rfl) ?_
    refine @Lists.row _ _ _ 0 _ _ (.cons hzero (.cons hhalf .nil)) ?_
    exact @Lists.row _ _ _ 0 _ _ (.cons hlarge (.cons hminus .nil)) .nil
  · intro name
    by_cases hk : name = "k"
    · subst hk
      decide +kernel
    by_cases hn : name = "n"
    · subst hn
      decide +kernel
    by_cases hv : name = "v"
    · subst hv
      decide +kernel
    · have hget : mixedValues.get? name = none := by
        rw [mixedValues, Table.get?_ofList]
        simp [Table.lookup_cons_ne, hk, hn, hv, Table.lookup]
      simp [rowsOf, hget, Ne.symm hk, Ne.symm hn, Ne.symm hv]

theorem range?_mixedSheet :
    mixedSheet.range? = some ([.text "name", .empty, .empty] :: mixedBelow) := by
  decide +kernel

theorem load_listed_mixed :
    Tabular mixedValues ∧ Listing mixedValues mixedBelow ∧
      Job.on (load (.ofString "v.xlsx") none) mixedFiles =
        (.ok (.named mixedValues), mixedFiles) := by
  refine ⟨tabular_mixed, listing_mixed, ?_⟩
  have hlisted := load_listed tabular_mixed listing_mixed [.text "name", .empty, .empty]
  exact hlisted.2 rfl rfl rfl range?_mixedSheet

end Variables
end InputDeck
