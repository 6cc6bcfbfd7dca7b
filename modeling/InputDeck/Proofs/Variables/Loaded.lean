/-
What holds of all variables that are loaded.

Each format has its own account of what is read, `Loads` for documents and `Reads` for sheets, and
what holds of loaded variables is read off it: matrices have rows of one length, a document gives
what its own numbers are taken for, which is finite, and a sheet gives values that could be written
on a sheet.
-/
import InputDeck.Proofs.Json.Finite
import InputDeck.Proofs.Variables.Written
import InputDeck.Template.Line

namespace InputDeck

namespace Value

/-- That the rows of a matrix have one length, and that there are some. -/
def Rectangular : Value → Prop
  | .matrix rows => rows ≠ [] ∧ ∃ width, ∀ row ∈ rows, row.length = width
  | _ => True

theorem rectangular_matrix {rows : List (List Scalar)} (hne : rows ≠ [])
    (heven : ∀ row ∈ rows, ∀ other ∈ rows, row.length = other.length) :
    (matrix rows).Rectangular := by
  obtain ⟨first, rest, rfl⟩ := List.exists_cons_of_ne_nil hne
  exact ⟨hne, first.length, fun row hrow => heven row hrow first List.mem_cons_self⟩

theorem Tabular.rectangular {value : Value} (h : value.Tabular) : value.Rectangular := by
  cases h with
  | scalar s => trivial
  | vector h => trivial
  | matrix hrows _ h => exact ⟨List.ne_nil_of_length_pos (by omega), _, h⟩

end Value

namespace Variables

def Rectangular : Variables → Prop
  | .named values => ∀ e ∈ values.entries, e.2.Rectangular
  | _ => True

/-- All numbers of some variables. -/
def scalars : Variables → List Scalar
  | .absent => []
  | .positional values => values
  | .named values => values.entries.flatMap fun e => e.2.rows.flatten

/-! ## Documents -/

section Documents

variable {v : Json.Value} {value : Value} {vars : Variables} {s : Scalar}

/-- That a scalar stands for a number of the document. -/
def IsFrom (v : Json.Value) (s : Scalar) : Prop := ∃ n, v.Contains n ∧ scalarOf n = s

theorem isFrom_numbers {row : List Json.Number} (hs : s ∈ scalarsOf row) :
    IsFrom (numbers row) s := by
  obtain ⟨n, hn, rfl⟩ := List.mem_map.1 hs
  exact ⟨n, .item (List.mem_map_of_mem hn) (.number n), rfl⟩

theorem Describes.isFrom (h : Describes v value) {row : List Scalar} (hrow : row ∈ value.rows)
    (hs : s ∈ row) : IsFrom v s := by
  cases h with
  | @scalar n s' h =>
      obtain rfl := List.mem_singleton.1 hrow
      obtain rfl := List.mem_singleton.1 hs
      exact ⟨n, .number n, h.eq_scalarOf⟩
  | @vector _ items h =>
      obtain rfl := forall₂_represents_iff.1 h
      obtain rfl := List.mem_singleton.1 hrow
      exact isFrom_numbers hs
  | @matrix rows items _ _ h =>
      obtain rfl := forall₂_forall₂_represents_iff.1 h
      obtain ⟨row, hmem, rfl⟩ := List.mem_map.1 hrow
      obtain ⟨n, hn, hs⟩ := isFrom_numbers hs
      exact ⟨n, .item (List.mem_map_of_mem hmem) hn, hs⟩

theorem Describes.rectangular (h : Describes v value) : value.Rectangular := by
  cases h with
  | scalar => trivial
  | vector => trivial
  | matrix hne heven h =>
      obtain rfl := forall₂_forall₂_represents_iff.1 h
      refine Value.rectangular_matrix (by simpa using hne) ?_
      exact sameLengths_iff.1 (sameLengths_map_iff.2 heven)

/-- Every value of loaded variables is described by a member of the document. -/
theorem exists_member {members : List (String × Json.Value)} {values : Table String Value}
    (h : ∀ key, Option.Rel Describes (members.reverse.lookup key) (values.get? key))
    {e : String × Value} (he : e ∈ values.entries) :
    ∃ v, (e.1, v) ∈ members ∧ Describes v e.2 := by
  have hkey := h e.1
  rw [Table.get?_eq_some_iff.2 he] at hkey
  cases hlookup : members.reverse.lookup e.1 with
  | none => simp [hlookup] at hkey
  | some v =>
      rw [hlookup] at hkey
      cases hkey with
      | some hv =>
          obtain ⟨_, _, hsplit, _⟩ := List.lookup_eq_some_iff.1 hlookup
          exact ⟨v, List.mem_reverse.1 (by simp [hsplit]), hv⟩

theorem Loads.rectangular (h : Loads v (.ok vars)) : vars.Rectangular := by
  cases h with
  | null => trivial
  | positional => trivial
  | named h =>
      intro e he
      obtain ⟨v, -, hv⟩ := exists_member h he
      exact hv.rectangular

theorem Loads.isFrom (h : Loads v (.ok vars)) (hs : s ∈ vars.scalars) : IsFrom v s := by
  cases h with
  | null => simp [scalars] at hs
  | positional h =>
      obtain rfl := forall₂_represents_iff.1 h
      exact isFrom_numbers hs
  | named h =>
      obtain ⟨e, he, hflatten⟩ := List.mem_flatMap.1 hs
      obtain ⟨row, hrow, hs⟩ := List.mem_flatten.1 hflatten
      obtain ⟨v, hmember, hv⟩ := exists_member h he
      obtain ⟨n, hn, hs⟩ := hv.isFrom hrow hs
      exact ⟨n, .member hmember hn, hs⟩

theorem loads_of_ofDocument (h : ofDocument v = .ok vars) : Loads v (.ok vars) := by
  obtain ⟨result, hloads⟩ := exists_loads v
  rw [ofDocument_of_loads hloads] at h
  exact h ▸ hloads

theorem rectangular_finite_of_ofJsonText {cs : List Char} (h : ofJsonText cs = .ok vars) :
    vars.Rectangular ∧ ∀ s ∈ vars.scalars, s.isFinite = true := by
  unfold ofJsonText at h
  cases htext : Json.Value.ofText? cs with
  | none => simp [htext] at h
  | some v =>
      rw [htext] at h
      have hloads := loads_of_ofDocument h
      refine ⟨hloads.rectangular, fun s hs => ?_⟩
      obtain ⟨n, hn, rfl⟩ := hloads.isFrom hs
      exact Json.Value.isFinite_of_ofText? htext hn

end Documents

/-! ## Replacement texts -/

section Replacement

variable {vars : Variables} {place : Place} {token text : List Char}

theorem mem_of_resolveIndex {values : List Scalar} {s : Scalar}
    (h : Template.resolveIndex values place token = .ok s) : s ∈ values := by
  unfold Template.resolveIndex at h
  split at h
  · simp at h
  · split at h
    · simp at h
    · rename_i hvalue
      split_ifs at hvalue
      exact Except.ok.inj h ▸ List.mem_of_getElem? hvalue

theorem mem_of_resolveKey {values : Table String Value} {value : Value}
    (h : Template.resolveKey values place token = .ok value) :
    (String.ofList token, value) ∈ values.entries := by
  unfold Template.resolveKey at h
  split at h
  · simp at h
  · rename_i hvalue
    exact Except.ok.inj h ▸ Table.get?_eq_some_iff.1 hvalue

/-- A replacement text is made of the texts of numbers, blanks and line breaks. -/
theorem exists_of_mem_resolve (h : Template.resolve vars place token = .ok (some text)) {c : Char}
    (hc : c ∈ text) : c = '\n' ∨ c = ' ' ∨ ∃ s ∈ vars.scalars, c ∈ s.text := by
  cases vars with
  | absent => simp [Template.resolve] at h
  | positional values =>
      obtain ⟨s, hs, he⟩ := Result.map_eq_ok_iff.1 h
      obtain rfl := Option.some.inj he
      exact Or.inr (Or.inr ⟨s, mem_of_resolveIndex hs, hc⟩)
  | named values =>
      obtain ⟨value, hvalue, he⟩ := Result.map_eq_ok_iff.1 h
      obtain rfl := Option.some.inj he
      refine (Value.exists_of_mem_text hc).imp id (Or.imp id ?_)
      rintro ⟨row, hrow, s, hs, hc⟩
      refine ⟨s, List.mem_flatMap.2 ⟨_, mem_of_resolveKey hvalue, ?_⟩, hc⟩
      exact List.mem_flatten.2 ⟨row, hrow, hs⟩

/-- Both words for numbers that are not finite have an `n`, which no finite number is written
with. -/
theorem n_not_mem_resolve (hfinite : ∀ s ∈ vars.scalars, s.isFinite = true)
    (h : Template.resolve vars place token = .ok (some text)) : 'n' ∉ text := by
  intro hn
  rcases exists_of_mem_resolve h hn with hn | hn | ⟨s, hs, hn⟩
  · exact absurd hn (by decide)
  · exact absurd hn (by decide)
  · exact absurd (Scalar.isDecimal_of_mem_text (hfinite s hs) hn) (by decide)

end Replacement

/-! ## Worksheets -/

section Worksheets

open Workbook

variable {vars : Variables} {range : List (List Cell)}

theorem trimmed_of_mem_rowsFrom {number : Nat} {below : List (List Cell)} {row : Row}
    (h : row ∈ rowsFrom number below) : Text.Trimmed row.name.toList := by
  have hname : row.name ≠ "" := by simpa using List.of_mem_filter h
  rw [Row.name, String.toList_ofList]
  refine Text.trimmed_trim fun hnil => hname ?_
  rw [Row.name, hnil]

theorem Shapes.tabular {rows : List (List Scalar)} {value : Value} (h : Shapes rows (some value))
    (heven : sameLengths rows = true) (hne : ∀ row ∈ rows, row ≠ []) : value.Tabular := by
  cases h with
  | scalar s => exact .scalar s
  | vector h => exact .vector h
  | matrix h =>
      obtain ⟨first, rest, rfl⟩ :=
        List.exists_cons_of_ne_nil (List.ne_nil_of_length_pos (by omega : 0 < rows.length))
      refine .matrix h (List.length_pos_iff.2 (hne first List.mem_cons_self)) ?_
      intro row hrow
      exact sameLengths_iff.1 heven row hrow first List.mem_cons_self

theorem Shapes.ne_nil {rows : List (List Scalar)} {value : Value}
    (h : Shapes rows (some value)) : rows ≠ [] := by
  rintro rfl
  cases h with
  | matrix h => simp at h

theorem Reads.tabular {rows : List Row} (hnames : ∀ row ∈ rows, Text.Trimmed row.name.toList)
    (h : Reads rows (.ok vars)) : ∃ values, vars = .named values ∧ Tabular values := by
  cases h with
  | @named _ entries values hgood heven hshapes =>
      refine ⟨values, rfl, ?_⟩
      rintro ⟨name, value⟩ he
      have hshape := hshapes name
      rw [Table.get?_eq_some_iff.2 he] at hshape
      have hrows := heven name
      rw [ragged_iff hgood, not_not] at hrows
      refine ⟨?_, hshape.tabular hrows (ne_nil_of_mem_rowsOf hgood)⟩
      obtain ⟨items, hitems⟩ := List.exists_mem_of_ne_nil _ hshape.ne_nil
      obtain ⟨row, hrow, hname, -⟩ := Result.exists_left hgood (mem_rowsOf.1 hitems)
      obtain rfl : name = row.name := hname
      exact hnames row hrow

theorem tabular_of_ofRange (h : ofRange range = .ok vars) :
    ∃ values, vars = .named values ∧ Tabular values := by
  obtain ⟨result, hreads⟩ := exists_reads (rows range)
  rw [ofRange_of_reads hreads] at h
  exact (h ▸ hreads).tabular fun row => trimmed_of_mem_rowsFrom

theorem tabular_of_ofWorkbook {book : Workbook} (h : ofWorkbook book = .ok vars) :
    ∃ values, vars = .named values ∧ Tabular values := by
  unfold ofWorkbook at h
  split at h
  · simp at h
  · split at h
    · simp at h
    · exact tabular_of_ofRange h

end Worksheets

/-! ## Files -/

/-- Whatever a file holds: the matrices that are loaded from it are rectangular.  A document gives
finite numbers only, so that no replacement text holds `nan` or `inf`, and a workbook gives
variables that a sheet can hold. -/
theorem rectangular_finite_tabular_of_load {p : Path} {format : Option DocumentFormat}
    {fs fs' : FileSystem} {vars : Variables} (h : Job.on (load p format) fs = (.ok vars, fs')) :
    vars.Rectangular ∧
      (format.or (DocumentFormat.ofPath? p) = some .json →
        (∀ s ∈ vars.scalars, s.isFinite = true) ∧
        ∀ {place : Place} {token text : List Char},
          Template.resolve vars place token = .ok (some text) →
            ¬['n', 'a', 'n'] <:+: text ∧ ¬['i', 'n', 'f'] <:+: text) ∧
      (format.or (DocumentFormat.ofPath? p) = some .workbook →
        ∃ values, vars = .named values ∧ Tabular values) := by
  rw [on_load] at h
  have hload := (Prod.mk.inj h).1
  cases hformat : format.or (DocumentFormat.ofPath? p) with
  | none => simp [hformat, FileSystem.variablesAs] at hload
  | some kind =>
      rw [hformat] at hload
      cases kind with
      | json =>
          obtain ⟨cs, -, hread⟩ := Result.bind_eq_ok_iff.1 hload
          obtain ⟨hrectangular, hfinite⟩ := rectangular_finite_of_ofJsonText hread
          refine ⟨hrectangular, fun _ => ⟨hfinite, ?_⟩, fun hother => ?_⟩
          · intro place token text hresolve
            have hn := n_not_mem_resolve hfinite hresolve
            exact ⟨fun hword => hn (hword.subset (by decide)),
              fun hword => hn (hword.subset (by decide))⟩
          · simp at hother
      | workbook =>
          have htabular : ∃ values, vars = .named values ∧ Tabular values := by
            rw [FileSystem.variablesAs] at hload
            split at hload
            · exact tabular_of_ofWorkbook hload
            · simp at hload
          refine ⟨?_, fun hother => ?_, fun _ => htabular⟩
          · obtain ⟨values, rfl, hvalues⟩ := htabular
            exact fun e he => (hvalues e he).2.rectangular
          · simp at hother

/-! A document under a name without extension, and a workbook. -/

def scaledText : List Char := "\x7b\"k\": [[1e-5, 2], [-0.0, 1e22]]\x7d".toList

def scaledTree : Json.Tree :=
  .object [(['k'], .array [
    .array [.number ⟨false, ['1'], none, some ⟨true, ['5']⟩⟩,
      .number ⟨false, ['2'], none, none⟩] true,
    .array [.number ⟨true, ['0'], some ['0'], none⟩,
      .number ⟨false, ['1'], none, some ⟨false, ['2', '2']⟩⟩] true] true)] true

def scaledVariables : Variables :=
  .named (.ofList [("k", .matrix [
    [.real (.signed false (.ofDecimal 1 (-5))), .integer 2],
    [.real (.signed true .zero), .real (.signed false (.ofDecimal 1 22))]])])

def scaledFiles : FileSystem :=
  FileSystem.root.insert [Text.utf8 "k"] (.file (.bytes (String.ofList scaledText).toUTF8))

theorem ofJsonText_scaledText : ofJsonText scaledText = .ok scaledVariables := by
  have htree : Json.Tree.ofText scaledText = (scaledTree, true) := rfl
  have hsmall : Json.Literal.number? ⟨false, ['1'], none, some ⟨true, ['5']⟩⟩ =
      some (.real (.signed false (.ofDecimal 1 (-5)))) := by decide +kernel
  have htwo : Json.Literal.number? ⟨false, ['2'], none, none⟩ = some (.natural 2) := by
    decide +kernel
  have hzero : Json.Literal.number? ⟨true, ['0'], some ['0'], none⟩ =
      some (.real (.signed true .zero)) := by decide +kernel
  have hlarge : Json.Literal.number? ⟨false, ['1'], none, some ⟨false, ['2', '2']⟩⟩ =
      some (.real (.signed false (.ofDecimal 1 22))) := by decide +kernel
  have hkey : Json.Escape.decode ['k'] = some ['k'] := by decide
  have hvalue : Json.Value.ofText? scaledText = some (.object [("k", .array [
      .array [.number (.real (.signed false (.ofDecimal 1 (-5)))), .number (.natural 2)],
      .array [.number (.real (.signed true .zero)),
        .number (.real (.signed false (.ofDecimal 1 22)))]])]) := by
    rw [Json.Value.ofText?, htree]
    simp [scaledTree, Json.Value.depthLimit, Json.Value.ofTree?, Json.Value.ofItems?,
      Json.Value.ofMembers?, hsmall, htwo, hzero, hlarge, hkey]
  rw [ofJsonText, hvalue]
  rfl

theorem rectangular_finite_tabular_of_load_samples :
    (Job.on (load (.ofString "k") (some .json)) scaledFiles = (.ok scaledVariables, scaledFiles) ∧
      scaledVariables.Rectangular ∧ (∀ s ∈ scaledVariables.scalars, s.isFinite = true) ∧
      ∀ {place : Place} {token text : List Char},
        Template.resolve scaledVariables place token = .ok (some text) →
          ¬['n', 'a', 'n'] <:+: text ∧ ¬['i', 'n', 'f'] <:+: text) ∧
    Job.on (load (.ofString "v.xlsx") none) mixedFiles =
        (.ok (.named mixedValues), mixedFiles) ∧
      (named mixedValues).Rectangular ∧ Tabular mixedValues := by
  have hread : scaledFiles.read (.ofString "k") =
      .ok (.bytes (String.ofList scaledText).toUTF8) := rfl
  have hload : Job.on (load (.ofString "k") (some .json)) scaledFiles =
      (.ok scaledVariables, scaledFiles) := by
    rw [on_load, Option.some_or, FileSystem.variablesAs, FileSystem.text_of_read hread, Except.bind,
      ofJsonText_scaledText]
  have hmixed : Job.on (load (.ofString "v.xlsx") none) mixedFiles =
      (.ok (.named mixedValues), mixedFiles) := by
    rw [on_load_of_range rfl rfl rfl range?_mixedSheet, ofRange_listed tabular_mixed listing_mixed]
  obtain ⟨hrectangular, hjson, -⟩ := rectangular_finite_tabular_of_load hload
  obtain ⟨hmatrices, -, hworkbook⟩ := rectangular_finite_tabular_of_load hmixed
  obtain ⟨values, hvalues, htabular⟩ := hworkbook rfl
  obtain rfl := Variables.named.inj hvalues
  exact ⟨⟨hload, hrectangular, hjson rfl⟩, hmixed, hmatrices, htabular⟩

end Variables
end InputDeck
