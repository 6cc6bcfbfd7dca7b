/-
The lines and fields of a value's text.

A program that reads a deck takes the text of a value apart at line breaks and blanks.  No number is
written with either, so it finds one line for each row and in it one field for each number, and each
field reads back as its number, or as none if it is none (`fields_text`).

A row without numbers would be a line with one empty field, and a matrix without rows a single line
of that kind, so both are left out.
-/
import InputDeck.Proofs.Scalar.RoundTrip
import InputDeck.Proofs.Text.Blank
import InputDeck.Proofs.Value.Characters

namespace InputDeck

theorem Scalar.trimmed_text (s : Scalar) : Text.Trimmed s.text := by
  refine Text.trimmed_of_forall ?_ fun c hc =>
    Number.isBlank_of_isNumeral (isNumeral_of_mem_text hc)
  intro hnil
  have hread := ofText_text s
  rw [hnil] at hread
  exact absurd hread (by simp [ofText, Number.readInt64, Number.readInt, Number.splitSign,
    Number.isDigits, Number.readBinary64, Number.readWord, Number.readMagnitude])

namespace Value

/-- The lines of a text, each cut at every blank. -/
def fields (text : List Char) : List (List (List Char)) :=
  (text.splitOn '\n').map (List.splitOn ' ')

variable {items : List Scalar} {rows : List (List Scalar)}

theorem splitOn_rowText (h : items ≠ []) : (rowText items).splitOn ' ' = items.map Scalar.text := by
  refine List.splitOn_intercalate ' ' ?_ (by simp [h])
  intro piece hpiece
  obtain ⟨s, -, rfl⟩ := List.mem_map.1 hpiece
  exact s.blank_not_mem_text

theorem splitOn_text_matrix (h : rows ≠ []) :
    (text (.matrix rows)).splitOn '\n' = rows.map rowText := by
  refine List.splitOn_intercalate '\n' ?_ (by simp [h])
  intro piece hpiece
  obtain ⟨row, -, rfl⟩ := List.mem_map.1 hpiece
  exact break_not_mem_rowText row

theorem fields_matrix (h : rows ≠ []) (hrow : ∀ row ∈ rows, row ≠ []) :
    fields (text (.matrix rows)) = rows.map (List.map Scalar.text) := by
  rw [fields, splitOn_text_matrix h, List.map_map]
  exact List.map_congr_left fun row hmem => splitOn_rowText (hrow row hmem)

theorem trimmed_rowText (h : items ≠ []) : Text.Trimmed (rowText items) := by
  refine Text.trimmed_intercalate (by simp [h]) ?_ _
  intro piece hpiece
  obtain ⟨s, -, rfl⟩ := List.mem_map.1 hpiece
  exact s.trimmed_text

theorem trimmed_text_matrix (h : rows ≠ []) (hrow : ∀ row ∈ rows, row ≠ []) :
    Text.Trimmed (text (.matrix rows)) := by
  refine Text.trimmed_intercalate (by simp [h]) ?_ _
  intro line hline
  obtain ⟨row, hmem, rfl⟩ := List.mem_map.1 hline
  exact trimmed_rowText (hrow row hmem)

theorem map_ofText_text (rows : List (List Scalar)) :
    (rows.map (List.map Scalar.text)).map (List.map Scalar.ofText) =
      rows.map (List.map fun s => some s.forgetPayload) := by
  have hread : Scalar.ofText ∘ Scalar.text = fun s => some s.forgetPayload :=
    funext Scalar.ofText_text
  rw [List.map_map]
  refine List.map_congr_left fun row _ => ?_
  rw [Function.comp_apply, List.map_map, hread]

/-- The fields of a matrix are the texts of its numbers, row by row, with nothing around them.  A
vector is written as a matrix of one row, and a scalar as a vector of one number. -/
theorem fields_text :
    (∀ rows : List (List Scalar), rows ≠ [] → (∀ row ∈ rows, row ≠ []) →
      fields (text (.matrix rows)) = rows.map (List.map Scalar.text) ∧
      (∀ line ∈ fields (text (.matrix rows)), ∀ field ∈ line, field ≠ []) ∧
      (fields (text (.matrix rows))).map (List.map Scalar.ofText) =
        rows.map (List.map fun s => some s.forgetPayload) ∧
      Text.Trimmed (text (.matrix rows))) ∧
    (∀ items, text (.vector items) = text (.matrix [items])) ∧
    ∀ s, text (.scalar s) = text (.vector [s]) := by
  refine ⟨fun rows h hrow => ?_, fun items => text_eq _, fun s => ?_⟩
  · have hfields := fields_matrix h hrow
    refine ⟨hfields, ?_, by rw [hfields, map_ofText_text], trimmed_text_matrix h hrow⟩
    intro line hline field hfield
    rw [hfields] at hline
    obtain ⟨row, -, rfl⟩ := List.mem_map.1 hline
    obtain ⟨s, -, rfl⟩ := List.mem_map.1 hfield
    exact s.trimmed_text.ne_nil
  · rw [text, text, rowText, List.map_singleton, List.intercalate_singleton]

/-- Rows of different lengths, with a number that is none and a zero with a sign. -/
def raggedRows : List (List Scalar) :=
  [[.integer (-3), .real .nan], [.real (.signed true .zero)]]

theorem fields_text_raggedRows :
    raggedRows ≠ [] ∧ (∀ row ∈ raggedRows, row ≠ []) ∧
      text (.matrix raggedRows) = "-3 nan\n-0.0".toList ∧
      fields "-3 nan\n-0.0".toList =
        [["-3".toList, "nan".toList], ["-0.0".toList]] := by
  have hne : raggedRows ≠ [] := by decide
  have hrow : ∀ row ∈ raggedRows, row ≠ [] := by decide
  have htext : text (.matrix raggedRows) = "-3 nan\n-0.0".toList := rfl
  have hfields := (fields_text.1 raggedRows hne hrow).1
  rw [htext] at hfields
  exact ⟨hne, hrow, htext, hfields⟩

end Value
end InputDeck
