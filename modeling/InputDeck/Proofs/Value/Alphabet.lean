/-
The alphabet that values are written in.

A number is written with numerals only, and there is no numeral that is not in the text of some
number.  A value puts blanks and line breaks between the texts of its numbers and adds nothing else:
without them the texts are left, one after the other, and how many there are can be told from the
lengths of the rows, whatever these are.  So no text which takes the place of a token has a marker
in it (`text_alphabet`).
-/
import InputDeck.Proofs.Number.Canonical
import InputDeck.Proofs.Number.Exact
import InputDeck.Proofs.Number.Integers
import InputDeck.Proofs.Result
import InputDeck.Proofs.Scalar.Layouts
import InputDeck.Proofs.Value.Fields
import InputDeck.Template.Line

namespace InputDeck

open Number

namespace Scalar

theorem filter_text (s : Scalar) : s.text.filter isNumeral = s.text :=
  List.filter_eq_self.2 fun _ => isNumeral_of_mem_text

/-- Both words for numbers that are not finite have an `n`. -/
theorem n_mem_text {s : Scalar} (h : s.isFinite = false) : 'n' ∈ s.text := by
  cases s with
  | integer n => simp [isFinite] at h
  | real x =>
      cases x with
      | unordered negative payload => exact List.mem_cons_self
      | signed negative m =>
          have hnot : m.isFinite = false := h
          have hinfinity : m = .infinity := by
            by_contra hne
            rw [(Magnitude.isFinite_iff m).2 hne] at hnot
            exact absurd hnot (by decide)
          rw [hinfinity]
          exact List.mem_append_right _ (by decide)

theorem all_isDecimal_text (s : Scalar) : s.text.all isDecimal = s.isFinite := by
  cases hfinite : s.isFinite with
  | true => exact List.all_eq_true.2 fun _ => isDecimal_of_mem_text hfinite
  | false => exact List.all_eq_false.2 ⟨'n', n_mem_text hfinite, by decide⟩

/-! ## Every numeral is needed -/

theorem exists_text_of_isDigit {c : Char} (h : c.isDigit = true) :
    ∃ n : Int64, text (.integer n) = [c] := by
  have hdigits : ∀ d ∈ [c], d.isDigit = true := List.forall_mem_singleton.2 h
  have hlt : ofDigits [c] < 10 := ofDigits_lt hdigits
  obtain ⟨n, hn⟩ := exists_int64? (n := ofDigits [c]) ⟨by omega, by omega⟩
  have htight : IsTight [c] := ⟨⟨by simp, hdigits⟩, fun hrest => (List.cons.inj hrest).2.symm⟩
  refine ⟨n, ?_⟩
  rw [text, toInt_of_int64? hn, intText, decide_eq_false (by omega), Int.natAbs_natCast,
    toDigits_ofDigits htight]
  rfl

theorem exists_text_of_isNumeral {c : Char} (h : isNumeral c = true) :
    ∃ s : Scalar, c ∈ s.text := by
  rw [isNumeral, Bool.or_eq_true] at h
  rcases h with h | h
  · obtain ⟨n, hn⟩ := exists_text_of_isDigit h
    exact ⟨.integer n, by simp [hn]⟩
  · have hzero : text (.real (.signed true .zero)) = ['-', '0', '.', '0'] := rfl
    have hlarge : text (.real (.signed false (.ofDecimal 1 16))) = ['1', 'e', '+', '1', '6'] := by
      decide +kernel
    have hinfinity : text (.real (.signed false .infinity)) = ['i', 'n', 'f'] := rfl
    have hnan : text (.real .nan) = ['n', 'a', 'n'] := rfl
    simp only [List.contains_iff_mem, List.mem_cons, List.not_mem_nil, or_false] at h
    have hmem : c ∈ ['-', '0', '.', '0'] ∨ c ∈ ['1', 'e', '+', '1', '6'] ∨ c ∈ ['i', 'n', 'f'] ∨
        c ∈ ['n', 'a', 'n'] := by
      rcases h with rfl | rfl | rfl | rfl | rfl | rfl | rfl | rfl <;> decide
    rcases hmem with hc | hc | hc | hc
    · exact ⟨_, hzero.symm ▸ hc⟩
    · exact ⟨_, hlarge.symm ▸ hc⟩
    · exact ⟨_, hinfinity.symm ▸ hc⟩
    · exact ⟨_, hnan.symm ▸ hc⟩

end Scalar

namespace Value

/-! ## What is between the numbers -/

theorem filter_rowText (items : List Scalar) :
    (rowText items).filter isNumeral = items.flatMap Scalar.text := by
  rw [rowText, Text.filter_intercalate (by decide), List.flatMap_map]
  exact congrArg (items.flatMap ·) (funext Scalar.filter_text)

theorem filter_text (v : Value) :
    v.text.filter isNumeral = v.rows.flatten.flatMap Scalar.text := by
  rw [text_eq, Text.filter_intercalate (by decide), List.flatMap_map, List.flatten_eq_flatMap,
    List.flatMap_assoc]
  exact congrArg (v.rows.flatMap ·) (funext filter_rowText)

theorem count_blank_rowText (items : List Scalar) :
    (rowText items).count ' ' = items.length - 1 := by
  rw [rowText, Text.count_intercalate, List.length_map]
  intro piece hpiece
  obtain ⟨s, -, rfl⟩ := List.mem_map.1 hpiece
  exact s.blank_not_mem_text

theorem count_blank_text (v : Value) :
    v.text.count ' ' = (v.rows.map fun row => row.length - 1).sum := by
  have hbreak : ('\n' == ' ') = false := by decide
  have hfilter := Text.filter_intercalate (p := (· == ' ')) hbreak (v.rows.map rowText)
  rw [text_eq, List.count_eq_length_filter, hfilter, List.length_flatMap, List.map_map]
  have hrow : ∀ row, ((rowText row).filter (· == ' ')).length = row.length - 1 := by
    intro row
    rw [← List.count_eq_length_filter, count_blank_rowText]
  exact congrArg (fun f => (v.rows.map f).sum) (funext hrow)

theorem count_break_text (v : Value) : v.text.count '\n' = v.rows.length - 1 := by
  rw [text_eq, Text.count_intercalate, List.length_map]
  intro line hline
  obtain ⟨row, -, rfl⟩ := List.mem_map.1 hline
  exact break_not_mem_rowText row

end Value

namespace Template

theorem exists_value_of_resolve {vars : Variables} {place : Place} {token text : List Char}
    (h : resolve vars place token = .ok (some text)) : ∃ v : Value, v.text = text := by
  cases vars with
  | absent => simp [resolve] at h
  | positional values =>
      obtain ⟨s, -, hs⟩ := Result.map_eq_ok_iff.1 h
      exact ⟨.scalar s, Option.some.inj hs⟩
  | named values =>
      obtain ⟨v, -, hv⟩ := Result.map_eq_ok_iff.1 h
      exact ⟨v, Option.some.inj hv⟩

end Template

namespace Value

/-- A value of any shape is the texts of its numbers with blanks and line breaks between them.  A
number is written with numerals, of which there is at least one, and the numerals are just the
characters that numbers need.  A real is shown in one of two forms which are then amended; amending
a text adds characters of decimals at most, also if there is no exponent to amend.  What takes the
place of a token is the text of a value. -/
theorem text_alphabet :
    (∀ v : Value,
      (∀ c ∈ v.text, isNumeral c = true ∨ c = ' ' ∨ c = '\n') ∧
      v.text.filter isNumeral = v.rows.flatten.flatMap Scalar.text ∧
      v.text.count ' ' = (v.rows.map fun row => row.length - 1).sum ∧
      v.text.count '\n' = v.rows.length - 1) ∧
    (∀ s : Scalar, s.text ≠ [] ∧ ' ' ∉ s.text ∧ '\n' ∉ s.text ∧
      s.text.all isDecimal = s.isFinite) ∧
    (∀ c, (∃ s : Scalar, c ∈ s.text) ↔ isNumeral c = true) ∧
    (∀ x : Binary64, Scalar.text (.real x) = x.formatted) ∧
    (∀ cs, ∀ c ∈ withExponent cs, c ∈ cs ∨ isDecimal c = true) ∧
    ∀ vars place token text, Template.resolve vars place token = .ok (some text) →
      (∃ v : Value, v.text = text) ∧ Template.marker ∉ text ∧ '\r' ∉ text ∧ '\t' ∉ text := by
  have halphabet : ∀ v : Value, ∀ c ∈ v.text, isNumeral c = true ∨ c = ' ' ∨ c = '\n' := by
    intro v c hc
    rcases mem_text hc with h | h | h
    · exact Or.inr (Or.inr h)
    · exact Or.inr (Or.inl h)
    · exact Or.inl h
  refine ⟨fun v => ?_, fun s => ?_, fun c => ?_, Scalar.text_real, fun cs c => mem_withExponent, ?_⟩
  · exact ⟨halphabet v, v.filter_text, v.count_blank_text, v.count_break_text⟩
  · exact ⟨s.trimmed_text.ne_nil, s.blank_not_mem_text, s.break_not_mem_text, s.all_isDecimal_text⟩
  · exact ⟨fun ⟨s, hc⟩ => s.isNumeral_of_mem_text hc, Scalar.exists_text_of_isNumeral⟩
  · intro vars place token text h
    obtain ⟨v, rfl⟩ := Template.exists_value_of_resolve h
    refine ⟨⟨v, rfl⟩, ?_, ?_, ?_⟩ <;> intro hc <;> exact absurd (halphabet v _ hc) (by decide)

/-- A matrix with an empty row, of numbers with an exponent, of none and of one digit. -/
def unevenRows : List (List Scalar) :=
  [[.real (.signed true (.ofDecimal 1 20)), .real .nan], [], [.integer (-3)]]

def unevenText : List Char := "-1e+20 nan\n\n-3".toList

def unevenVariables : Variables := .named (Table.ofList [("grid", .matrix unevenRows)])

theorem text_alphabet_unevenRows :
    Template.resolve unevenVariables ⟨"case.pot", 1⟩ "grid".toList = .ok (some unevenText) ∧
      Template.marker ∉ unevenText ∧ '\r' ∉ unevenText ∧ '\t' ∉ unevenText ∧
      unevenText.filter isNumeral = unevenRows.flatten.flatMap Scalar.text ∧
      unevenText.count ' ' = 1 ∧ unevenText.count '\n' = 2 ∧
      '+' ∈ unevenText ∧ (isNumeral '+' = true ∨ '+' = ' ' ∨ '+' = '\n') ∧
      '+' ∈ withExponent "-1e20".toList ∧ ('+' ∈ "-1e20".toList ∨ isDecimal '+' = true) := by
  obtain ⟨hvalue, -, -, -, hexponent, hresolve⟩ := text_alphabet
  have htext : text (.matrix unevenRows) = unevenText := by decide +kernel
  have htoken : Template.resolve unevenVariables ⟨"case.pot", 1⟩ "grid".toList =
      .ok (some unevenText) := htext ▸ rfl
  obtain ⟨-, hmarker, hreturn, htab⟩ := hresolve _ _ _ _ htoken
  obtain ⟨halphabet, hfilter, hblank, hbreak⟩ := hvalue (.matrix unevenRows)
  rw [htext] at halphabet hfilter hblank hbreak
  have hplus : '+' ∈ unevenText := by decide
  have hmarked : '+' ∈ withExponent "-1e20".toList := by decide
  exact ⟨htoken, hmarker, hreturn, htab, hfilter, hblank, hbreak, hplus, halphabet _ hplus, hmarked,
    hexponent _ _ hmarked⟩

end Value
end InputDeck
