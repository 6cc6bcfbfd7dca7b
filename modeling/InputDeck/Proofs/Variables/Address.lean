/-
Numbers among variables, and where their texts stand in a deck.

A number is numbered itself, or it has a position in a named value.  The text of a value has the
texts of its numbers at the same positions (`Position.piece?_text`): a cut at line breaks and blanks
finds them, since numbers are written without either.  So a token that asks for a variable puts the
text of each of its numbers into the line, at the number's address (`Variables.exists_writes`).
-/
import InputDeck.Proofs.Template.Tokens
import InputDeck.Proofs.Value.Fields

namespace InputDeck

/-- Where a number stands in a value. -/
inductive Position where
  | scalar
  | vector (column : Nat)
  | matrix (row column : Nat)

/-- The part of a value's text that stands at a position. -/
def Position.piece? : Position → List Char → Option (List Char)
  | .scalar, text => some text
  | .vector column, text => (text.splitOn ' ')[column]?
  | .matrix row column, text => (text.splitOn '\n')[row]?.bind fun line =>
      (line.splitOn ' ')[column]?

namespace Value

def at? : Value → Position → Option Scalar
  | .scalar s, .scalar => some s
  | .vector items, .vector column => items[column]?
  | .matrix rows, .matrix row column => rows[row]?.bind fun items => items[column]?
  | _, _ => none

theorem piece_of_row {items : List Scalar} {column : Nat} {s : Scalar}
    (h : items[column]? = some s) : ((rowText items).splitOn ' ')[column]? = some s.text := by
  have hne : items ≠ [] := by
    rintro rfl
    simp at h
  rw [splitOn_rowText hne, List.getElem?_map, h, Option.map_some]

end Value

theorem Position.piece?_text {v : Value} {position : Position} {s : Scalar}
    (h : v.at? position = some s) : position.piece? v.text = some s.text := by
  cases v with
  | scalar s' =>
      cases position with
      | scalar =>
          obtain rfl : s' = s := Option.some.inj h
          rfl
      | vector column => simp [Value.at?] at h
      | matrix row column => simp [Value.at?] at h
  | vector items =>
      cases position with
      | vector column => exact Value.piece_of_row h
      | scalar => simp [Value.at?] at h
      | matrix row column => simp [Value.at?] at h
  | matrix rows =>
      cases position with
      | matrix row column =>
          obtain ⟨items, hrow, hcolumn⟩ := Option.bind_eq_some_iff.1 h
          have hne : rows ≠ [] := by
            rintro rfl
            simp at hrow
          show ((Value.text (.matrix rows)).splitOn '\n')[row]?.bind _ = _
          rw [Value.splitOn_text_matrix hne, List.getElem?_map, hrow, Option.map_some,
            Option.bind_some, Value.piece_of_row hcolumn]
      | scalar => simp [Value.at?] at h
      | vector column => simp [Value.at?] at h

/-! ## Addresses -/

/-- Which number among variables: one of those numbered from zero, or one in a named value. -/
inductive Address where
  | numbered (index : Nat)
  | named (key : String) (position : Position)

namespace Address

/-- That a token asks for the variable in which the number stands.  Tokens count from one. -/
def AskedBy (token : List Char) : Address → Prop
  | .numbered index => ∃ n, Number.readInt64 (Text.trim token) = some n ∧ n.toInt = index + 1
  | .named key _ => String.ofList token = key

/-- The part of the text of that variable that stands at the address. -/
def piece? : Address → List Char → Option (List Char)
  | .numbered _, text => some text
  | .named _ position, text => position.piece? text

end Address

namespace Template

/-- That a token gives way to a text, in whatever line it stands. -/
def Writes (vars : Variables) (token text : List Char) : Prop :=
  ∀ {place : Place} {before rest : List Char}, marker ∉ before → Balanced rest →
    substitute vars place (before ++ marker :: (token ++ marker :: rest)) =
      (substitute vars place rest).map (before ++ text ++ ·)

theorem writes_of_resolve {vars : Variables} {token text : List Char} (htoken : marker ∉ token)
    (h : ∀ place, resolve vars place token = .ok (some text)) : Writes vars token text := by
  intro place before rest hbefore hrest
  have hvars : vars ≠ .absent := by
    rintro rfl
    simpa [resolve] using h place
  obtain ⟨lookUp, hlookUp⟩ := exists_resolves hvars place
  have hvalue : lookUp token = .ok text := by
    have hmap := (hlookUp.resolve_eq token).symm.trans (h place)
    obtain ⟨value, hvalue, he⟩ := Result.map_eq_ok_iff.1 hmap
    rw [hvalue, Option.some.inj he]
  rw [substitute_token hlookUp hbefore htoken hrest, hvalue]
  rfl

end Template

namespace Variables

def at? : Variables → Address → Option Scalar
  | .positional values, .numbered index => values[index]?
  | .named values, .named key position => (values.get? key).bind fun v => v.at? position
  | _, _ => none

/-- A token that asks for a number's variable writes a text with that number at its address. -/
theorem exists_writes {vars : Variables} {a : Address} {s : Scalar} (h : vars.at? a = some s)
    {token : List Char} (htoken : Template.marker ∉ token) (hasked : a.AskedBy token) :
    ∃ text, Template.Writes vars token text ∧ a.piece? text = some s.text := by
  cases vars with
  | absent => simp [at?] at h
  | positional values =>
      cases a with
      | named key position => simp [at?] at h
      | numbered index =>
          obtain ⟨n, hn, hindex⟩ := hasked
          refine ⟨s.text, Template.writes_of_resolve htoken ?_, rfl⟩
          intro place
          have hone : 1 ≤ n.toInt := by omega
          have hplace : (n.toInt - 1).toNat = index := by omega
          have hvalue : values[index]? = some s := h
          simp only [Template.resolve, Template.resolveIndex, hn, if_pos hone, hplace, hvalue]
          rfl
  | named values =>
      cases a with
      | numbered index => simp [at?] at h
      | named key position =>
          obtain ⟨v, hv, hs⟩ := Option.bind_eq_some_iff.1 h
          obtain rfl : String.ofList token = key := hasked
          refine ⟨v.text, Template.writes_of_resolve htoken ?_, Position.piece?_text hs⟩
          intro place
          simp only [Template.resolve, Template.resolveKey, hv]
          rfl

end Variables
end InputDeck
