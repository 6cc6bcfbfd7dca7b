/-
Documents that hold whole numbers of any length.

A whole number of 64 bits is loaded and written as it is.  Any other is loaded as a real, which is
written with a point or an exponent, or the document is refused: no whole number is written as
another one (`whole_literal_written`).
-/
import InputDeck.Proofs.Json.RealText
import InputDeck.Proofs.Number.Integers
import InputDeck.Proofs.Variables.Gap

namespace InputDeck

open Number

namespace Number

/-- A whole number with no needless zero, and with a minus sign only if it is not zero. -/
structure IsCanonical (negative : Bool) (digits : List Char) : Prop where
  isTight : IsTight digits
  ne_zero : negative = true → digits ≠ ['0']

variable {negative : Bool} {digits : List Char}

theorem IsCanonical.ofDigits_pos (h : IsCanonical negative digits) (hnegative : negative = true) :
    0 < ofDigits digits := by
  refine Nat.pos_of_ne_zero fun hzero => h.ne_zero hnegative ?_
  have hdigits := toDigits_ofDigits h.isTight
  rw [hzero] at hdigits
  exact hdigits.symm

/-- Such a number is written as it is. -/
theorem IsCanonical.intText_eq (h : IsCanonical negative digits) :
    intText (signed negative (ofDigits digits)) = signText negative ++ digits := by
  have hpos := h.ofDigits_pos
  have hdigits := toDigits_ofDigits h.isTight
  have hnegative : decide (signed negative (ofDigits digits) < 0) = negative := by
    cases negative with
    | true =>
        have hlt := hpos rfl
        rw [decide_eq_true_iff, signed, if_pos rfl]
        omega
    | false =>
        rw [decide_eq_false_iff_not, signed, if_neg (by decide)]
        omega
  have hnatAbs : (signed negative (ofDigits digits)).natAbs = ofDigits digits := by
    cases negative with
    | true => rw [signed, if_pos rfl, Int.natAbs_neg, Int.natAbs_natCast]
    | false => rw [signed, if_neg (by decide), Int.natAbs_natCast]
  rw [intText, hnegative, hnatAbs, hdigits]

end Number

/-- A finite real is written with a point or an exponent. -/
theorem Magnitude.mem_text {m : Magnitude} (hfinite : m ≠ infinity) :
    '.' ∈ m.text ∨ 'e' ∈ m.text := by
  unfold text
  rw [if_neg hfinite]
  split_ifs with hzero
  · simp
  · obtain ⟨first, rest, mark, -, htext, -⟩ := Decimal.isScientific_scientific (isRow_shortest hzero)
    simp [htext]
  · obtain ⟨row, rest, -, htext⟩ := Decimal.exists_row_pointed (isRow_shortest hzero)
    simp [htext]

theorem Scalar.mem_text_real {x : Binary64} (hfinite : (real x).isFinite = true) :
    '.' ∈ (real x).text ∨ 'e' ∈ (real x).text := by
  cases x with
  | signed negative m =>
      have hmem := Magnitude.mem_text ((Magnitude.isFinite_iff m).1 hfinite)
      exact hmem.imp (List.mem_append_right _) (List.mem_append_right _)
  | unordered negative payload => simp [isFinite, Binary64.isFinite] at hfinite

namespace Json

open Variables (scalarOf scalarOf_eq_iff)

namespace Number

variable {negative : Bool} {n : ℕ} {k : Number} {i : Int64}

/-- A whole number is taken for no other whole one. -/
theorem toInt_of_ofWhole? (hk : ofWhole? negative n = some k) (hi : scalarOf k = .integer i) :
    i.toInt = signed negative n := by
  unfold ofWhole? at hk
  split_ifs at hk with hnegative hrange hlimit <;> obtain rfl := Option.some.inj hk
  · obtain rfl := Scalar.integer.inj hi
    rw [Int64.toInt_ofInt_of_le (by omega) (by omega), signed, if_pos hnegative]
  · cases scalarOf_eq_iff.1 hi with
    | natural h => rw [h, UInt64.toNat_ofNat_of_lt' hlimit, signed, if_neg hnegative]

theorem exists_ofWhole? (hpos : negative = true → 0 < n) (hfits : Fits64 (signed negative n)) :
    ∃ k i, ofWhole? negative n = some k ∧ scalarOf k = .integer i := by
  obtain ⟨hlow, hhigh⟩ := hfits
  unfold ofWhole?
  cases negative with
  | true =>
      rw [signed, if_pos rfl] at hlow
      have hrange : 0 < n ∧ n ≤ 0x8000000000000000 := ⟨hpos rfl, by omega⟩
      rw [if_pos rfl, dif_pos hrange]
      exact ⟨_, _, rfl, rfl⟩
  | false =>
      rw [signed, if_neg (by decide)] at hhigh
      have hlimit : n < 0x10000000000000000 := by omega
      have hnat : (UInt64.ofNat n).toNat = n := UInt64.toNat_ofNat_of_lt' hlimit
      rw [if_neg (by decide), if_pos hlimit]
      exact ⟨_, _, rfl, by rw [Variables.scalarOf_natural, hnat, if_pos (by omega)]⟩

end Number

namespace Literal

variable {negative : Bool} {digits : List Char}

theorem splitLiteral_whole (h : IsTight digits) :
    Token.splitLiteral (signText negative ++ digits) =
      some (⟨negative, digits, none, none⟩, []) := by
  have htext : IsText ⟨negative, digits, none, none⟩ _ := .signed (.parts h .none .none)
  have hsplit := Token.splitLiteral_of_isText htext endsLiteral_nil
  rw [List.append_nil, List.append_nil, List.append_nil] at hsplit
  exact hsplit

theorem scalar?_of_fits64 (h : IsCanonical negative digits)
    (hfits : Fits64 (signed negative (ofDigits digits))) :
    ∃ i : Int64, scalar? ⟨negative, digits, none, none⟩ = some (.integer i) ∧
      (Scalar.integer i).text = signText negative ++ digits := by
  obtain ⟨k, i, hk, hi⟩ := Number.exists_ofWhole? h.ofDigits_pos hfits
  have hwhole : whole? ⟨negative, digits, none, none⟩ = some k := hk
  refine ⟨i, by rw [scalar?, number?, hwhole, Option.some_or, Option.map_some, hi], ?_⟩
  rw [Scalar.text, Number.toInt_of_ofWhole? hk hi, h.intText_eq]

theorem scalar?_of_not_fits64 (hfits : ¬Fits64 (signed negative (ofDigits digits))) {s : Scalar}
    (hs : scalar? ⟨negative, digits, none, none⟩ = some s) : '.' ∈ s.text ∨ 'e' ∈ s.text := by
  obtain ⟨k, hk, rfl⟩ := Option.map_eq_some_iff.1 hs
  have hfinite := isFinite_of_number? hk
  cases hscalar : scalarOf k with
  | real x => exact Scalar.mem_text_real (hscalar ▸ hfinite)
  | integer i =>
      rw [number?, Option.or_eq_some_iff] at hk
      rcases hk with hk | ⟨-, hk⟩
      · exact absurd (Number.toInt_of_ofWhole? hk hscalar ▸ fits64_toInt i) hfits
      · obtain ⟨m, -, rfl⟩ := Option.map_eq_some_iff.1 hk
        simp [scalarOf, Number.toInt64?] at hscalar

/-- The literal itself has neither point nor exponent. -/
theorem not_mem_whole (negative : Bool) (h : IsTight digits) :
    '.' ∉ signText negative ++ digits ∧ 'e' ∉ signText negative ++ digits := by
  have hsign : '.' ∉ signText negative ∧ 'e' ∉ signText negative := by
    cases negative <;> decide
  constructor
  · intro hmem
    rcases List.mem_append.1 hmem with hmem | hmem
    · exact hsign.1 hmem
    · exact absurd (h.isDigit _ hmem) (by decide)
  · intro hmem
    rcases List.mem_append.1 hmem with hmem | hmem
    · exact hsign.2 hmem
    · exact absurd (h.isDigit _ hmem) (by decide)

theorem text_eq_whole_iff (h : IsCanonical negative digits) {s : Scalar}
    (hs : scalar? ⟨negative, digits, none, none⟩ = some s) :
    s.text = signText negative ++ digits ↔ Fits64 (signed negative (ofDigits digits)) := by
  constructor
  · intro htext
    by_contra hfits
    have hmem := scalar?_of_not_fits64 hfits hs
    obtain ⟨hpoint, hmark⟩ := not_mem_whole negative h.isTight
    rw [htext] at hmem
    exact hmem.elim hpoint hmark
  · intro hfits
    obtain ⟨i, hi, htext⟩ := scalar?_of_fits64 h hfits
    rw [hi] at hs
    exact Option.some.inj hs ▸ htext

end Literal

end Json

namespace Variables

open Json (Tree)

/-- A whole number in a document is written as it is just if it is one of 64 bits.  Otherwise the
document is refused, or a point or an exponent shows that something else is written. -/
theorem whole_literal_written {negative : Bool} {digits : List Char}
    (hcanonical : IsCanonical negative digits) :
    ∃ l n, Json.Token.splitLiteral (signText negative ++ digits) = some (l, []) ∧
      readInt (signText negative ++ digits) = some n ∧
      ∀ {g : Gap (List Char) Tree}, g.Fits → ∀ {cs : List Char},
        Tree.ofText cs = (g.tree l, true) →
          ¬Fits64 n ∧ ofJsonText cs = .error (.json .malformed) ∨
          ∃ vars a, ofJsonText cs = .ok vars ∧ g.address? = some a ∧
            ∀ token, a.AskedBy token → Template.marker ∉ token → ∃ text piece,
              Template.Writes vars token text ∧ a.piece? text = some piece ∧
                (piece = signText negative ++ digits ↔ Fits64 n) ∧
                (¬Fits64 n → '.' ∈ piece ∨ 'e' ∈ piece) := by
  refine ⟨_, _, Json.Literal.splitLiteral_whole hcanonical.isTight,
    readInt_signText hcanonical.isTight.toIsRow negative, ?_⟩
  intro g hfits cs hcs
  cases hs : Json.Literal.scalar? ⟨negative, digits, none, none⟩ with
  | none =>
      refine Or.inl ⟨fun hrange => ?_, ofJsonText_of_scalar?_eq_none hfits hs hcs⟩
      obtain ⟨i, hi, -⟩ := Json.Literal.scalar?_of_fits64 hcanonical hrange
      simp [hi] at hs
  | some s =>
      obtain ⟨vars, a, hvars, haddress, hat⟩ := ofJsonText_of_fits hfits hs hcs
      refine Or.inr ⟨vars, a, hvars, haddress, ?_⟩
      intro token hasked hmarker
      obtain ⟨text, hwrites, hpiece⟩ := exists_writes hat hmarker hasked
      exact ⟨text, s.text, hwrites, hpiece, Json.Literal.text_eq_whole_iff hcanonical hs,
        fun hrange => Json.Literal.scalar?_of_not_fits64 hrange hs⟩

/-! The first whole number that is too large, in a matrix. -/

def largeDigits : List Char :=
  ['9', '2', '2', '3', '3', '7', '2', '0', '3', '6', '8', '5', '4', '7', '7', '5', '8', '0', '8']

def largeDocument : List Char :=
  "\x7b\"load\": [3], \"grid\": [[1, 2], [4, 9223372036854775808]]\x7d".toList

theorem whole_literal_written_largeDocument :
    IsCanonical false largeDigits ∧ gridGap.Fits ∧
      Tree.ofText largeDocument = (gridGap.tree ⟨false, largeDigits, none, none⟩, true) ∧
      ∃ n, readInt (signText false ++ largeDigits) = some n ∧
        (¬Fits64 n ∧ ofJsonText largeDocument = .error (.json .malformed) ∨
          ∃ vars a, ofJsonText largeDocument = .ok vars ∧ gridGap.address? = some a ∧
            ∀ token, a.AskedBy token → Template.marker ∉ token → ∃ text piece,
              Template.Writes vars token text ∧ a.piece? text = some piece ∧
                (piece = signText false ++ largeDigits ↔ Fits64 n) ∧
                (¬Fits64 n → '.' ∈ piece ∨ 'e' ∈ piece)) := by
  have hdigits : Nat.toDigits 10 0x8000000000000000 = largeDigits := by decide +kernel
  have hcanonical : IsCanonical false largeDigits :=
    ⟨hdigits ▸ isTight_toDigits _, fun hnegative => absurd hnegative (by decide)⟩
  have htree : Tree.ofText largeDocument =
      (gridGap.tree ⟨false, largeDigits, none, none⟩, true) := rfl
  obtain ⟨l, n, hliteral, hread, hwritten⟩ := whole_literal_written hcanonical
  rw [Json.Literal.splitLiteral_whole hcanonical.isTight] at hliteral
  obtain ⟨rfl, -⟩ := Prod.mk.inj (Option.some.inj hliteral)
  exact ⟨hcanonical, fits_gridGap, htree, n, hread, hwritten fits_gridGap htree⟩

end Variables
end InputDeck
