/-
The text of a real, made from the forms that any number has.

A number can be shown as in a cell, with no exponent and a point only before a fraction, or with an
exponent that is written like any whole number.  In a deck the first form needs a point at its end
if it has none, and the exponent of the second a sign and two digits.  `text_real` says that the text
of a real is one of the two forms, amended in this way.

An exponent is looked for by its mark, and a text without one is left alone.  Both amendments are
made to a text of which nothing is known, so what they add to it is said for every text
(`mem_withExponent`).
-/
import InputDeck.Proofs.Scalar.RoundTrip
import InputDeck.Proofs.Value.Characters
import InputDeck.Workbook.Cell

namespace InputDeck

open Number

namespace Number

/-- The text with a point in it, and a zero behind the point if there was none. -/
def withPoint (cs : List Char) : List Char := if '.' ∈ cs then cs else cs ++ ['.', '0']

def padExponent : List Char → List Char
  | '-' :: digits => '-' :: (List.replicate (2 - digits.length) '0' ++ digits)
  | digits => '+' :: (List.replicate (2 - digits.length) '0' ++ digits)

/-- The text with a sign and at least two digits for the exponent, if it has one. -/
def withExponent (cs : List Char) : List Char :=
  match cs.dropWhile (· ≠ 'e') with
  | [] => cs
  | _ :: exponent => cs.takeWhile (· ≠ 'e') ++ 'e' :: padExponent exponent

variable {cs exponent : List Char} {c : Char}

theorem padExponent_intText (e : Int) : padExponent (intText e) = Decimal.exponentMark e := by
  unfold intText Decimal.exponentMark
  by_cases he : e < 0
  · simp only [he, decide_true, signText, if_true]
    rfl
  · simp only [he, decide_false, signText, Bool.false_eq_true, if_false, List.nil_append]
    unfold padExponent
    split
    · rename_i digits hdigits
      have hminus : '-' ∈ Nat.toDigits 10 e.natAbs := hdigits ▸ List.mem_cons_self
      exact absurd ((isRow_toDigits e.natAbs).isDigit _ hminus) (by decide)
    · rfl

theorem withExponent_append (h : 'e' ∉ cs) :
    withExponent (cs ++ 'e' :: exponent) = cs ++ 'e' :: padExponent exponent := by
  have hmark : ∀ c ∈ cs, decide (c ≠ 'e') = true := by
    intro c hc
    exact decide_eq_true fun he => h (he ▸ hc)
  have hdrop : (cs ++ 'e' :: exponent).dropWhile (· ≠ 'e') = 'e' :: exponent := by
    rw [List.dropWhile_append_of_pos hmark, List.dropWhile_cons_of_neg (by simp)]
  have htake : (cs ++ 'e' :: exponent).takeWhile (· ≠ 'e') = cs := by
    rw [List.takeWhile_append_of_pos hmark, List.takeWhile_cons_of_neg (by simp), List.append_nil]
  rw [withExponent, hdrop, htake]

theorem mem_padExponent (h : c ∈ padExponent exponent) : c ∈ exponent ∨ isDecimal c = true := by
  unfold padExponent at h
  split at h <;> rename_i digits
  · rcases List.mem_cons.1 h with rfl | h
    · exact Or.inr rfl
    · exact (List.mem_append.1 h).symm.imp (List.mem_cons_of_mem _) isDecimal_of_mem_replicate_zero
  · rcases List.mem_cons.1 h with rfl | h
    · exact Or.inr rfl
    · exact (List.mem_append.1 h).symm.imp id isDecimal_of_mem_replicate_zero

theorem mem_withExponent (h : c ∈ withExponent cs) : c ∈ cs ∨ isDecimal c = true := by
  unfold withExponent at h
  split at h
  · exact Or.inl h
  · rename_i mark exponent hcs
    have hexponent : ∀ c ∈ exponent, c ∈ cs := fun c hc =>
      (List.dropWhile_sublist _).subset (hcs ▸ List.mem_cons_of_mem mark hc)
    rcases List.mem_append.1 h with h | h
    · exact Or.inl ((List.takeWhile_sublist _).subset h)
    · rcases List.mem_cons.1 h with rfl | h
      · exact Or.inr rfl
      · exact (mem_padExponent h).imp (hexponent c) id

end Number

namespace Decimal

/-- The digits, and the lead as an exponent which is written like any whole number. -/
def exponential (d : Decimal) : List Char :=
  match d.digits with
  | [] => []
  | [c] => c :: 'e' :: intText d.lead
  | c :: rest => c :: '.' :: (rest ++ 'e' :: intText d.lead)

variable {d : Decimal}

theorem exists_mantissa (hd : IsRow d.digits) : ∃ mantissa, 'e' ∉ mantissa ∧
    d.exponential = mantissa ++ 'e' :: intText d.lead ∧
    d.scientific = mantissa ++ 'e' :: exponentMark d.lead := by
  have hdigit : 'e' ∉ d.digits := fun he => absurd (hd.isDigit _ he) (by decide)
  unfold exponential scientific
  match hdigits : d.digits with
  | [] => exact absurd hdigits hd.ne_nil
  | [c] => exact ⟨[c], hdigits ▸ hdigit, rfl, rfl⟩
  | c :: next :: rest =>
      rw [hdigits, List.mem_cons, not_or] at hdigit
      refine ⟨c :: '.' :: next :: rest, ?_, rfl, rfl⟩
      rw [List.mem_cons, List.mem_cons, not_or, not_or]
      exact ⟨hdigit.1, by decide, hdigit.2⟩

theorem withExponent_exponential (negative : Bool) (hd : IsRow d.digits) :
    withExponent (signText negative ++ d.exponential) = signText negative ++ d.scientific := by
  obtain ⟨mantissa, hmantissa, hexponential, hscientific⟩ := exists_mantissa hd
  have hmark : 'e' ∉ signText negative ++ mantissa := by cases negative <;> simp [signText, hmantissa]
  rw [hexponential, hscientific, ← List.append_assoc, ← List.append_assoc,
    withExponent_append hmark, padExponent_intText]

theorem withPoint_plain (negative : Bool) (hd : IsRow d.digits) :
    withPoint (signText negative ++ d.plain) = signText negative ++ d.pointed := by
  unfold withPoint plain pointed
  split
  · have hpoint : '.' ∉ signText negative ++ d.whole := by
      intro h
      rcases List.mem_append.1 h with h | h
      · cases negative <;> simp [signText] at h
      · exact absurd ((isRow_whole hd).isDigit _ h) (by decide)
    rw [if_neg hpoint, List.append_assoc]
  · exact if_pos (by simp)

end Decimal

namespace Binary64

/-- A number as a cell shows it but with a point, or with an exponent; the words for the numbers
that digits cannot write are in small letters. -/
def formatted : Binary64 → List Char
  | .signed negative m =>
      if m = .infinity then signText negative ++ ['i', 'n', 'f']
      else if Magnitude.scientificFrom ≤ m ∨ m ≠ .zero ∧ m < Magnitude.scientificBelow then
        withExponent (signText negative ++ m.shortest.exponential)
      else withPoint (Workbook.Cell.numberText (.signed negative m))
  | .unordered _ _ => ['n', 'a', 'n']

end Binary64

namespace Scalar

theorem text_real (x : Binary64) : text (.real x) = x.formatted := by
  cases x with
  | unordered negative payload => rfl
  | signed negative m =>
      rw [text, Magnitude.text, Binary64.formatted]
      by_cases hinfinity : m = .infinity
      · rw [if_pos hinfinity, if_pos hinfinity]
      rw [if_neg hinfinity, if_neg hinfinity]
      by_cases hzero : m = .zero
      · -- Zero is below both thresholds, but has no exponent and no shortest decimal.
        have hlarge : ¬Magnitude.scientificFrom ≤ Magnitude.zero := by decide +kernel
        subst hzero
        rw [if_pos rfl, if_neg fun h => h.elim hlarge fun hlow => hlow.1 rfl,
          Workbook.Cell.numberText, if_neg hinfinity, if_pos rfl]
        cases negative <;> rfl
      have hrow := Magnitude.isRow_shortest hzero
      rw [if_neg hzero]
      by_cases hscientific : Magnitude.scientificFrom ≤ m ∨ m < Magnitude.scientificBelow
      · rw [if_pos hscientific, if_pos (hscientific.imp id fun hlow => ⟨hzero, hlow⟩),
          Decimal.withExponent_exponential negative hrow]
      · rw [if_neg hscientific, if_neg fun h => hscientific (h.imp id And.right),
          Workbook.Cell.numberText, if_neg hinfinity, if_neg hzero,
          Decimal.withPoint_plain negative hrow]

end Scalar
end InputDeck
