/-
What the layouts of a decimal say.

`readDecimal` reads a number written with digits as what is written, a whole number and a power of
ten, with no rounding; `readMagnitude` is that and then one rounding.  A decimal stands for
`coefficient * 10 ^ exponent`.  Each layout writes the digits of the coefficient with more zeros or
the point somewhere else, and gives the exponent that undoes it.
-/
import InputDeck.Number.Decimal
import InputDeck.Proofs.Number.Digits

namespace InputDeck

open Number

namespace Number

/-- A number written with digits, as a whole number and the power of ten that goes with it. -/
def readDecimal (cs : List Char) : Option (Nat × Int) :=
  let whole := cs.takeWhile Char.isDigit
  let (fraction, rest) :=
    match cs.dropWhile Char.isDigit with
    | '.' :: rest => (rest.takeWhile Char.isDigit, rest.dropWhile Char.isDigit)
    | rest => ([], rest)
  if whole = [] ∧ fraction = [] then none
  else (readExponent rest).map fun e => (ofDigits (whole ++ fraction), e - fraction.length)

theorem readMagnitude_eq (cs : List Char) :
    readMagnitude cs = (readDecimal cs).map fun d => Magnitude.ofDecimal d.1 d.2 := by
  unfold readMagnitude readDecimal
  dsimp only
  rw [apply_ite (Option.map _), Option.map_none, Option.map_map]
  rfl

theorem readDecimal_of_point {cs whole rest : List Char} (hne : whole ≠ [])
    (hwhole : cs.takeWhile Char.isDigit = whole) (hrest : cs.dropWhile Char.isDigit = '.' :: rest) :
    readDecimal cs = (readExponent (rest.dropWhile Char.isDigit)).map fun e : Int =>
      (ofDigits (whole ++ rest.takeWhile Char.isDigit),
        e - (rest.takeWhile Char.isDigit).length) := by
  simp only [readDecimal, hwhole, hrest, hne, false_and, if_false]

theorem readDecimal_of_no_point {cs whole rest : List Char} (hne : whole ≠ [])
    (hwhole : cs.takeWhile Char.isDigit = whole) (hrest : cs.dropWhile Char.isDigit = rest)
    (hpoint : ∀ behind, rest ≠ '.' :: behind) :
    readDecimal cs = (readExponent rest).map fun e => (ofDigits whole, e) := by
  unfold readDecimal
  rw [hwhole, hrest]
  split
  rename_i fraction rest' hparts
  obtain ⟨rfl, rfl⟩ : fraction = [] ∧ rest' = rest := by
    split at hparts
    · exact absurd rfl (hpoint _)
    · exact ⟨(Prod.mk.inj hparts).1.symm, (Prod.mk.inj hparts).2.symm⟩
  simp [hne]

theorem readDecimal_pointed {whole fraction rest : List Char} (hwhole : IsRow whole)
    (hfraction : ∀ c ∈ fraction, c.isDigit = true) (hrest : EndsRow rest) :
    readDecimal (whole ++ '.' :: (fraction ++ rest)) =
      (readExponent rest).map fun e : Int => (ofDigits (whole ++ fraction), e - fraction.length) := by
  have hpoint : EndsRow ('.' :: (fraction ++ rest)) := endsRow_cons rfl
  rw [readDecimal_of_point hwhole.ne_nil (takeWhile_isDigit_append hwhole.isDigit hpoint)
      (dropWhile_isDigit_append hwhole.isDigit hpoint),
    takeWhile_isDigit_append hfraction hrest, dropWhile_isDigit_append hfraction hrest]

theorem readDecimal_mark {whole rest : List Char} (hwhole : IsRow whole) :
    readDecimal (whole ++ 'e' :: rest) =
      (readExponent ('e' :: rest)).map fun e => (ofDigits whole, e) := by
  have hmark : EndsRow ('e' :: rest) := endsRow_cons rfl
  exact readDecimal_of_no_point hwhole.ne_nil (takeWhile_isDigit_append hwhole.isDigit hmark)
    (dropWhile_isDigit_append hwhole.isDigit hmark) (by simp)

theorem readInt_exponentMark (e : Int) : readInt (Decimal.exponentMark e) = some e := by
  have hrow := (isRow_toDigits e.natAbs).zeros_append (2 - (Nat.toDigits 10 e.natAbs).length)
  simp only [Decimal.exponentMark, readInt]
  by_cases he : e < 0
  · simp only [if_pos he, splitSign, hrow.isDigits, if_true, ofDigits_zeros_append,
      ofDigits_toDigits, signed]
    exact congrArg some (by omega)
  · simp only [if_neg he, splitSign, hrow.isDigits, if_true, ofDigits_zeros_append,
      ofDigits_toDigits, signed, Bool.false_eq_true, if_false]
    exact congrArg some (by omega)

end Number

namespace Decimal

/-! ## Layouts -/

theorem isRow_whole {d : Decimal} (hd : IsRow d.digits) : IsRow d.whole := by
  unfold whole
  split
  · refine ⟨by simp [hd.ne_nil], fun c hc => ?_⟩
    rcases List.mem_append.1 hc with hc | hc
    · exact hd.isDigit c (List.mem_of_mem_take hc)
    · exact isDigit_of_mem_replicate hc
  · exact ⟨by simp, by simp⟩

theorem isDigit_of_mem_fraction {d : Decimal} (hd : IsRow d.digits) (c : Char)
    (hc : c ∈ d.fraction) : c.isDigit = true := by
  unfold fraction at hc
  split at hc
  · exact hd.isDigit c (List.mem_of_mem_drop hc)
  · exact (hd.zeros_append _).isDigit c hc

/-- A decimal without a fraction has zeros in place of the digits that are missing before the
point. -/
theorem ofDigits_whole_of_fraction_nil {d : Decimal} (hd : IsRow d.digits) (h : d.fraction = []) :
    ∃ n : Nat, ofDigits (d.whole ++ ['0']) = d.coefficient * Nat.pow 10 n ∧
      (0 : Int) - (['0'] : List Char).length = d.exponent - n := by
  unfold fraction at h
  split at h
  · rename_i n hlead
    have hlength : d.digits.length ≤ n + 1 := List.drop_eq_nil_iff.1 h
    refine ⟨n + 1 - d.digits.length + 1, ?_, ?_⟩
    · simp only [whole, hlead, List.take_of_length_le hlength]
      rw [List.append_assoc, ← List.replicate_succ', ofDigits_append_zeros]
      rfl
    · rw [exponent, hlead, List.length_singleton, Int.ofNat_eq_natCast]
      omega
  · simp [hd.ne_nil] at h

/-- Otherwise the point stands among the digits, or zeros stand between it and them. -/
theorem ofDigits_whole_append_fraction {d : Decimal} (h : d.fraction ≠ []) :
    ofDigits (d.whole ++ d.fraction) = d.coefficient ∧
      (0 : Int) - d.fraction.length = d.exponent := by
  unfold fraction at h ⊢
  split at h
  · rename_i n hlead
    have hlength : n + 1 < d.digits.length := by
      rw [ne_eq, List.drop_eq_nil_iff] at h
      omega
    have hzeros : n + 1 - d.digits.length = 0 := by omega
    simp only [whole, hlead, hzeros, List.replicate_zero, List.append_nil,
      List.take_append_drop, List.length_drop]
    refine ⟨rfl, ?_⟩
    rw [exponent, hlead, Int.ofNat_eq_natCast]
    omega
  · rename_i n hlead
    simp only [whole, hlead, List.length_append, List.length_replicate]
    refine ⟨ofDigits_zeros_append (n + 1) d.digits, ?_⟩
    rw [exponent, hlead, Int.negSucc_eq]
    omega

/-- Zeros behind the digits of the coefficient, if there are any, are made up for by the exponent. -/
theorem readDecimal_pointed {d : Decimal} (hd : IsRow d.digits) :
    ∃ n : Nat, readDecimal d.pointed = some (d.coefficient * Nat.pow 10 n, d.exponent - n) := by
  unfold pointed
  split
  · rename_i hfraction
    obtain ⟨n, hvalue, hexponent⟩ := ofDigits_whole_of_fraction_nil hd hfraction
    have hzero : ∀ c ∈ ['0'], c.isDigit = true := by simp
    refine ⟨n, (Number.readDecimal_pointed (isRow_whole hd) hzero endsRow_nil).trans ?_⟩
    rw [readExponent, Option.map_some, hvalue, hexponent]
  · rename_i c rest hfraction
    obtain ⟨hvalue, hexponent⟩ := ofDigits_whole_append_fraction (d := d) (by simp [hfraction])
    have hread := Number.readDecimal_pointed (isRow_whole hd) (isDigit_of_mem_fraction hd)
      endsRow_nil
    rw [List.append_nil, readExponent, Option.map_some, hvalue, hexponent, hfraction] at hread
    refine ⟨0, hread.trans ?_⟩
    have hone : Nat.pow 10 0 = 1 := rfl
    rw [hone, Nat.mul_one, Int.natCast_zero, Int.sub_zero]

theorem readDecimal_scientific {d : Decimal} (hd : IsRow d.digits) :
    readDecimal d.scientific = some (d.coefficient, d.exponent) := by
  have hexponent : readExponent ('e' :: exponentMark d.lead) = some d.lead := by
    simp [readExponent, readInt_exponentMark]
  unfold scientific
  split
  · rename_i hdigits
    exact absurd hdigits hd.ne_nil
  · rename_i c hdigits
    have hrow : IsRow [c] := hdigits ▸ hd
    refine (readDecimal_mark hrow).trans ?_
    have hlead : d.exponent = d.lead := by simp [exponent, hdigits]
    rw [hexponent, Option.map_some, hlead, coefficient, hdigits]
    rfl
  · rename_i c rest _ hdigits
    have hrow : IsRow [c] :=
      ⟨by simp, fun c' hc => hd.isDigit c' (by simp_all)⟩
    have hrest : ∀ c' ∈ rest, c'.isDigit = true :=
      fun c' hc => hd.isDigit c' (by simp [hdigits, hc])
    have hmark : EndsRow ('e' :: exponentMark d.lead) := endsRow_cons rfl
    refine (Number.readDecimal_pointed hrow hrest hmark).trans ?_
    have hlead : d.lead - rest.length = d.exponent := by
      rw [exponent, hdigits, List.length_cons]
      omega
    rw [hexponent, Option.map_some, hlead, coefficient, hdigits]
    rfl

end Decimal
end InputDeck
