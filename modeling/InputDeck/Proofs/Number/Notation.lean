/-
Which of the two layouts a number has, told from its shortest digits.

A number is written with an exponent if it reaches 10^16 or is below 10^-4.  Comparing the number
itself with these thresholds gives what comparing the lead of its shortest decimal does
(`scientificFrom_le_iff`, `lt_scientificBelow_iff`): reading keeps the order, and where the decimal
and the threshold are read as the same number, that number is the threshold and its shortest decimal
is the power of ten.  `text_notation` puts this together with what the layouts look like.
-/
import InputDeck.Proofs.Number.Fewest

namespace InputDeck

open Number

namespace Decimal

/-- The exponent with its sign and at least two digits, more only if the first is not zero. -/
def IsMark (e : Int) (cs : List Char) : Prop :=
  ∃ row, cs = (if e < 0 then '-' else '+') :: row ∧ IsRow row ∧ ofDigits row = e.natAbs ∧
    2 ≤ row.length ∧ (2 < row.length → row.head? ≠ some '0')

/-- The first digit, a point and the other digits if there are any, and the lead as an exponent. -/
def IsScientific (d : Decimal) (cs : List Char) : Prop :=
  ∃ first rest mark, d.digits = first :: rest ∧
    cs = first :: ((if rest = [] then [] else '.' :: rest) ++ 'e' :: mark) ∧ IsMark d.lead mark

/-- Digits on both sides of a point and no needless zero at either end.  The digits are those of the
decimal but for zeros around them, and their value is that of the decimal. -/
def IsPlain (d : Decimal) (cs : List Char) : Prop :=
  ∃ whole fraction, cs = whole ++ '.' :: fraction ∧ IsTight whole ∧ IsRow fraction ∧
    (fraction.getLast? = some '0' → fraction = ['0']) ∧
    (∃ before behind, whole ++ fraction =
      List.replicate before '0' ++ d.digits ++ List.replicate behind '0') ∧
    (ofDigits (whole ++ fraction) : ℚ) * 10 ^ (0 - (fraction.length : ℤ)) = d.value

theorem isMark_exponentMark (e : Int) : IsMark e (exponentMark e) := by
  have hrow := isRow_toDigits e.natAbs
  refine ⟨_, rfl, hrow.zeros_append _, ?_, ?_, ?_⟩
  · rw [ofDigits_zeros_append, ofDigits_toDigits]
  · rw [List.length_append, List.length_replicate]
    omega
  · rw [List.length_append, List.length_replicate]
    intro hlong hhead
    have hzeros : 2 - (Nat.toDigits 10 e.natAbs).length = 0 := by omega
    rw [hzeros, List.replicate_zero, List.nil_append] at hhead
    obtain ⟨first, rest, hdigits⟩ := List.exists_cons_of_ne_nil hrow.ne_nil
    rw [hdigits, List.head?_cons, Option.some.injEq] at hhead
    have hnil := (isTight_toDigits e.natAbs).eq_zero (hhead ▸ hdigits)
    rw [hdigits, hnil] at hlong
    simp at hlong

variable {d : Decimal} {cs : List Char}

theorem isScientific_scientific (hd : IsRow d.digits) : d.IsScientific d.scientific := by
  unfold scientific
  split
  · rename_i hdigits
    exact absurd hdigits hd.ne_nil
  · rename_i c hdigits
    exact ⟨c, [], _, hdigits, rfl, isMark_exponentMark d.lead⟩
  · rename_i c rest hne hdigits
    refine ⟨c, rest, _, hdigits, ?_, isMark_exponentMark d.lead⟩
    rw [if_neg hne]
    rfl

theorem IsNormal.isTight_whole (h : d.IsNormal) : IsTight d.whole := by
  refine { isRow_whole h.isRow with eq_zero := ?_ }
  intro rest hrest
  unfold whole at hrest
  split at hrest
  · -- The first digit before the point is that of the decimal.
    obtain ⟨first, more, hdigits⟩ := List.exists_cons_of_ne_nil h.isRow.ne_nil
    rw [hdigits, List.take_succ_cons, List.cons_append] at hrest
    have hzero : first = '0' := (List.cons.inj hrest).1
    exact absurd (by rw [hdigits, hzero, List.head?_cons]) h.head_ne
  · exact (List.cons.inj hrest).2.symm

theorem IsNormal.getLast?_fraction (h : d.IsNormal) (hne : d.fraction ≠ []) :
    d.fraction.getLast? ≠ some '0' := by
  have hlast := h.last_ne
  unfold fraction at hne ⊢
  split
  · rename_i n hlead
    rw [hlead] at hne
    have hdrop : d.digits.drop (n + 1) ≠ [] := hne
    rw [List.getLast?_drop, if_neg (by rwa [ne_eq, List.drop_eq_nil_iff] at hdrop)]
    exact hlast
  · rw [List.getLast?_append_of_ne_nil _ h.isRow.ne_nil]
    exact hlast

theorem exists_whole_append_fraction (d : Decimal) : ∃ before behind,
    d.whole ++ d.fraction = List.replicate before '0' ++ d.digits ++ List.replicate behind '0' := by
  unfold whole fraction
  split
  · rename_i n hlead
    refine ⟨0, n + 1 - d.digits.length, ?_⟩
    rw [List.replicate_zero, List.nil_append]
    rcases Nat.lt_or_ge (n + 1) d.digits.length with hlt | hle
    · have hzeros : n + 1 - d.digits.length = 0 := by omega
      rw [hzeros, List.replicate_zero, List.append_nil, List.append_nil, List.take_append_drop]
    · rw [List.take_of_length_le hle, List.drop_of_length_le hle, List.append_nil]
  · rename_i n hlead
    refine ⟨n + 1, 0, ?_⟩
    rw [List.replicate_zero, List.append_nil]
    rfl

theorem isPlain_pointed (h : d.IsNormal) : d.IsPlain d.pointed := by
  obtain ⟨before, behind, hdigits⟩ := exists_whole_append_fraction d
  unfold pointed
  split
  · rename_i hfraction
    obtain ⟨n, hvalue, hexponent⟩ := ofDigits_whole_of_fraction_nil h.isRow hfraction
    rw [hfraction, List.append_nil] at hdigits
    refine ⟨d.whole, ['0'], rfl, h.isTight_whole, ⟨by simp, by simp⟩, fun _ => rfl,
      ⟨before, behind + 1, ?_⟩, ?_⟩
    · rw [hdigits, List.append_assoc, ← List.replicate_succ']
    · rw [hvalue, hexponent]
      exact mul_ten_pow _ n _
  · rename_i c rest hfraction
    have hne : d.fraction ≠ [] := by simp [hfraction]
    obtain ⟨hvalue, hexponent⟩ := ofDigits_whole_append_fraction hne
    rw [← hfraction]
    refine ⟨d.whole, d.fraction, rfl, h.isTight_whole, ⟨hne, isDigit_of_mem_fraction h.isRow⟩,
      fun hlast => absurd hlast (h.getLast?_fraction hne), ⟨before, behind, hdigits⟩, ?_⟩
    rw [hvalue, hexponent]
    rfl

/-- No text is in both layouts. -/
theorem IsPlain.not_isScientific (h : d.IsPlain cs) : ¬d.IsScientific cs := by
  rintro ⟨first, rest, mark, -, hmark, -⟩
  obtain ⟨whole, fraction, hcs, hwhole, hfraction, -⟩ := h
  have hmem : 'e' ∈ cs := by simp [hmark]
  rw [hcs, List.mem_append, List.mem_cons] at hmem
  rcases hmem with hmem | hmem | hmem
  · exact absurd (hwhole.isDigit _ hmem) (by decide)
  · exact absurd hmem (by decide)
  · exact absurd (hfraction.isDigit _ hmem) (by decide)

end Decimal

namespace Magnitude

variable {m : Magnitude} {d : Decimal}

/-! ## The thresholds -/

theorem IsShortest.le_of_le_lead (h : m.IsShortest d) {e : Int} (hlead : e ≤ d.lead) :
    ofDecimal 1 e ≤ m := by
  have hle : ((1 : ℕ) : ℚ) * 10 ^ e ≤ d.coefficient * 10 ^ d.exponent := by
    rw [Nat.cast_one, one_mul]
    exact (zpow_le_zpow_right₀ (by norm_num) hlead).trans h.isNormal.le_value
  have hread : ofDecimal 1 e ≤ d.magnitude := ofDecimal_le_ofDecimal hle
  rwa [h.magnitude_eq] at hread

theorem IsShortest.le_of_lead_lt (h : m.IsShortest d) {e : Int} (hlead : d.lead < e) :
    m ≤ ofDecimal 1 e := by
  have hle : (d.coefficient : ℚ) * 10 ^ d.exponent ≤ (1 : ℕ) * 10 ^ e := by
    rw [Nat.cast_one, one_mul]
    exact h.isNormal.value_lt.le.trans (zpow_le_zpow_right₀ (by norm_num) hlead)
  have hread : d.magnitude ≤ ofDecimal 1 e := ofDecimal_le_ofDecimal hle
  rwa [h.magnitude_eq] at hread

/-- The leads of numbers other than zero and infinity are those of small exponents. -/
theorem IsShortest.lead_bounds (h : m.IsShortest d) (hfinite : m ≠ infinity) (hzero : m ≠ zero) :
    -402 ≤ d.lead ∧ d.lead < 309 := by
  have hlow : ofDecimal 1 (-402) = zero := by decide
  have hhigh : ofDecimal 1 309 = infinity := by decide
  constructor
  · by_contra hlt
    have hle := h.le_of_lead_lt (lt_of_not_ge hlt)
    rw [hlow] at hle
    exact hzero (eq_of_le_of_le hle (Nat.zero_le m.rank))
  · by_contra hle
    have hread := h.le_of_le_lead (le_of_not_gt hle)
    rw [hhigh] at hread
    exact hfinite (eq_of_le_of_le m.rank_le hread)

/-- A power of ten which is its own shortest decimal is a threshold for the leads as well. -/
theorem ofDecimal_one_le_iff {e : Int} (hshortest : (ofDecimal 1 e).shortest.lead = e)
    (h : m.IsShortest m.shortest) : ofDecimal 1 e ≤ m ↔ e ≤ m.shortest.lead := by
  refine ⟨fun hle => ?_, h.le_of_le_lead⟩
  by_contra hlt
  have hsame := eq_of_le_of_le hle (h.le_of_lead_lt (lt_of_not_ge hlt))
  rw [← hsame, hshortest] at hlt
  exact hlt (le_refl e)

theorem scientificFrom_le_iff (h : m.IsShortest m.shortest) :
    scientificFrom ≤ m ↔ 16 ≤ m.shortest.lead :=
  ofDecimal_one_le_iff (by decide +kernel) h

theorem lt_scientificBelow_iff (h : m.IsShortest m.shortest) :
    m < scientificBelow ↔ m.shortest.lead < -4 := by
  have hle : scientificBelow ≤ m ↔ -4 ≤ m.shortest.lead :=
    ofDecimal_one_le_iff (by decide +kernel) h
  rw [← not_le, ← hle]
  exact Nat.not_le.symm

/-- Every finite number but zero is written with the digits of its shortest decimal, of which there
is one, and scientifically just if its lead is below -4 or reaches 16. -/
theorem text_notation (negative : Bool) (hfinite : m ≠ infinity) (hzero : m ≠ zero) :
    ∃ d, m.IsShortest d ∧ (∀ d', m.IsShortest d' → d' = d) ∧
      (scientificFrom ≤ m ↔ 16 ≤ d.lead) ∧ (m < scientificBelow ↔ d.lead < -4) ∧
      ∃ body, Scalar.text (.real (.signed negative m)) = signText negative ++ body ∧
        (d.IsScientific body ↔ d.lead < -4 ∨ 16 ≤ d.lead) ∧
        (d.IsPlain body ↔ ¬(d.lead < -4 ∨ 16 ≤ d.lead)) := by
  have hshortest := isShortest_shortest hfinite hzero
  have hfrom := scientificFrom_le_iff hshortest
  have hbelow := lt_scientificBelow_iff hshortest
  refine ⟨m.shortest, hshortest, fun d' => hshortest.unique, hfrom, hbelow, m.text, rfl, ?_⟩
  rw [text, if_neg hfinite, if_neg hzero]
  by_cases hlead : m.shortest.lead < -4 ∨ 16 ≤ m.shortest.lead
  · rw [if_pos ((or_congr hfrom hbelow).2 hlead.symm)]
    have hscientific := Decimal.isScientific_scientific hshortest.isNormal.isRow
    exact ⟨iff_of_true hscientific hlead,
      iff_of_false (fun hplain => hplain.not_isScientific hscientific) (not_not_intro hlead)⟩
  · rw [if_neg fun hnot => hlead ((or_congr hfrom hbelow).1 hnot).symm]
    have hplain := Decimal.isPlain_pointed hshortest.isNormal
    exact ⟨iff_of_false hplain.not_isScientific hlead, iff_of_true hplain hlead⟩

/-- The largest number below 10^16. -/
def lastPlain : Magnitude := ofDecimal 9999999999999998 0

theorem text_notation_lastPlain : lastPlain ≠ infinity ∧ lastPlain ≠ zero ∧
    ∃ d, lastPlain.IsShortest d ∧ (∀ d', lastPlain.IsShortest d' → d' = d) ∧
      (scientificFrom ≤ lastPlain ↔ 16 ≤ d.lead) ∧ (lastPlain < scientificBelow ↔ d.lead < -4) ∧
      ∃ body, Scalar.text (.real (.signed true lastPlain)) = signText true ++ body ∧
        (d.IsScientific body ↔ d.lead < -4 ∨ 16 ≤ d.lead) ∧
        (d.IsPlain body ↔ ¬(d.lead < -4 ∨ 16 ≤ d.lead)) := by
  have hfinite : lastPlain ≠ infinity := by decide +kernel
  have hzero : lastPlain ≠ zero := by decide +kernel
  exact ⟨hfinite, hzero, text_notation true hfinite hzero⟩

end Magnitude
end InputDeck
