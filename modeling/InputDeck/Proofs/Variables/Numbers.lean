/-
Numbers of documents and the scalars they are taken for.

A whole number of 64 bits with a sign is taken for itself, and so is a real, with all its bits.  The
whole numbers of 64 bits without a sign go further, and those from 2^63 on are taken for the real
nearest to them.  `Represents` says so of a number without computing that real, and there is one
scalar for each number: `scalarOf_eq_iff`.

The nearest real is unique since of two that are equally near both would have an even last place,
but neighbours have not.
-/
import InputDeck.Proofs.Json.Finite
import InputDeck.Proofs.Scalar.Whole

namespace InputDeck

/-! ## The nearest real -/

namespace Binary64

variable {x y : Binary64} {v : ℚ} {m m' : Magnitude}

/-- Zero is nearer to a positive value than any negative number. -/
theorem IsNearest.exists_magnitude (h : x.IsNearest v) (hv : 0 < v) :
    ∃ m : Magnitude, x.value? = some m.value ∧ x.toBits % 2 = m.rank % 2 := by
  obtain ⟨r, hr⟩ := h.exists_value
  cases x with
  | unordered negative payload => simp [value?] at hr
  | signed negative m =>
      refine ⟨m, ?_, toBits_mod_two negative m⟩
      obtain ⟨-, rfl⟩ := value?_signed.1 hr
      cases negative with
      | false => rw [hr, Number.sign, if_neg (by decide), one_mul]
      | true =>
          have hzero : (signed false .zero).value? = some 0 :=
            value?_signed.2 ⟨by decide, by rw [Magnitude.value_zero, mul_zero]⟩
          have hclose := h.closest hr hzero
          have hm := m.value_nonneg
          rw [Number.sign, if_pos rfl, neg_one_mul] at hclose hr
          rw [zero_sub, abs_neg, abs_of_pos hv, abs_of_nonpos (by linarith)] at hclose
          have hnone : m.value = 0 := by linarith
          rw [hr, hnone, neg_zero]

/-- If a nearest number has another one above it that is equally near, that is the next one. -/
theorem IsNearest.rank_succ (h : x.IsNearest v) (hx : x.value? = some m.value)
    (hlt : m.value < m'.value) (htie : |m'.value - v| = |m.value - v|) :
    m'.rank = m.rank + 1 := by
  have hrank := Magnitude.rank_lt_iff.2 hlt
  have hmiddle : m.value + m'.value = 2 * v := by
    rcases abs_eq_abs.1 htie with he | he <;> linarith
  by_contra hne
  have hm' := m'.rank_le
  obtain ⟨next, hnext⟩ : ∃ next : Magnitude, next.rank = m.rank + 1 :=
    ⟨⟨m.rank + 1, by omega⟩, rfl⟩
  have hlow : m.value < next.value := Magnitude.rank_lt_iff.1 (by omega)
  have hhigh : next.value < m'.value := Magnitude.rank_lt_iff.1 (by omega)
  have hfinite : next ≠ .infinity := by
    rintro rfl
    have hrank' : Magnitude.infinity.rank = 0x7FF0000000000000 := rfl
    omega
  have hvalue : (signed false next).value? = some next.value :=
    value?_signed.2 ⟨hfinite, (one_mul _).symm⟩
  have hclose := h.closest hx hvalue
  rw [abs_of_nonpos (by linarith : m.value - v ≤ 0), le_abs'] at hclose
  rcases hclose with hclose | hclose <;> linarith

/-- A positive value has one nearest number, up to the sign of zero. -/
theorem IsNearest.value?_eq (hx : x.IsNearest v) (hy : y.IsNearest v) (hv : 0 < v) :
    x.value? = y.value? := by
  obtain ⟨m, hm, hbits⟩ := hx.exists_magnitude hv
  obtain ⟨m', hm', hbits'⟩ := hy.exists_magnitude hv
  have htie : |m'.value - v| = |m.value - v| :=
    le_antisymm (hy.closest hm' hm) (hx.closest hm hm')
  rw [hm, hm']
  by_contra hne
  have hvalue : m'.value ≠ m.value := fun he => hne (congrArg some he.symm)
  have heven := hx.even_of_tie hm hm' htie hvalue
  have heven' := hy.even_of_tie hm' hm htie.symm hvalue.symm
  rcases lt_or_gt_of_ne hvalue with hlt | hlt
  · have hnext := hy.rank_succ hm' hlt htie.symm
    omega
  · have hnext := hx.rank_succ hm hlt htie
    omega

theorem eq_of_value? {r : ℚ} (hx : x.value? = some r) (hy : y.value? = some r) (hr : 0 < r) :
    x = y := by
  have hsigned : ∀ {z : Binary64}, z.value? = some r → ∃ m, z = signed false m ∧ m.value = r := by
    intro z hz
    cases z with
    | unordered negative payload => simp [value?] at hz
    | signed negative m =>
        obtain ⟨-, rfl⟩ := value?_signed.1 hz
        cases negative with
        | false => exact ⟨m, rfl, (one_mul _).symm⟩
        | true =>
            have hm := m.value_nonneg
            rw [Number.sign, if_pos rfl] at hr
            linarith
  obtain ⟨m, rfl, hm⟩ := hsigned hx
  obtain ⟨m', rfl, hm'⟩ := hsigned hy
  have hle : m ≤ m' := Magnitude.le_iff_value_le.2 (hm.trans hm'.symm).le
  have hge : m' ≤ m := Magnitude.le_iff_value_le.2 (hm'.trans hm.symm).le
  rw [Magnitude.eq_of_le_of_le hle hge]

/-- The first whole number that is too large is a real, and positive. -/
theorem IsNearest.pos_of_tooLarge_le {r : ℚ} (h : x.IsNearest v) (hr : x.value? = some r)
    (hv : 0x8000000000000000 ≤ v) : 0 < r := by
  have hclose := h.closest hr value?_tooLarge
  rw [abs_of_nonpos (by linarith : (0x8000000000000000 : ℚ) - v ≤ 0), abs_le] at hclose
  linarith [hclose.1]

theorem IsNearest.unique (hx : x.IsNearest v) (hy : y.IsNearest v)
    (hv : 0x8000000000000000 ≤ v) : x = y := by
  obtain ⟨r, hr⟩ := hx.exists_value
  have hother := (hx.value?_eq hy (by linarith)).symm.trans hr
  exact eq_of_value? hr hother (hx.pos_of_tooLarge_le hr hv)

end Binary64

namespace Variables

/-! ## Whole numbers without a sign -/

theorem isNearest_ofNat (n : UInt64) :
    (Binary64.signed false (.ofNat n.toNat)).IsNearest n.toNat := by
  have hdecimal : Magnitude.ofDecimal n.toNat 0 = .ofNat n.toNat := by
    have hone : Nat.pow 10 0 = 1 := rfl
    rw [Magnitude.ofDecimal_eq_nearest, neg_zero, Int.toNat_zero, hone, Nat.mul_one,
      Magnitude.ofNat]
  have hfinite := (Magnitude.moderate_ofNat n.toNat_lt).ne_infinity
  rw [← hdecimal] at hfinite
  have hnearest := Binary64.isNearest_ofDecimal false n.toNat 0 hfinite
  rw [hdecimal, Number.sign, if_neg (by decide), one_mul, zpow_zero, mul_one] at hnearest
  exact hnearest

/-- The scalar that a number of a document is taken for: the number itself if scalars have it, and
else the nearest real. -/
inductive Represents : Json.Number → Scalar → Prop
  | natural {n : UInt64} {i : Int64} (h : i.toInt = n.toNat) : Represents (.natural n) (.integer i)
  | rounded {n : UInt64} {x : Binary64} (h : ¬Number.Fits64 n.toNat) (hx : x.IsNearest n.toNat) :
      Represents (.natural n) (.real x)
  | negative {n : Int64} (neg : n.toInt < 0) : Represents (.negative n neg) (.integer n)
  | real (x : Binary64) : Represents (.real x) (.real x)

theorem represents_scalarOf (n : Json.Number) : Represents n (scalarOf n) := by
  cases n with
  | natural n =>
      rw [scalarOf_natural]
      split_ifs with h
      · refine .natural ?_
        rw [Int64.toInt_ofNat_of_lt (by omega)]
      · exact .rounded (fun hfits => h (by exact_mod_cast hfits.2)) (isNearest_ofNat n)
  | negative n neg => exact .negative neg
  | real x => exact .real x

theorem Represents.eq_scalarOf {n : Json.Number} {s : Scalar} (h : Represents n s) :
    scalarOf n = s := by
  cases h with
  | @natural n i h =>
      have hlt := Int64.toInt_lt i
      rw [scalarOf_natural, if_pos (by omega)]
      congr 1
      rw [← Int64.toInt_inj, Int64.toInt_ofNat_of_lt (by omega), h]
  | @rounded n x h hx =>
      have hlarge : 0x8000000000000000 ≤ n.toNat := by
        by_contra hlt
        exact h ⟨by omega, by omega⟩
      have hend : (0x8000000000000000 : ℚ) ≤ n.toNat := by exact_mod_cast hlarge
      rw [scalarOf_natural, if_neg (by omega), hx.unique (isNearest_ofNat n) hend]
  | negative neg => rfl
  | real x => rfl

theorem scalarOf_eq_iff {n : Json.Number} {s : Scalar} : scalarOf n = s ↔ Represents n s :=
  ⟨fun h => h ▸ represents_scalarOf n, Represents.eq_scalarOf⟩

end Variables
end InputDeck
