/-
Rounding keeps the order.

A larger fraction is not rounded to a smaller number (`nearest_le_nearest`).  So the decimals that
are read as one number lie next to each other, with everything between them
(`ofDecimal_eq_of_between`), and around the number, since its own value is one of them.  How far
they reach is told from both sides: none is farther away than rounding can take it
(`nearest_error_cases`), and all that are closer than a unit in the last of 54 binary places belong
to the number (`nearest_eq_of_close`).
-/
import InputDeck.Proofs.Number.Exact
import Mathlib.Data.Nat.Log
import Mathlib.Tactic.LinearCombination

namespace InputDeck
namespace Magnitude

variable {num den num' den' : Nat} {a b m : Magnitude}

/-! ## The order of numbers -/

theorem eq_of_le_of_le (hab : a ≤ b) (hba : b ≤ a) : a = b := by
  obtain ⟨rank, _⟩ := a
  obtain ⟨rank', _⟩ := b
  obtain rfl : rank = rank' := Nat.le_antisymm hab hba
  rfl

theorem roundDiv_le_roundDiv (h : num ≤ num') : roundDiv num den ≤ roundDiv num' den := by
  have hdiv := Nat.div_add_mod' num den
  have hdiv' := Nat.div_add_mod' num' den
  have hquotient : num / den ≤ num' / den := Nat.div_le_div_right h
  have hround := roundDiv_cases num den
  have hround' := roundDiv_cases num' den
  generalize num / den = quotient at *
  generalize num' / den = quotient' at *
  rcases Nat.eq_or_lt_of_le hquotient with rfl | hlt
  · omega
  · omega

theorem nearest_le_nearest_of_le (hden : 0 < den) (h : num ≤ num') :
    nearest num den ≤ nearest num' den := by
  have hlow := rounds_log2 hden num
  have hhigh := rounds_log2 hden num'
  have hshift : (num / den).log2 - 52 ≤ (num' / den).log2 - 52 := by
    rw [Nat.log2_eq_log_two, Nat.log2_eq_log_two]
    exact Nat.sub_le_sub_right (Nat.log_mono_right (Nat.div_le_div_right h)) 52
  generalize (num / den).log2 - 52 = shift at hlow hshift
  generalize (num' / den).log2 - 52 = shift' at hhigh hshift
  have hrank : shift * 0x10000000000000 + roundDiv num (den * Nat.pow 2 shift) ≤
      shift' * 0x10000000000000 + roundDiv num' (den * Nat.pow 2 shift') := by
    rcases Nat.eq_or_lt_of_le hshift with rfl | hlt
    · exact Nat.add_le_add_left (roundDiv_le_roundDiv h) _
    · -- The larger fraction is in a later run, of which the other one reaches at most the first.
      have hround := hlow.round_le
      have hround' := hhigh.le_round
      omega
  show (nearest num den).rank ≤ (nearest num' den).rank
  rw [hlow.nearest_eq, hhigh.nearest_eq]
  simp only [ofRank]
  omega

theorem nearest_le_nearest (hden : 0 < den) (hden' : 0 < den') (h : num * den' ≤ num' * den) :
    nearest num den ≤ nearest num' den' := by
  have hle := nearest_le_nearest_of_le (Nat.mul_pos hden hden') h
  rw [nearest_mul_right hden', Nat.mul_comm den den', nearest_mul_right hden] at hle
  exact hle

theorem le_of_units_le (h : a.units ≤ b.units) : a ≤ b := by
  have hle := nearest_le_nearest_of_le Nat.one_pos h
  rwa [nearest_units, nearest_units] at hle

theorem units_le_of_le (h : a ≤ b) : a.units ≤ b.units := by
  by_contra hlt
  have hle := le_of_units_le (Nat.le_of_not_le hlt)
  rw [eq_of_le_of_le h hle] at hlt
  exact hlt (Nat.le_refl _)

theorem units_lt_of_not_le (h : ¬b ≤ a) : a.units < b.units :=
  Nat.lt_of_not_le fun hle => h (le_of_units_le hle)

theorem units_pos (h : m ≠ zero) : 0 < m.units := by
  refine Nat.pos_of_ne_zero fun hunits => h (eq_of_le_of_le (le_of_units_le ?_) ?_)
  · exact Nat.le_of_eq (hunits.trans units_zero.symm)
  · exact Nat.zero_le m.rank

/-! ## Decimals in their order -/

variable {c c' c'' : Nat} {e e' e'' : Int}

theorem ofDecimal_le_ofDecimal (h : (c : ℚ) * 10 ^ e ≤ c' * 10 ^ e') :
    ofDecimal c e ≤ ofDecimal c' e' := by
  rw [ofDecimal_eq_nearest, ofDecimal_eq_nearest]
  apply nearest_le_nearest (ten_pow_pos _) (ten_pow_pos _)
  have hpow := ten_zpow_mul e
  have hpow' := ten_zpow_mul e'
  generalize Nat.pow 10 (-e).toNat = low at hpow ⊢
  generalize Nat.pow 10 (-e').toNat = low' at hpow' ⊢
  generalize Nat.pow 10 e.toNat = high at hpow ⊢
  generalize Nat.pow 10 e'.toNat = high' at hpow' ⊢
  generalize oneUnits = u
  have hscaled : (c : ℚ) * 10 ^ e * (low * low' * u) ≤
      c' * 10 ^ e' * (low * low' * u) := by
    gcongr
  have hleft : (c : ℚ) * 10 ^ e * (low * low' * u) = c * high * u * low' := by
    rw [← hpow]
    ring
  have hright : (c' : ℚ) * 10 ^ e' * (low * low' * u) = c' * high' * u * low := by
    rw [← hpow']
    ring
  rw [hleft, hright] at hscaled
  exact_mod_cast hscaled

/-- What lies between two decimals that are read alike is read as they are. -/
theorem ofDecimal_eq_of_between (hlow : ofDecimal c e = m) (hhigh : ofDecimal c'' e'' = m)
    (hle : (c : ℚ) * 10 ^ e ≤ c' * 10 ^ e') (hle' : (c' : ℚ) * 10 ^ e' ≤ c'' * 10 ^ e'') :
    ofDecimal c' e' = m := by
  apply eq_of_le_of_le
  · exact hhigh ▸ ofDecimal_le_ofDecimal hle'
  · exact hlow ▸ ofDecimal_le_ofDecimal hle

theorem ofDecimal_finest (m : Magnitude) : ofDecimal m.finest (-1074) = m :=
  (ofDecimal_grid m.finest 0).trans (ofGrid_finest m)

theorem value_eq_finest (m : Magnitude) : m.value = m.finest * 10 ^ (-1074 : ℤ) := by
  obtain ⟨k, hk, hunits, hfinest, -⟩ := exists_grid_exponent
  have hexponent : (-1074 : ℤ) = -(k : ℤ) := by rw [hk]; rfl
  have hten : (10 : ℚ) ^ (-(k : ℤ)) * (Nat.pow 2 k * Nat.pow 5 k : ℕ) = 1 := by
    have hpow : Nat.pow 2 k * Nat.pow 5 k = Nat.pow 10 k := (Nat.mul_pow 2 5 k).symm
    rw [hpow, cast_ten_pow, ← zpow_natCast, ← zpow_add₀ (by norm_num), neg_add_cancel, zpow_zero]
  have htwo : ((Nat.pow 2 k : ℕ) : ℚ) ≠ 0 := Nat.cast_ne_zero.2 (Nat.two_pow_pos k).ne'
  rw [value, hunits, hfinest, hexponent, div_eq_iff htwo]
  generalize Nat.pow 2 k = two at hten
  generalize Nat.pow 5 k = five at hten ⊢
  rw [Nat.cast_mul] at hten ⊢
  linear_combination -(m.units : ℚ) * hten

/-! ## How far the decimals of a number reach -/

/-- The error of rounding is at most half of the smallest spacing, or half a unit in the last of 53
binary places. -/
theorem nearest_error_cases (hden : 0 < den) (hfinite : nearest num den ≠ infinity) :
    2 * |((nearest num den).units : ℤ) * den - num| ≤ den ∨
      0x20000000000000 * |((nearest num den).units : ℤ) * den - num| ≤
        ((nearest num den).units : ℤ) * den := by
  by_cases hnormal : 0x10000000000000 ≤ (nearest num den).units
  · exact Or.inr (nearest_error hden hfinite hnormal)
  · left
    obtain ⟨shift, hrounds⟩ := exists_rounds hden num
    obtain ⟨hunits, -⟩ := hrounds.units_nearest hfinite
    have hshift : shift = 0 := by
      refine hrounds.le_round.resolve_right fun hle => hnormal ?_
      rw [hunits]
      exact hle.trans (Nat.le_mul_of_pos_right _ (Nat.two_pow_pos shift))
    subst hshift
    have hone (n : Nat) : n * Nat.pow 2 0 = n := Nat.mul_one n
    have herror := (roundDiv_error hden num).1
    rw [hunits, hone, hone]
    exact herror

/-- What a whole number of units is rounded to has nearly its size. -/
theorem nearest_bounds (hfinite : nearest num 1 ≠ infinity) (hnormal : 0x10000000000000 ≤ num) :
    0x1FFFFFFFFFFFFF * (nearest num 1).units ≤ 0x20000000000000 * num ∧
      0x20000000000000 * num ≤ 0x20000000000001 * (nearest num 1).units := by
  have hle : 0x10000000000000 * 1 ≤ num := hnormal
  have herror := nearest_error Nat.one_pos hfinite (le_units_nearest Nat.one_pos hfinite hle)
  rw [Nat.cast_one, mul_one] at herror
  have habs := abs_cases (((nearest num 1).units : ℤ) - num)
  generalize |((nearest num 1).units : ℤ) - num| = error at herror habs
  omega

/-! ## What certainly belongs to a number -/

/-- Every number is a multiple of the spacing below it, the 2^53th at most and beyond the 2^52th
unless the spacing is the smallest one. -/
theorem exists_units (m : Magnitude) : ∃ n shift, m.units = n * Nat.pow 2 shift ∧
    n ≤ 0x20000000000000 ∧ (shift = 0 ∨ 0x10000000000000 < n) := by
  by_cases hsub : m.rank < 0x10000000000000
  · have hone : Nat.pow 2 0 = 1 := rfl
    exact ⟨m.rank, 0, by simp only [units, if_pos hsub, hone, Nat.mul_one], by omega, Or.inl rfl⟩
  have hunits : m.units = (0x10000000000000 + m.rank % 0x10000000000000) *
      Nat.pow 2 (m.rank / 0x10000000000000 - 1) := by simp only [units, if_neg hsub]
  have hmantissa : m.rank % 0x10000000000000 < 0x10000000000000 := Nat.mod_lt _ (by decide)
  generalize m.rank % 0x10000000000000 = f at hunits hmantissa
  generalize m.rank / 0x10000000000000 - 1 = shift at hunits
  rcases Nat.eq_zero_or_pos f with rfl | hf
  · -- At the first number of a run the spacing below is that of the run before.
    cases shift with
    | zero => exact ⟨0x10000000000000, 0, hunits, by decide, Or.inl rfl⟩
    | succ shift =>
        refine ⟨0x20000000000000, shift, ?_, Nat.le_refl _, Or.inr (by decide)⟩
        have hdouble : Nat.pow 2 (shift + 1) = Nat.pow 2 shift * 2 := Nat.pow_succ 2 shift
        rw [hunits, hdouble]
        ring
  · exact ⟨0x10000000000000 + f, shift, hunits, by omega, Or.inr (by omega)⟩

/-- Two numbers are apart by at least one unit in the last of 53 binary places of the larger. -/
theorem units_gap (h : ¬b ≤ a) : b.units ≤ 0x20000000000000 * (b.units - a.units) := by
  have hlt := units_lt_of_not_le h
  obtain ⟨n, shift, hunits, hn, hfirst⟩ := exists_units b
  have hstep : Nat.pow 2 shift ≤ b.units - a.units := by
    rw [hunits] at hlt ⊢
    rcases units_cases a shift with ⟨n', hn'⟩ | hbelow
    · rw [hn'] at hlt ⊢
      have hnext : n' + 1 ≤ n := Nat.lt_of_mul_lt_mul_right hlt
      have hmul := Nat.mul_le_mul_right (Nat.pow 2 shift) hnext
      rw [Nat.add_mul, Nat.one_mul] at hmul
      omega
    · rcases hfirst with rfl | hfirst
      · have hone : Nat.pow 2 0 = 1 := rfl
        omega
      · have hnext : 0x10000000000000 + 1 ≤ n := hfirst
        have hmul := Nat.mul_le_mul_right (Nat.pow 2 shift) hnext
        rw [Nat.add_mul, Nat.one_mul] at hmul
        omega
  calc b.units = n * Nat.pow 2 shift := hunits
    _ ≤ 0x20000000000000 * Nat.pow 2 shift := Nat.mul_le_mul_right _ hn
    _ ≤ 0x20000000000000 * (b.units - a.units) := Nat.mul_le_mul_left _ hstep

/-- What exceeds a finite number by a unit in the last of 54 binary places at most is not rounded to
infinity: for the largest number this is a fact about one fraction. -/
theorem nearest_ne_infinity_of_close (hden : 0 < den) (hfinite : m ≠ infinity)
    (h : num * 0x40000000000000 ≤ m.units * den * 0x40000000000001) :
    nearest num den ≠ infinity := by
  have hlargest : nearest ((⟨0x7FEFFFFFFFFFFFFF, by decide⟩ : Magnitude).units * 0x40000000000001)
      0x40000000000000 ≠ infinity := by decide +kernel
  have hle : m ≤ ⟨0x7FEFFFFFFFFFFFFF, by decide⟩ := by
    have hrank := (isFinite_iff m).2 hfinite
    simp only [isFinite, decide_eq_true_eq] at hrank
    exact Nat.le_of_lt_succ hrank
  have hunits := units_le_of_le hle
  generalize (⟨0x7FEFFFFFFFFFFFFF, by decide⟩ : Magnitude).units = largest at hlargest hunits
  intro hinfinite
  apply hlargest
  apply eq_of_le_of_le (rank_le _)
  rw [← hinfinite]
  apply nearest_le_nearest hden (by decide)
  calc num * 0x40000000000000 ≤ m.units * den * 0x40000000000001 := h
    _ ≤ largest * den * 0x40000000000001 :=
        Nat.mul_le_mul_right _ (Nat.mul_le_mul_right _ hunits)
    _ = largest * 0x40000000000001 * den := by ring

/-- A fraction is rounded to a number from which it differs by less than a unit in the last of 54
binary places. -/
theorem nearest_eq_of_close (hden : 0 < den) (hfinite : m ≠ infinity)
    (h : 0x40000000000000 * |(m.units : ℤ) * den - num| < (m.units : ℤ) * den) :
    nearest num den = m := by
  have hbound : num * 0x40000000000000 ≤ m.units * den * 0x40000000000001 := by
    have hclose := neg_abs_le ((m.units : ℤ) * den - num)
    have hcast : (num : ℤ) * 0x40000000000000 ≤ m.units * den * 0x40000000000001 := by linarith
    exact_mod_cast hcast
  have hnearest := nearest_ne_infinity_of_close hden hfinite hbound
  have hclosest := (nearest_closest hden hnearest m).1
  generalize nearest num den = found at hclosest hnearest ⊢
  have hapart : |(m.units : ℤ) * den - found.units * den| ≤ 2 * |(m.units : ℤ) * den - num| := by
    have htriangle := abs_sub_le ((m.units : ℤ) * den) num (found.units * den)
    rw [abs_sub_comm (num : ℤ)] at htriangle
    linarith
  have hgap {a b : Magnitude} (hab : ¬b ≤ a) :
      (b.units : ℤ) * den ≤ 0x20000000000000 * (b.units * den - a.units * den) := by
    have hunits := Nat.mul_le_mul_right den (units_gap hab)
    have hlt := units_lt_of_not_le hab
    rw [Nat.mul_assoc, Nat.sub_mul] at hunits
    have hle : a.units * den ≤ b.units * den := Nat.mul_le_mul_right den hlt.le
    zify [hle] at hunits
    exact hunits
  apply eq_of_le_of_le
  · by_contra hmore
    have hfar := hgap hmore
    have hlt : m.units * den ≤ found.units * den :=
      Nat.mul_le_mul_right den (units_lt_of_not_le hmore).le
    zify at hlt
    have hneg := neg_abs_le ((m.units : ℤ) * den - found.units * den)
    linarith
  · by_contra hless
    have hfar := hgap hless
    have hself := le_abs_self ((m.units : ℤ) * den - found.units * den)
    linarith

end Magnitude
end InputDeck
