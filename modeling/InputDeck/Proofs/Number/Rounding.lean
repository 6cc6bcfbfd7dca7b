/-
Rounding to the nearest binary64 number.

`nearest` sees nothing of a fraction but its value (`nearest_congr`), takes every number to itself
(`nearest_units`), and goes to infinity and to zero far out.  From the last two the short cuts of
`ofDecimal` for very large and very small powers of ten are no cases of their own: a decimal is
rounded as the fraction it is (`ofDecimal_eq_nearest`), so it does not matter how many of its zeros
are written out (`ofDecimal_mul_pow`).
-/
import InputDeck.Number.Magnitude
import Mathlib.Tactic.Ring

namespace InputDeck
namespace Magnitude

variable {num den : Nat}

/-! ## Powers

The powers of two and ten here are too large to be written out.  So that nothing is evaluated to
match them, their laws are stated with variables for the exponents, and the bounds which they obey
with exponents of which only the size is known. -/

theorem pow_add (b m n : Nat) : Nat.pow b (m + n) = Nat.pow b m * Nat.pow b n := Nat.pow_add b m n

theorem ten_pow_pos (n : Nat) : 0 < Nat.pow 10 n := Nat.pow_pos (by decide)

theorem exists_large : ∃ m n k, 2098 ≤ m + k ∧ n ≤ 309 ∧ Nat.pow 2 m ≤ Nat.pow 10 n ∧
    oneUnits = Nat.pow 2 k :=
  ⟨1024, 309, 1074, by decide +kernel, by decide +kernel, by decide +kernel, by decide +kernel⟩

theorem exists_small : ∃ n, n ≤ 400 ∧ 0 < oneUnits ∧ 2 * oneUnits ≤ Nat.pow 10 n :=
  ⟨400, by decide +kernel, by decide +kernel, by decide +kernel⟩

/-- A bound for a power of ten is one for all its multiples by higher powers of ten. -/
theorem two_pow_le_scaled {c e k m n : Nat} (hc : 0 < c) (hten : Nat.pow 2 m ≤ Nat.pow 10 n)
    (hn : n ≤ e) (hunits : oneUnits = Nat.pow 2 k) :
    Nat.pow 2 (m + k) ≤ c * Nat.pow 10 e * oneUnits := by
  have hmono : Nat.pow 10 n ≤ Nat.pow 10 e := Nat.pow_le_pow_right (by decide) hn
  have hscaled : Nat.pow 2 m ≤ c * Nat.pow 10 e :=
    Nat.le_trans (Nat.le_trans hten hmono) (Nat.le_mul_of_pos_left _ hc)
  rw [pow_add, hunits]
  exact Nat.mul_le_mul_right _ hscaled

/-- A number with few digits is less than half of a power of ten with far more zeros. -/
theorem scaled_lt_ten_pow {c k m n : Nat} (hc : c < Nat.pow 10 m) (hunits : 0 < oneUnits)
    (hten : 2 * oneUnits ≤ Nat.pow 10 n) (hk : m + n ≤ k) :
    2 * (c * oneUnits) < Nat.pow 10 k := by
  have hmono : Nat.pow 10 (m + n) ≤ Nat.pow 10 k := Nat.pow_le_pow_right (by decide) hk
  have hdouble : 0 < 2 * oneUnits := Nat.mul_pos (by decide) hunits
  calc 2 * (c * oneUnits) = c * (2 * oneUnits) := by ring
    _ < Nat.pow 10 m * (2 * oneUnits) := Nat.mul_lt_mul_of_pos_right hc hdouble
    _ ≤ Nat.pow 10 m * Nat.pow 10 n := Nat.mul_le_mul_left _ hten
    _ = Nat.pow 10 (m + n) := (pow_add 10 m n).symm
    _ ≤ Nat.pow 10 k := hmono

/-! ## Fractions -/

theorem roundDiv_mul_right {k : Nat} (hk : 0 < k) (num den : Nat) :
    roundDiv (num * k) (den * k) = roundDiv num den := by
  have hmod : num * k % (den * k) = num % den * k := Nat.mul_mod_mul_right k num den
  have hlt : den * k < 2 * (num % den * k) ↔ den < 2 * (num % den) := by
    rw [← Nat.mul_assoc]
    exact Nat.mul_lt_mul_right hk
  have heq : 2 * (num % den * k) = den * k ↔ 2 * (num % den) = den := by
    rw [← Nat.mul_assoc]
    exact Nat.mul_left_inj (Nat.ne_of_gt hk)
  simp only [roundDiv, Nat.mul_div_mul_right _ _ hk, hmod, hlt, heq]

theorem nearest_mul_right {k : Nat} (hk : 0 < k) (num den : Nat) :
    nearest (num * k) (den * k) = nearest num den := by
  have hden (shift : Nat) : den * k * Nat.pow 2 shift = den * Nat.pow 2 shift * k := by ring
  simp only [nearest, Nat.mul_div_mul_right _ _ hk, hden, roundDiv_mul_right hk]

/-- Equal fractions are rounded alike. -/
theorem nearest_congr {num' den' : Nat} (hden : 0 < den) (hden' : 0 < den')
    (h : num * den' = num' * den) : nearest num den = nearest num' den' := by
  rw [← nearest_mul_right hden' num den, ← nearest_mul_right hden num' den', h,
    Nat.mul_comm den den']

theorem roundDiv_mul_self (hden : 0 < den) (n : Nat) : roundDiv (n * den) den = n := by
  have hmod : n * den % den = 0 := Nat.mul_mod_left n den
  have hnot : ¬ (den < 2 * 0 ∨ (2 * 0 = den ∧ n % 2 = 1)) := by omega
  simp only [roundDiv, Nat.mul_div_cancel _ hden, hmod, if_neg hnot]

theorem div_le_roundDiv (num den : Nat) : num / den ≤ roundDiv num den := by
  unfold roundDiv
  dsimp only
  split
  · exact Nat.le_succ _
  · exact Nat.le_refl _

/-! ## Numbers are their own nearest ones -/

theorem ofRank_rank (m : Magnitude) : ofRank m.rank = m := by
  have hrank : min m.rank 0x7FF0000000000000 = m.rank := Nat.min_eq_left m.rank_le
  simp only [ofRank, hrank]

theorem log2_mantissa {f k : Nat} (hf : f < 0x10000000000000) :
    ((0x10000000000000 + f) * Nat.pow 2 k).log2 = k + 52 := by
  have hpos : 0 < Nat.pow 2 k := Nat.two_pow_pos k
  have hlow : 2 ^ (k + 52) = 0x10000000000000 * Nat.pow 2 k := by
    rw [Nat.pow_add, Nat.mul_comm]
    rfl
  have hhigh : 2 ^ (k + 52 + 1) = 0x20000000000000 * Nat.pow 2 k := by
    rw [Nat.pow_succ, hlow]
    ring
  have hne : (0x10000000000000 + f) * Nat.pow 2 k ≠ 0 := by
    apply Nat.ne_of_gt
    exact Nat.mul_pos (by omega) hpos
  rw [Nat.log2_eq_iff hne, hlow, hhigh]
  exact ⟨Nat.mul_le_mul_right _ (by omega), Nat.mul_lt_mul_of_pos_right (by omega) hpos⟩

theorem nearest_units (m : Magnitude) : nearest m.units 1 = m := by
  by_cases hsub : m.rank < 0x10000000000000
  · have hlog : m.rank.log2 - 52 = 0 := by
      by_cases hzero : m.rank = 0
      · simp [hzero]
      · have hlt : m.rank.log2 < 52 := (Nat.log2_lt hzero).2 hsub
        omega
    have hround : roundDiv m.rank (1 * Nat.pow 2 0) = m.rank := by
      simpa using roundDiv_mul_self Nat.one_pos m.rank
    simp only [nearest, units, if_pos hsub, Nat.div_one, hlog, hround, Nat.zero_mul, Nat.zero_add,
      ofRank_rank]
  · have hlog := log2_mantissa (f := m.rank % 0x10000000000000)
      (k := m.rank / 0x10000000000000 - 1) (Nat.mod_lt _ (by decide))
    have hround := roundDiv_mul_self (Nat.two_pow_pos (m.rank / 0x10000000000000 - 1))
      (0x10000000000000 + m.rank % 0x10000000000000)
    have hrank : (m.rank / 0x10000000000000 - 1) * 0x10000000000000 +
        (0x10000000000000 + m.rank % 0x10000000000000) = m.rank := by omega
    simp only [nearest, units, if_neg hsub, Nat.div_one, hlog, Nat.add_sub_cancel, Nat.one_mul]
    exact (congrArg ofRank ((congrArg _ hround).trans hrank)).trans (ofRank_rank m)

/-! ## Far out -/

theorem nearest_eq_zero (h : 2 * num < den) : nearest num den = zero := by
  have hdiv : num / den = 0 := Nat.div_eq_of_lt (by omega)
  have hmod : num % den = num := Nat.mod_eq_of_lt (by omega)
  have hnot : ¬ (den < 2 * num ∨ (2 * num = den ∧ 0 % 2 = 1)) := by omega
  have hround : roundDiv num (den * Nat.pow 2 0) = 0 := by
    have hone : den * Nat.pow 2 0 = den := Nat.mul_one den
    simp only [roundDiv, hone, hdiv, hmod, if_neg hnot]
  have hlog : Nat.log2 0 - 52 = 0 := rfl
  simp only [nearest, hdiv, hlog, hround]
  rfl

theorem nearest_zero (hden : 0 < den) : nearest 0 den = zero := nearest_eq_zero (by omega)

/-- From 2^2098 units on, which is 2^1024, everything is nearest to infinity. -/
theorem nearest_eq_infinity {e : Nat} (he : 2098 ≤ e) (hden : 0 < den)
    (h : Nat.pow 2 e * den ≤ num) : nearest num den = infinity := by
  have hdiv : Nat.pow 2 e ≤ num / den := (Nat.le_div_iff_mul_le hden).2 h
  have hne : num / den ≠ 0 := Nat.ne_of_gt (Nat.lt_of_lt_of_le (Nat.two_pow_pos e) hdiv)
  have hlog : e ≤ (num / den).log2 := (Nat.le_log2 hne).2 hdiv
  have hself : Nat.pow 2 (num / den).log2 ≤ num / den := Nat.log2_self_le hne
  have hshift : (num / den).log2 = 52 + ((num / den).log2 - 52) := by omega
  have hmantissa : 0x10000000000000 ≤ num / (den * Nat.pow 2 ((num / den).log2 - 52)) := by
    rw [← Nat.div_div_eq_div_mul]
    apply (Nat.le_div_iff_mul_le (Nat.two_pow_pos _)).2
    have hpow : Nat.pow 2 (52 + ((num / den).log2 - 52)) =
        0x10000000000000 * Nat.pow 2 ((num / den).log2 - 52) := Nat.pow_add 2 52 _
    rw [hshift, hpow] at hself
    exact hself
  have hround := Nat.le_trans hmantissa (div_le_roundDiv _ _)
  have hrank : 0x7FF0000000000000 ≤ ((num / den).log2 - 52) * 0x10000000000000 +
      roundDiv num (den * Nat.pow 2 ((num / den).log2 - 52)) := by omega
  have hmin := Nat.min_eq_right hrank
  simp only [nearest, ofRank, infinity, hmin]

/-! ## Decimals -/

theorem nearest_scaled_of_large {c : Nat} {e : Int} (hc : 0 < c) (he : 309 ≤ e) :
    nearest (c * Nat.pow 10 e.toNat * oneUnits) (Nat.pow 10 (-e).toNat) = infinity := by
  have hneg : (-e).toNat = 0 := by omega
  obtain ⟨m, n, k, hmk, hn, hten, hunits⟩ := exists_large
  have hlarge := two_pow_le_scaled (e := e.toNat) hc hten (by omega) hunits
  apply nearest_eq_infinity hmk (ten_pow_pos _)
  rw [hneg]
  exact Nat.le_trans (Nat.le_of_eq (Nat.mul_one _)) hlarge

theorem nearest_scaled_of_small {c : Nat} {e : Int}
    (he : (Nat.toDigits 10 c).length + e < -400) :
    nearest (c * Nat.pow 10 e.toNat * oneUnits) (Nat.pow 10 (-e).toNat) = zero := by
  have hpos : e.toNat = 0 := by omega
  have hone : Nat.pow 10 0 = 1 := rfl
  have hc : c < Nat.pow 10 (Nat.toDigits 10 c).length :=
    (Nat.length_toDigits_le_iff (by decide) Nat.length_toDigits_pos).1 (Nat.le_refl _)
  obtain ⟨n, hn, hunits, hten⟩ := exists_small
  have hsmall := scaled_lt_ten_pow (k := (-e).toNat) hc hunits hten (by omega)
  apply nearest_eq_zero
  rw [hpos, hone, Nat.mul_one]
  exact hsmall

/-- The short cuts of `ofDecimal` give what rounding the fraction gives. -/
theorem ofDecimal_eq_nearest (c : Nat) (e : Int) :
    ofDecimal c e = nearest (c * Nat.pow 10 e.toNat * oneUnits) (Nat.pow 10 (-e).toNat) := by
  unfold ofDecimal
  split
  · rename_i hc
    rw [hc, Nat.zero_mul, Nat.zero_mul]
    exact (nearest_zero (ten_pow_pos _)).symm
  split
  · rename_i hc he
    exact (nearest_scaled_of_large (Nat.pos_of_ne_zero hc) he).symm
  split
  · rename_i he
    exact (nearest_scaled_of_small he).symm
  cases e with
  | ofNat n =>
      have hneg : (-Int.ofNat n).toNat = 0 := Int.toNat_neg_natCast n
      rw [hneg]
      rfl
  | negSucc n =>
      have hone : Nat.pow 10 0 = 1 := rfl
      have hneg : (-Int.negSucc n).toNat = n + 1 := rfl
      rw [Int.toNat_negSucc, hone, Nat.mul_one, hneg]

/-- Zeros at the end of a coefficient may be written out or not. -/
theorem ofDecimal_mul_pow (c j : Nat) (e : Int) :
    ofDecimal (c * Nat.pow 10 j) (e - j) = ofDecimal c e := by
  rw [ofDecimal_eq_nearest, ofDecimal_eq_nearest]
  apply nearest_congr (ten_pow_pos _) (ten_pow_pos _)
  have hexponents : j + (e - j).toNat + (-e).toNat = e.toNat + (-(e - j)).toNat := by omega
  have hpow : Nat.pow 10 j * Nat.pow 10 (e - j).toNat * Nat.pow 10 (-e).toNat =
      Nat.pow 10 e.toNat * Nat.pow 10 (-(e - j)).toNat := by
    rw [← pow_add, ← pow_add, ← pow_add, hexponents]
  calc c * Nat.pow 10 j * Nat.pow 10 (e - j).toNat * oneUnits * Nat.pow 10 (-e).toNat
      = c * (Nat.pow 10 j * Nat.pow 10 (e - j).toNat * Nat.pow 10 (-e).toNat) * oneUnits := by ring
    _ = c * Nat.pow 10 e.toNat * oneUnits * Nat.pow 10 (-(e - j)).toNat := by
        rw [hpow]
        ring

end Magnitude
end InputDeck
