/-
That rounding finds the nearest number.

The finite numbers from 2^52 times some spacing on are multiples of that spacing, and `nearest`
takes the nearest multiple of the spacing around the fraction it rounds; the numbers below lie
further away than the first of these multiples.  So no number is closer (`nearest_closest`), and of
two equally close ones the even one is found.  How close it is depends on its size alone: two
fractions that are rounded alike differ by little (`nearest_error`).
-/
import InputDeck.Proofs.Number.Rounding
import Mathlib.Algebra.Order.Ring.Abs
import Mathlib.Algebra.Order.Ring.Int
import Mathlib.Tactic.Linarith

namespace InputDeck
namespace Magnitude

variable {num den : Nat}

/-! ## Whole numbers nearest to a fraction -/

theorem roundDiv_cases (num den : Nat) :
    roundDiv num den = num / den ∧ 2 * (num % den) ≤ den ∧
        (2 * (num % den) = den → num / den % 2 = 0) ∨
      roundDiv num den = num / den + 1 ∧ den ≤ 2 * (num % den) ∧
        (2 * (num % den) = den → num / den % 2 = 1) := by
  unfold roundDiv
  dsimp only
  split
  · exact Or.inr ⟨rfl, by omega, by omega⟩
  · exact Or.inl ⟨rfl, by omega, by omega⟩

/-- The error is at most half of the spacing, and exactly half of it only at an even number. -/
theorem roundDiv_error (hden : 0 < den) (num : Nat) :
    2 * |(roundDiv num den : ℤ) * den - num| ≤ den ∧
      (2 * |(roundDiv num den : ℤ) * den - num| = den → roundDiv num den % 2 = 0) := by
  have hrest : num % den < den := Nat.mod_lt num hden
  have hnum : num / den * den + num % den = num := Nat.div_add_mod' num den
  have hcases := roundDiv_cases num den
  generalize num / den = quotient at hnum hcases
  generalize num % den = rest at hrest hnum hcases
  subst hnum
  rcases hcases with ⟨hround, hle, htie⟩ | ⟨hround, hle, htie⟩
  · have herror : ((roundDiv (quotient * den + rest) den : ℕ) : ℤ) * den -
        ((quotient * den + rest : ℕ) : ℤ) = -(rest : ℤ) := by
      rw [hround]
      push_cast
      ring
    rw [herror, abs_neg, Nat.abs_cast, hround]
    omega
  · have herror : ((roundDiv (quotient * den + rest) den : ℕ) : ℤ) * den -
        ((quotient * den + rest : ℕ) : ℤ) = ((den - rest : ℕ) : ℤ) := by
      rw [hround, Nat.cast_sub hrest.le]
      push_cast
      ring
    rw [herror, Nat.abs_cast, hround]
    omega

theorem roundDiv_closest (hden : 0 < den) (num n : Nat) :
    |(roundDiv num den : ℤ) * den - num| ≤ |(n : ℤ) * den - num| ∧
      (|(n : ℤ) * den - num| = |(roundDiv num den : ℤ) * den - num| →
        n = roundDiv num den ∨ roundDiv num den % 2 = 0) := by
  obtain ⟨herror, heven⟩ := roundDiv_error hden num
  by_cases hn : n = roundDiv num den
  · subst hn
    exact ⟨le_refl _, fun _ => Or.inl rfl⟩
  have hone : (1 : ℤ) ≤ |(n : ℤ) - roundDiv num den| :=
    Int.one_le_abs (sub_ne_zero.2 (by exact_mod_cast hn))
  have hapart : (den : ℤ) ≤ |(n : ℤ) * den - num| + |(roundDiv num den : ℤ) * den - num| :=
    calc (den : ℤ) = 1 * den := (one_mul _).symm
      _ ≤ |(n : ℤ) - roundDiv num den| * den := by gcongr
      _ = |((n : ℤ) * den - num) - ((roundDiv num den : ℤ) * den - num)| := by
        rw [← Nat.abs_cast den, ← abs_mul, Nat.abs_cast]
        ring_nf
      _ ≤ _ := abs_sub _ _
  exact ⟨by omega, fun h => Or.inr (heven (by omega))⟩

/-! ## The spacing around a fraction -/

/-- That a fraction is rounded to multiples of the spacing 2^`shift`, of which it lies between the
2^52th and the 2^53th unless the spacing is the smallest one. -/
structure Rounds (num den shift : Nat) : Prop where
  nearest_eq : nearest num den =
    ofRank (shift * 0x10000000000000 + roundDiv num (den * Nat.pow 2 shift))
  run : shift = 0 ∨ 0x10000000000000 * (den * Nat.pow 2 shift) ≤ num
  le_round : shift = 0 ∨ 0x10000000000000 ≤ roundDiv num (den * Nat.pow 2 shift)
  round_le : roundDiv num (den * Nat.pow 2 shift) ≤ 0x20000000000000

theorem rounds_log2 (hden : 0 < den) (num : Nat) : Rounds num den ((num / den).log2 - 52) := by
  have hrun : (num / den).log2 - 52 = 0 ∨
      0x10000000000000 * (den * Nat.pow 2 ((num / den).log2 - 52)) ≤ num := by
    by_cases hshift : (num / den).log2 - 52 = 0
    · exact Or.inl hshift
    · have hne : num / den ≠ 0 := by
        intro h
        simp [h] at hshift
      have hself : 2 ^ (num / den).log2 ≤ num / den := Nat.log2_self_le hne
      have hexponent : 52 + ((num / den).log2 - 52) = (num / den).log2 := by omega
      have htwo : Nat.pow 2 52 = 0x10000000000000 := rfl
      right
      calc 0x10000000000000 * (den * Nat.pow 2 ((num / den).log2 - 52))
          = Nat.pow 2 52 * Nat.pow 2 ((num / den).log2 - 52) * den := by
            rw [htwo]
            ring
        _ = Nat.pow 2 (num / den).log2 * den := by rw [← pow_add, hexponent]
        _ ≤ num := (Nat.le_div_iff_mul_le hden).1 hself
  have hupper : num / (den * Nat.pow 2 ((num / den).log2 - 52)) < 0x20000000000000 := by
    have hlt : num / den < 2 ^ ((num / den).log2 + 1) := Nat.lt_log2_self
    have hexponent : (num / den).log2 + 1 ≤ 53 + ((num / den).log2 - 52) := by omega
    rw [← Nat.div_div_eq_div_mul]
    refine (Nat.div_lt_iff_lt_mul (Nat.two_pow_pos _)).2 ?_
    calc num / den < 2 ^ ((num / den).log2 + 1) := hlt
      _ ≤ 2 ^ (53 + ((num / den).log2 - 52)) := Nat.pow_le_pow_right (by decide) hexponent
      _ = 0x20000000000000 * Nat.pow 2 ((num / den).log2 - 52) := Nat.pow_add 2 53 _
  refine ⟨rfl, hrun, ?_, ?_⟩
  · refine hrun.imp id ?_
    intro hle
    have hdiv := (Nat.le_div_iff_mul_le (Nat.mul_pos hden (Nat.two_pow_pos _))).2 hle
    exact hdiv.trans (div_le_roundDiv _ _)
  · rcases roundDiv_cases num (den * Nat.pow 2 ((num / den).log2 - 52)) with
      ⟨hround, -⟩ | ⟨hround, -⟩ <;> omega

theorem exists_rounds (hden : 0 < den) (num : Nat) : ∃ shift, Rounds num den shift :=
  ⟨_, rounds_log2 hden num⟩

/-! ## Multiples of a spacing -/

/-- A number is a multiple of a spacing, or it lies below the numbers that have this spacing. -/
theorem units_cases (m : Magnitude) (shift : Nat) :
    (∃ n, m.units = n * Nat.pow 2 shift) ∨ m.units < 0x10000000000000 * Nat.pow 2 shift := by
  unfold units
  split
  · rename_i hsub
    have hpos : 1 ≤ Nat.pow 2 shift := Nat.two_pow_pos shift
    right
    omega
  · generalize m.rank / 0x10000000000000 - 1 = run
    have hmantissa : 0x10000000000000 + m.rank % 0x10000000000000 < 0x20000000000000 := by omega
    by_cases hle : shift ≤ run
    · left
      refine ⟨(0x10000000000000 + m.rank % 0x10000000000000) * Nat.pow 2 (run - shift), ?_⟩
      rw [Nat.mul_assoc, ← pow_add, Nat.sub_add_cancel hle]
    · right
      have hpow : Nat.pow 2 (run + 1) ≤ Nat.pow 2 shift :=
        Nat.pow_le_pow_right (by decide) (by omega)
      have hdouble : Nat.pow 2 (run + 1) = Nat.pow 2 run * 2 := Nat.pow_succ 2 run
      calc (0x10000000000000 + m.rank % 0x10000000000000) * Nat.pow 2 run
          < 0x20000000000000 * Nat.pow 2 run :=
            Nat.mul_lt_mul_of_pos_right hmantissa (Nat.two_pow_pos run)
        _ = 0x10000000000000 * Nat.pow 2 (run + 1) := by
            rw [hdouble]
            ring
        _ ≤ 0x10000000000000 * Nat.pow 2 shift := Nat.mul_le_mul_left _ hpow

theorem units_ofRank {shift r : Nat} (hle : shift = 0 ∨ 0x10000000000000 ≤ r)
    (hr : r ≤ 0x20000000000000) (hrank : shift * 0x10000000000000 + r ≤ 0x7FF0000000000000) :
    (ofRank (shift * 0x10000000000000 + r)).units = r * Nat.pow 2 shift := by
  have hmin : min (shift * 0x10000000000000 + r) 0x7FF0000000000000 =
      shift * 0x10000000000000 + r := Nat.min_eq_left hrank
  simp only [units, ofRank, hmin]
  by_cases hsub : r < 0x10000000000000
  · obtain rfl : shift = 0 := by omega
    have hone : Nat.pow 2 0 = 1 := rfl
    rw [Nat.zero_mul, Nat.zero_add, if_pos hsub, hone, Nat.mul_one]
  rw [if_neg (by omega)]
  by_cases hlast : r = 0x20000000000000
  · subst hlast
    have hrun : (shift * 0x10000000000000 + 0x20000000000000) / 0x10000000000000 - 1 =
        shift + 1 := by omega
    have hrest : (shift * 0x10000000000000 + 0x20000000000000) % 0x10000000000000 = 0 := by omega
    have hdouble : Nat.pow 2 (shift + 1) = Nat.pow 2 shift * 2 := Nat.pow_succ 2 shift
    rw [hrun, hrest, hdouble]
    ring
  · have hrun : (shift * 0x10000000000000 + r) / 0x10000000000000 - 1 = shift := by omega
    have hrest : (shift * 0x10000000000000 + r) % 0x10000000000000 = r - 0x10000000000000 := by
      omega
    rw [hrun, hrest, Nat.add_sub_cancel' (Nat.le_of_not_lt hsub)]

/-! ## Rounding -/

/-- What a fraction is rounded to, if that is finite. -/
theorem Rounds.units_nearest {shift : Nat} (h : Rounds num den shift)
    (hfinite : nearest num den ≠ infinity) :
    (nearest num den).units = roundDiv num (den * Nat.pow 2 shift) * Nat.pow 2 shift ∧
      (nearest num den).rank =
        shift * 0x10000000000000 + roundDiv num (den * Nat.pow 2 shift) := by
  have hrank : shift * 0x10000000000000 + roundDiv num (den * Nat.pow 2 shift) ≤
      0x7FF0000000000000 := by
    by_contra hlarge
    apply hfinite
    have hmin := Nat.min_eq_right (Nat.le_of_not_le hlarge)
    simp only [h.nearest_eq, ofRank, infinity, hmin]
  rw [h.nearest_eq]
  exact ⟨units_ofRank h.le_round h.round_le hrank, Nat.min_eq_left hrank⟩

/-- No number is closer to a fraction than what it is rounded to, and none as close unless that is
even. -/
theorem nearest_closest (hden : 0 < den) (hfinite : nearest num den ≠ infinity)
    (other : Magnitude) :
    |((nearest num den).units : ℤ) * den - num| ≤ |(other.units : ℤ) * den - num| ∧
      (|(other.units : ℤ) * den - num| = |((nearest num den).units : ℤ) * den - num| →
        other.units = (nearest num den).units ∨ (nearest num den).rank % 2 = 0) := by
  obtain ⟨shift, hrounds⟩ := exists_rounds hden num
  obtain ⟨hunits, hrank⟩ := hrounds.units_nearest hfinite
  have hpos : 0 < den * Nat.pow 2 shift := Nat.mul_pos hden (Nat.two_pow_pos shift)
  have hmultiple (n : Nat) : ((n * Nat.pow 2 shift : ℕ) : ℤ) * den - num =
      (n : ℤ) * (den * Nat.pow 2 shift : ℕ) - num := by
    push_cast
    ring
  have hcases : (∃ n, other.units = n * Nat.pow 2 shift) ∨
      other.units * den < 0x10000000000000 * (den * Nat.pow 2 shift) ∧
        0x10000000000000 * (den * Nat.pow 2 shift) ≤ num := by
    rcases hrounds.run with rfl | hrun
    · exact Or.inl ⟨other.units, (Nat.mul_one _).symm⟩
    · refine (units_cases other shift).imp id fun hbelow => ⟨?_, hrun⟩
      calc other.units * den < 0x10000000000000 * Nat.pow 2 shift * den :=
            Nat.mul_lt_mul_of_pos_right hbelow hden
        _ = 0x10000000000000 * (den * Nat.pow 2 shift) := by ring
  rw [hunits, hrank, hmultiple]
  rcases hcases with ⟨n, hother⟩ | ⟨hbelow, hrun⟩
  · rw [hother, hmultiple]
    obtain ⟨hle, htie⟩ := roundDiv_closest hpos num n
    refine ⟨hle, fun h => (htie h).imp ?_ ?_⟩
    · rintro rfl
      rfl
    · omega
  · -- The first number with the spacing lies between the other one and the fraction.
    have hfirst := (roundDiv_closest hpos num 0x10000000000000).1
    have hfar : |(roundDiv num (den * Nat.pow 2 shift) : ℤ) * (den * Nat.pow 2 shift : ℕ) - num| <
        |(other.units : ℤ) * den - num| := by
      generalize den * Nat.pow 2 shift = spacing at hfirst hbelow hrun ⊢
      have hbelow' : (other.units : ℤ) * den < 0x10000000000000 * spacing := by
        exact_mod_cast hbelow
      have hrun' : (0x10000000000000 : ℤ) * spacing ≤ num := by exact_mod_cast hrun
      refine lt_of_le_of_lt hfirst ?_
      rw [abs_of_nonpos (by push_cast; linarith), abs_of_nonpos (by linarith)]
      push_cast
      linarith
    exact ⟨hfar.le, fun h => absurd h hfar.ne'⟩

/-- Rounding does not pass over a number from below. -/
theorem units_nearest_le (hden : 0 < den) (hfinite : nearest num den ≠ infinity) {m : Magnitude}
    (h : num ≤ m.units * den) : (nearest num den).units ≤ m.units := by
  have hbound : (num : ℤ) ≤ m.units * den := by exact_mod_cast h
  have hclose := (le_abs_self _).trans (nearest_closest hden hfinite m).1
  rw [abs_of_nonneg (sub_nonneg.2 hbound), sub_le_sub_iff_right] at hclose
  exact Nat.le_of_mul_le_mul_right (by exact_mod_cast hclose) hden

/-- Rounding does not pass over a number from above. -/
theorem units_le_nearest (hden : 0 < den) (hfinite : nearest num den ≠ infinity) {m : Magnitude}
    (h : m.units * den ≤ num) : m.units ≤ (nearest num den).units := by
  have hbound : (m.units : ℤ) * den ≤ num := by exact_mod_cast h
  have hclose := (neg_le_abs _).trans (nearest_closest hden hfinite m).1
  rw [abs_of_nonpos (sub_nonpos.2 hbound), neg_le_neg_iff, sub_le_sub_iff_right] at hclose
  exact Nat.le_of_mul_le_mul_right (by exact_mod_cast hclose) hden

/-- The error of rounding is at most half a unit in the last of 53 binary places. -/
theorem nearest_error (hden : 0 < den) (hfinite : nearest num den ≠ infinity)
    (hnormal : 0x10000000000000 ≤ (nearest num den).units) :
    0x20000000000000 * |((nearest num den).units : ℤ) * den - num| ≤
      ((nearest num den).units : ℤ) * den := by
  obtain ⟨shift, hrounds⟩ := exists_rounds hden num
  obtain ⟨hunits, -⟩ := hrounds.units_nearest hfinite
  have hpos : 0 < den * Nat.pow 2 shift := Nat.mul_pos hden (Nat.two_pow_pos shift)
  have herror := (roundDiv_error hpos num).1
  rw [hunits] at hnormal ⊢
  have hmantissa : 0x10000000000000 ≤ roundDiv num (den * Nat.pow 2 shift) := by
    rcases hrounds.le_round with rfl | hle
    · exact hnormal.trans_eq (Nat.mul_one _)
    · exact hle
  have hvalue : ((roundDiv num (den * Nat.pow 2 shift) * Nat.pow 2 shift : ℕ) : ℤ) * den =
      (roundDiv num (den * Nat.pow 2 shift) : ℤ) * (den * Nat.pow 2 shift : ℕ) := by
    push_cast
    ring
  rw [hvalue]
  generalize den * Nat.pow 2 shift = spacing at herror hmantissa ⊢
  calc (0x20000000000000 : ℤ) * |(roundDiv num spacing : ℤ) * spacing - num|
      = 0x10000000000000 * (2 * |(roundDiv num spacing : ℤ) * spacing - num|) := by ring
    _ ≤ 0x10000000000000 * spacing := by gcongr
    _ ≤ (roundDiv num spacing : ℤ) * spacing := by
        have hle : (0x10000000000000 : ℤ) ≤ (roundDiv num spacing : ℤ) := by exact_mod_cast hmantissa
        gcongr

theorem le_units_nearest (hden : 0 < den) (hfinite : nearest num den ≠ infinity)
    (h : 0x10000000000000 * den ≤ num) : 0x10000000000000 ≤ (nearest num den).units := by
  have hfirst : (⟨0x10000000000000, by decide⟩ : Magnitude).units = 0x10000000000000 := rfl
  rw [← hfirst] at h ⊢
  exact units_le_nearest hden hfinite h

/-- What is below 2^1023 is not rounded to infinity. -/
theorem nearest_ne_infinity {e : Nat} (he : e ≤ 2097) (hden : 0 < den)
    (h : num < Nat.pow 2 e * den) : nearest num den ≠ infinity := by
  intro hinfinite
  obtain ⟨shift, hrounds⟩ := exists_rounds hden num
  have hle := hrounds.round_le
  have hrank : 0x7FF0000000000000 ≤
      shift * 0x10000000000000 + roundDiv num (den * Nat.pow 2 shift) := by
    have hmin := congrArg rank (hrounds.nearest_eq.symm.trans hinfinite)
    simp only [ofRank, infinity] at hmin
    omega
  rcases hrounds.run with rfl | hrun
  · omega
  · have hpow : Nat.pow 2 e ≤ Nat.pow 2 (52 + shift) := Nat.pow_le_pow_right (by decide) (by omega)
    have hfirst : 0x10000000000000 * (den * Nat.pow 2 shift) = Nat.pow 2 (52 + shift) * den := by
      have htwo : Nat.pow 2 52 = 0x10000000000000 := rfl
      rw [pow_add, htwo]
      ring
    rw [hfirst] at hrun
    exact Nat.lt_irrefl num (h.trans_le ((Nat.mul_le_mul_right den hpow).trans hrun))

/-- A whole number of at most 53 binary places, scaled by a power of two, is rounded to itself. -/
theorem units_nearest_of_lt {n k : Nat} (hn : n < 0x20000000000000) (hk : k ≤ 2044) :
    (nearest (n * Nat.pow 2 k) 1).units = n * Nat.pow 2 k := by
  have hlt : n * Nat.pow 2 k < Nat.pow 2 (53 + k) * 1 := by
    rw [pow_add, Nat.mul_one]
    exact Nat.mul_lt_mul_of_pos_right hn (Nat.two_pow_pos k)
  have hfinite := nearest_ne_infinity (e := 53 + k) (by omega) Nat.one_pos hlt
  obtain ⟨shift, hrounds⟩ := exists_rounds Nat.one_pos (n * Nat.pow 2 k)
  obtain ⟨hunits, -⟩ := hrounds.units_nearest hfinite
  have hshift : shift ≤ k := by
    rcases hrounds.run with rfl | hrun
    · exact Nat.zero_le k
    · rw [Nat.one_mul] at hrun
      by_contra hgt
      have hpow : Nat.pow 2 (k + 1) ≤ Nat.pow 2 shift :=
        Nat.pow_le_pow_right (by decide) (Nat.lt_of_not_le hgt)
      have hdouble : Nat.pow 2 (k + 1) = Nat.pow 2 k * 2 := Nat.pow_succ 2 k
      have hpos : 0 < Nat.pow 2 k := Nat.two_pow_pos k
      have hn' : n * Nat.pow 2 k < 0x20000000000000 * Nat.pow 2 k :=
        Nat.mul_lt_mul_of_pos_right hn hpos
      omega
  have hmultiple : n * Nat.pow 2 k = n * Nat.pow 2 (k - shift) * (1 * Nat.pow 2 shift) := by
    rw [Nat.one_mul, Nat.mul_assoc, ← pow_add, Nat.sub_add_cancel hshift]
  have hround : roundDiv (n * Nat.pow 2 k) (1 * Nat.pow 2 shift) = n * Nat.pow 2 (k - shift) := by
    rw [hmultiple]
    exact roundDiv_mul_self (Nat.mul_pos Nat.one_pos (Nat.two_pow_pos shift)) _
  rw [hunits, hround, Nat.mul_assoc, ← pow_add, Nat.sub_add_cancel hshift]

end Magnitude
end InputDeck
