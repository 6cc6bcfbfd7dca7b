/-
Decimals of few digits come back.

A number has only one decimal of at most 15 digits, zeros at the end apart: two multiples of a power
of ten that are rounded alike are closer to each other than that power of ten, so they are the same
(`eq_of_ofGrid`).  The search for the shortest decimal ends on the coarsest grid there is, so it does
not miss the decimal that was read, and it finds no other (`coarsest_eq`).  The theorem this file
exists for is `value_shortest_ofDecimal`.

The powers of ten are those from 10^-22 to 10^22, where no number is subnormal and none overflows.
-/
import InputDeck.Proofs.Number.Fewest

namespace InputDeck
namespace Magnitude

variable {m : Magnitude} {D G k : Nat}

/-! ## How far a decimal is from what it is rounded to -/

/-- The size of the numbers in question, on a grid counted from 10^-`k` on. -/
theorem bounds_grid (hpos : 0 < D) (hD : D < 10 ^ 15) (hlow : k ≤ G + 22) (hhigh : G ≤ k + 22)
    (hk : 126 ≤ k) :
    0x10000000000000 * Nat.pow 5 k ≤ D * Nat.pow 10 G ∧
      D * Nat.pow 10 G < Nat.pow 2 (123 + k) * Nat.pow 5 k := by
  have hten : Nat.pow 2 k * Nat.pow 5 k = Nat.pow 10 k := (Nat.mul_pow 2 5 k).symm
  constructor
  · have hscale : 0x10000000000000 * Nat.pow 10 22 ≤ Nat.pow 2 k :=
      calc 0x10000000000000 * Nat.pow 10 22 ≤ Nat.pow 2 126 := by decide
        _ ≤ Nat.pow 2 k := Nat.pow_le_pow_right (by decide) hk
    have hgrid : Nat.pow 10 k ≤ Nat.pow 10 G * Nat.pow 10 22 := by
      rw [← pow_add]
      exact Nat.pow_le_pow_right (by decide) hlow
    refine Nat.le_of_mul_le_mul_right ?_ (ten_pow_pos 22)
    calc 0x10000000000000 * Nat.pow 5 k * Nat.pow 10 22
        = 0x10000000000000 * Nat.pow 10 22 * Nat.pow 5 k := by ring
      _ ≤ Nat.pow 2 k * Nat.pow 5 k := Nat.mul_le_mul_right _ hscale
      _ = Nat.pow 10 k := hten
      _ ≤ Nat.pow 10 G * Nat.pow 10 22 := hgrid
      _ ≤ D * (Nat.pow 10 G * Nat.pow 10 22) := Nat.le_mul_of_pos_left _ hpos
      _ = D * Nat.pow 10 G * Nat.pow 10 22 := (Nat.mul_assoc _ _ _).symm
  · have hscale : Nat.pow 10 15 * Nat.pow 10 22 ≤ Nat.pow 2 123 := by decide
    have hgrid : Nat.pow 10 G ≤ Nat.pow 10 22 * Nat.pow 10 k := by
      rw [← pow_add, Nat.add_comm 22]
      exact Nat.pow_le_pow_right (by decide) hhigh
    have hdigits : 10 ^ 15 = Nat.pow 10 15 := by decide
    rw [hdigits] at hD
    calc D * Nat.pow 10 G < Nat.pow 10 15 * Nat.pow 10 G :=
          Nat.mul_lt_mul_of_pos_right hD (ten_pow_pos G)
      _ ≤ Nat.pow 10 15 * (Nat.pow 10 22 * Nat.pow 10 k) := Nat.mul_le_mul_left _ hgrid
      _ = Nat.pow 10 15 * Nat.pow 10 22 * Nat.pow 10 k := (Nat.mul_assoc _ _ _).symm
      _ ≤ Nat.pow 2 123 * Nat.pow 10 k := Nat.mul_le_mul_right _ hscale
      _ = Nat.pow 2 123 * Nat.pow 2 k * Nat.pow 5 k := by
        rw [← hten]
        ring
      _ = Nat.pow 2 (123 + k) * Nat.pow 5 k := by rw [pow_add]

/-- What is rounded to a number lies next to it, whichever grid it is on. -/
theorem grid_error (hfinite : m ≠ infinity) (hnormal : 0x10000000000000 ≤ m.units) {d g : Nat}
    (h : ofGrid d g = m) :
    0x1FFFFFFFFFFFFF * m.finest ≤ 0x20000000000000 * (d * Nat.pow 10 g) ∧
      0x20000000000000 * (d * Nat.pow 10 g) ≤ 0x20000000000001 * m.finest := by
  obtain ⟨k, -, -, hfinest, hgrid⟩ := exists_grid_exponent
  rw [hgrid] at h
  subst h
  have herror := nearest_error (five_pow_pos k) hfinite hnormal
  rw [hfinest]
  generalize (nearest (d * Nat.pow 10 g) (Nat.pow 5 k)).units = units at herror ⊢
  have habs : |0x20000000000000 * ((units : ℤ) * (Nat.pow 5 k : ℕ) - (d * Nat.pow 10 g : ℕ))| ≤
      (units : ℤ) * (Nat.pow 5 k : ℕ) := by
    rw [abs_mul]
    exact herror
  rw [← Nat.cast_mul] at habs
  generalize units * Nat.pow 5 k = finest at habs ⊢
  generalize d * Nat.pow 10 g = multiple at habs ⊢
  obtain ⟨hlow, hhigh⟩ := abs_le.1 habs
  omega

section Grid

variable (hfinite : m ≠ infinity) (hnormal : 0x10000000000000 ≤ m.units) (h : ofGrid D G = m)
  (hD : D < 10 ^ 15)
include hfinite hnormal h hD

/-- On a grid and all coarser ones there is only one multiple of at most 15 digits that is rounded
to a number. -/
theorem eq_of_ofGrid {d g : Nat} (h' : ofGrid d g = m) (hle : G ≤ g) :
    d * Nat.pow 10 g = D * Nat.pow 10 G := by
  obtain ⟨hlow, hhigh⟩ := grid_error hfinite hnormal h
  obtain ⟨hlow', hhigh'⟩ := grid_error hfinite hnormal h'
  have hmultiple : d * Nat.pow 10 g = d * Nat.pow 10 (g - G) * Nat.pow 10 G := by
    rw [Nat.mul_assoc, ← pow_add, Nat.sub_add_cancel hle]
  rw [hmultiple] at hlow' hhigh' ⊢
  generalize d * Nat.pow 10 (g - G) = n at hlow' hhigh' ⊢
  have hstep := ten_pow_pos G
  have hbound : D * Nat.pow 10 G < 10 ^ 15 * Nat.pow 10 G :=
    Nat.mul_lt_mul_of_pos_right hD hstep
  have habove : n * Nat.pow 10 G < (D + 1) * Nat.pow 10 G := by
    rw [Nat.add_mul, Nat.one_mul]
    omega
  have hbelow : D * Nat.pow 10 G < (n + 1) * Nat.pow 10 G := by
    rw [Nat.add_mul, Nat.one_mul]
    omega
  have hsame : n = D := by
    have := Nat.lt_of_mul_lt_mul_right habove
    have := Nat.lt_of_mul_lt_mul_right hbelow
    omega
  rw [hsame]

/-- The search does not miss the grid that was read, and finds nothing else on a coarser one. -/
theorem coarsest_eq :
    (coarsest m.finest m.onGrid? (Nat.toDigits 10 m.finest).length).1 *
        Nat.pow 10 (coarsest m.finest m.onGrid? (Nat.toDigits 10 m.finest).length).2 =
      D * Nat.pow 10 G := by
  have hzero : m ≠ zero := by
    rintro rfl
    rw [units_zero] at hnormal
    omega
  have hread : ofDecimal D ((G : Int) - 1074) = m := by rw [ofDecimal_grid, h]
  have hle := (isCoarsest_found hfinite hzero rfl).le hread
  exact eq_of_ofGrid hfinite hnormal h hD (ofGrid_coarsest m _) (by omega)

end Grid

/-! ## Decimals of few digits -/

section Decimals

variable {e : Int} (hpos : 0 < D) (hD : D < 10 ^ 15) (hlow : -22 ≤ e) (hhigh : e ≤ 22)
include hpos hD hlow hhigh

/-- Such a decimal stands on a grid, and is rounded to a number that is neither subnormal nor
infinite. -/
theorem exists_grid : ∃ G : Nat, e = (G : Int) - 1074 ∧ ofGrid D G = ofDecimal D e ∧
    ofDecimal D e ≠ infinity ∧ 0x10000000000000 ≤ (ofDecimal D e).units := by
  obtain ⟨k, hk, -, -, hgrid⟩ := exists_grid_exponent
  obtain ⟨G, hG⟩ : ∃ G : Nat, e = (G : Int) - 1074 := ⟨(e + 1074).toNat, by omega⟩
  have hbounds := bounds_grid (k := k) (G := G) hpos hD (by omega) (by omega) (by omega)
  have hvalue : ofGrid D G = ofDecimal D e := by rw [hG, ofDecimal_grid]
  have hfinite : ofDecimal D e ≠ infinity := by
    rw [← hvalue, hgrid]
    exact nearest_ne_infinity (by omega) (five_pow_pos k) hbounds.2
  refine ⟨G, hG, hvalue, hfinite, ?_⟩
  rw [← hvalue, hgrid] at hfinite ⊢
  exact le_units_nearest (five_pow_pos k) hfinite hbounds.1

omit hpos in
theorem ofDecimal_ne_infinity : ofDecimal D e ≠ infinity := by
  rcases Nat.eq_zero_or_pos D with rfl | hpos
  · simp [ofDecimal, zero, infinity]
  · obtain ⟨G, -, -, hfinite, -⟩ := exists_grid hpos hD hlow hhigh
    exact hfinite

theorem ofDecimal_ne_zero : ofDecimal D e ≠ zero := by
  obtain ⟨G, -, -, -, hnormal⟩ := exists_grid hpos hD hlow hhigh
  intro hzero
  rw [hzero, units_zero] at hnormal
  omega

/-- The shortest decimal of what a decimal of at most 15 digits is rounded to is that decimal. -/
theorem value_shortest_ofDecimal : (ofDecimal D e).shortest.value = D * 10 ^ e := by
  obtain ⟨G, hG, hvalue, hfinite, hnormal⟩ := exists_grid hpos hD hlow hhigh
  have hfound := coarsest_eq hfinite hnormal hvalue hD
  unfold shortest
  dsimp only
  rw [Decimal.value_ofScaled]
  generalize coarsest (ofDecimal D e).finest (ofDecimal D e).onGrid?
    (Nat.toDigits 10 (ofDecimal D e).finest).length = found at hfound ⊢
  have hcast : ((found.1 * Nat.pow 10 found.2 : ℕ) : ℚ) = (D * Nat.pow 10 G : ℕ) :=
    congrArg _ hfound
  have hleft := mul_ten_pow found.1 found.2 ((found.2 : Int) - 1074)
  have hright := mul_ten_pow D G ((G : Int) - 1074)
  rw [sub_sub_cancel_left] at hleft hright
  rw [hG, ← hleft, ← hright, hcast]

end Decimals

end Magnitude
end InputDeck
