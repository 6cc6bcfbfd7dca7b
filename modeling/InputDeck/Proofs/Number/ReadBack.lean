/-
Decimals read back, in every layout, as the number which they stand for.

A decimal stands for `coefficient * 10 ^ exponent`, rounded once.  The shortest decimal of a number
stands for that number: on every grid the search keeps only what reads back, and on the finest grid
the number itself is found.
-/
import InputDeck.Number.Shortest
import InputDeck.Proofs.Number.Layout
import InputDeck.Proofs.Number.Rounding

namespace InputDeck

open Number

namespace Decimal

/-- The number that a decimal stands for. -/
def magnitude (d : Decimal) : Magnitude := Magnitude.ofDecimal d.coefficient d.exponent

theorem readMagnitude_pointed {d : Decimal} (hd : IsRow d.digits) :
    readMagnitude d.pointed = some d.magnitude := by
  obtain ⟨n, hread⟩ := readDecimal_pointed hd
  rw [readMagnitude_eq, hread, Option.map_some, Magnitude.ofDecimal_mul_pow]
  rfl

theorem readMagnitude_scientific {d : Decimal} (hd : IsRow d.digits) :
    readMagnitude d.scientific = some d.magnitude := by
  rw [readMagnitude_eq, readDecimal_scientific hd]
  rfl

/-! ## Digits without the zeros at their end -/

theorem exists_dropFinalZeros_append (digits : List Char) :
    ∃ n, digits = dropFinalZeros digits ++ List.replicate n '0' := by
  refine ⟨(digits.reverse.takeWhile (· == '0')).length, ?_⟩
  have hzeros : digits.reverse.takeWhile (· == '0') =
      List.replicate (digits.reverse.takeWhile (· == '0')).length '0' := by
    rw [List.eq_replicate_iff]
    refine ⟨rfl, fun c hc => ?_⟩
    simpa using List.all_eq_true.1 List.all_takeWhile c hc
  have hcut := List.takeWhile_append_dropWhile (p := (· == '0')) (l := digits.reverse)
  have hrev := congrArg List.reverse hcut
  rw [List.reverse_append, List.reverse_reverse, hzeros, List.reverse_replicate] at hrev
  exact hrev.symm

theorem isRow_ofScaled {c : Nat} (hc : c ≠ 0) (e : Int) : IsRow (ofScaled c e).digits := by
  obtain ⟨n, hn⟩ := exists_dropFinalZeros_append (Nat.toDigits 10 c)
  refine ⟨fun hnil => hc ?_, fun c' hc' => ?_⟩
  · have hvalue := ofDigits_toDigits c
    rw [hn, ofDigits_append_zeros, show dropFinalZeros (Nat.toDigits 10 c) = [] from hnil] at hvalue
    simpa [ofDigits] using hvalue.symm
  · exact (isRow_toDigits c).isDigit c' (by rw [hn]; exact List.mem_append_left _ hc')

/-- The exponent makes up for the zeros that are dropped. -/
theorem exists_ofScaled (c : Nat) (e : Int) : ∃ n : Nat,
    c = (ofScaled c e).coefficient * Nat.pow 10 n ∧ e = (ofScaled c e).exponent - n := by
  obtain ⟨n, hn⟩ := exists_dropFinalZeros_append (Nat.toDigits 10 c)
  have hlength := congrArg List.length hn
  rw [List.length_append, List.length_replicate] at hlength
  have hdigits := ofDigits_toDigits c
  rw [hn, ofDigits_append_zeros] at hdigits
  refine ⟨n, hdigits.symm, ?_⟩
  simp only [exponent, ofScaled]
  omega

theorem magnitude_ofScaled (c : Nat) (e : Int) :
    (ofScaled c e).magnitude = Magnitude.ofDecimal c e := by
  obtain ⟨n, hvalue, hexponent⟩ := exists_ofScaled c e
  have hmul := Magnitude.ofDecimal_mul_pow (ofScaled c e).coefficient n (ofScaled c e).exponent
  rw [← hvalue, ← hexponent] at hmul
  exact hmul.symm

end Decimal

/-! ## The shortest decimal -/

namespace Magnitude

theorem exists_grid_exponent : ∃ k, k = 1074 ∧ oneUnits = Nat.pow 2 k ∧
    (∀ m : Magnitude, m.finest = m.units * Nat.pow 5 k) ∧
    ∀ d grid, ofGrid d grid = nearest (d * Nat.pow 10 grid) (Nat.pow 5 k) :=
  ⟨1074, rfl, by decide +kernel, fun m => by simp only [finest],
    fun d grid => by simp only [ofGrid]⟩

theorem five_pow_pos (n : Nat) : 0 < Nat.pow 5 n := Nat.pow_pos (by decide)

theorem ofGrid_finest (m : Magnitude) : ofGrid m.finest 0 = m := by
  obtain ⟨k, _, _, hfinest, hgrid⟩ := exists_grid_exponent
  have hone : Nat.pow 10 0 = 1 := rfl
  have hunits := nearest_mul_right (five_pow_pos k) m.units 1
  rw [Nat.one_mul, nearest_units] at hunits
  rw [hgrid, hfinest, hone, Nat.mul_one, hunits]

theorem ofGrid_zero (grid : Nat) : ofGrid 0 grid = zero := by
  obtain ⟨k, _, _, _, hgrid⟩ := exists_grid_exponent
  rw [hgrid, Nat.zero_mul]
  exact nearest_zero (five_pow_pos k)

theorem ofGrid_of_onGrid? {m : Magnitude} {d grid : Nat} (h : m.onGrid? grid = some d) :
    ofGrid d grid = m := by
  have hfound := List.find?_some h
  exact eq_of_beq hfound

/-- What holds of the finest grid and of all that is found holds of the coarsest grid. -/
theorem coarsest_induction (p : Nat → Nat → Prop) {finest : Nat} {search : Nat → Option Nat}
    (hfinest : p finest 0) (hsearch : ∀ grid d, search grid = some d → p d grid) (grid : Nat) :
    p (coarsest finest search grid).1 (coarsest finest search grid).2 := by
  induction grid with
  | zero => exact hfinest
  | succ grid ih =>
      rw [coarsest]
      cases h : search (grid + 1) with
      | some d => exact hsearch (grid + 1) d h
      | none => exact ih

/-- The search ends no later than on a grid where something is found. -/
theorem le_coarsest {finest d G : Nat} {search : Nat → Option Nat} (h : search G = some d)
    {grid : Nat} (hle : G ≤ grid) : G ≤ (coarsest finest search grid).2 := by
  induction grid with
  | zero => exact hle
  | succ grid ih =>
      rw [coarsest]
      cases hgrid : search (grid + 1) with
      | some found => exact hle
      | none =>
          have hne : G ≠ grid + 1 := by
            rintro rfl
            simp [hgrid] at h
          exact ih (by omega)

theorem ofGrid_coarsest (m : Magnitude) (grid : Nat) :
    ofGrid (coarsest m.finest m.onGrid? grid).1 (coarsest m.finest m.onGrid? grid).2 = m :=
  coarsest_induction (fun d grid => ofGrid d grid = m) (ofGrid_finest m)
    (fun _ _ h => ofGrid_of_onGrid? h) grid

/-- The grids are counted from 10^-1074 on. -/
theorem ofDecimal_grid (d grid : Nat) : ofDecimal d ((grid : Int) - 1074) = ofGrid d grid := by
  obtain ⟨k, hk, hunits, _, hgrid⟩ := exists_grid_exponent
  rw [ofDecimal_eq_nearest, hgrid]
  apply nearest_congr (ten_pow_pos _) (five_pow_pos _)
  have hexponents : ((grid : Int) - 1074).toNat + k = grid + (-((grid : Int) - 1074)).toNat := by
    omega
  have hten : oneUnits * Nat.pow 5 k = Nat.pow 10 k := by
    rw [hunits]
    exact (Nat.mul_pow 2 5 k).symm
  calc d * Nat.pow 10 ((grid : Int) - 1074).toNat * oneUnits * Nat.pow 5 k
      = d * (Nat.pow 10 ((grid : Int) - 1074).toNat * Nat.pow 10 k) := by
        rw [← hten]
        ring
    _ = d * (Nat.pow 10 grid * Nat.pow 10 (-((grid : Int) - 1074)).toNat) := by
        rw [← pow_add, hexponents, pow_add]
    _ = d * Nat.pow 10 grid * Nat.pow 10 (-((grid : Int) - 1074)).toNat :=
        (Nat.mul_assoc _ _ _).symm

theorem isRow_shortest {m : Magnitude} (hm : m ≠ zero) : IsRow m.shortest.digits := by
  apply Decimal.isRow_ofScaled
  intro hfound
  apply hm
  have hgrid := ofGrid_coarsest m (Nat.toDigits 10 m.finest).length
  rw [hfound, ofGrid_zero] at hgrid
  exact hgrid.symm

/-- The shortest decimal reads back. -/
theorem magnitude_shortest (m : Magnitude) : m.shortest.magnitude = m := by
  simp only [shortest, Decimal.magnitude_ofScaled, ofDecimal_grid, ofGrid_coarsest]

end Magnitude
end InputDeck
