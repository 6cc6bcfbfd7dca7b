/-
Reals that become whole numbers.

A real becomes a whole number of 64 bits if its exact value is one (`ofBinary64_eq_integer_iff`), and
stays the real it is otherwise (`ofBinary64_eq_real_iff`).  The two ends of the range are compared as
reals.  The lower one is a real itself.  The upper one is not, and is rounded to the first number
behind the range, so the numbers before that are all that fit, and no number that passes the test is
cut off at an end.
-/
import InputDeck.Proofs.Number.Integers
import InputDeck.Proofs.Number.Order

namespace InputDeck

/-! ## The order of reals is that of their values -/

namespace Magnitude

variable {a b m : Magnitude}

theorem le_iff_units_le : a ≤ b ↔ a.units ≤ b.units := ⟨units_le_of_le, le_of_units_le⟩

theorem le_iff_value_le : a ≤ b ↔ a.value ≤ b.value := by
  have hone : (0 : ℚ) < oneUnits := by exact_mod_cast oneUnits_pos
  rw [le_iff_units_le, value, value, div_le_div_iff_of_pos_right hone, Nat.cast_le]

theorem rank_lt_iff : a.rank < b.rank ↔ a.value < b.value := by
  rw [← not_le, ← not_le, ← le_iff_value_le]
  rfl

theorem value_nonpos_iff : m.value ≤ 0 ↔ m.rank ≤ 0 := by
  rw [← value_zero, ← le_iff_value_le]
  rfl

theorem value_eq_natCast_iff {k : ℕ} : m.value = k ↔ m.units = k * oneUnits := by
  have hone : (oneUnits : ℚ) ≠ 0 := Nat.cast_ne_zero.2 oneUnits_pos.ne'
  rw [value, div_eq_iff hone, ← Nat.cast_mul, Nat.cast_inj]

end Magnitude

theorem Number.cast_signed (negative : Bool) (k : ℕ) :
    ((signed negative k : ℤ) : ℚ) = sign negative * k := by
  cases negative <;> simp [signed, sign]

namespace Binary64

variable {x y : Binary64} {v w : ℚ}

theorem le_iff_value_le (hx : x.value? = some v) (hy : y.value? = some w) :
    x.le y = true ↔ v ≤ w := by
  cases x with
  | unordered negative payload => simp [value?] at hx
  | signed negative m =>
  cases y with
  | unordered negative' payload => simp [value?] at hy
  | signed negative' m' =>
  obtain ⟨-, rfl⟩ := value?_signed.1 hx
  obtain ⟨-, rfl⟩ := value?_signed.1 hy
  have hle : m.rank ≤ m'.rank ↔ m.value ≤ m'.value := Magnitude.le_iff_value_le
  have hge : m'.rank ≤ m.rank ↔ m'.value ≤ m.value := Magnitude.le_iff_value_le
  have hzero := m.value_nonpos_iff
  have hzero' := m'.value_nonpos_iff
  have hm := m.value_nonneg
  have hm' := m'.value_nonneg
  rw [le, place?, place?]
  dsimp only
  rw [decide_eq_true_iff]
  cases negative <;> cases negative' <;>
    simp only [Number.sign, if_true, if_false, Bool.false_eq_true, one_mul, neg_one_mul,
      neg_le_neg_iff, Nat.cast_le]
  · exact hle
  · constructor
    · intro h
      have hboth : m.rank ≤ 0 ∧ m'.rank ≤ 0 := ⟨by omega, by omega⟩
      linarith [hzero.2 hboth.1, hzero'.2 hboth.2]
    · intro h
      have hboth : m.rank ≤ 0 ∧ m'.rank ≤ 0 :=
        ⟨hzero.1 (by linarith), hzero'.1 (by linarith)⟩
      omega
  · exact iff_of_true (by omega) (by linarith)
  · exact hge

theorem lt_iff_value_lt (hx : x.value? = some v) (hy : y.value? = some w) :
    x.lt y = true ↔ v < w := by
  have hle := le_iff_value_le hy hx
  rw [← not_le, ← hle]
  cases x with
  | unordered negative payload => simp [value?] at hx
  | signed negative m =>
  cases y with
  | unordered negative' payload => simp [value?] at hy
  | signed negative' m' => simp [lt, le, place?]

/-! ## The ends of the range -/

/-- The first whole number that is too large for 64 bits. -/
def tooLarge : Magnitude := ⟨0x43E0000000000000, by decide⟩

theorem value_tooLarge : tooLarge.value = 0x8000000000000000 := by
  have hunits : tooLarge.units = 0x8000000000000000 * Magnitude.oneUnits := by decide +kernel
  exact_mod_cast Magnitude.value_eq_natCast_iff.2 hunits

theorem tooLarge_ne_infinity : tooLarge ≠ .infinity := by decide

theorem value?_tooLarge : (signed false tooLarge).value? = some 0x8000000000000000 := by
  rw [value?_signed, value_tooLarge]
  exact ⟨tooLarge_ne_infinity, by simp [Number.sign]⟩

theorem value?_minValue : (ofInt64 .minValue).value? = some (-0x8000000000000000) := by
  have hend : ofInt64 .minValue = .signed true tooLarge := by decide +kernel
  rw [hend, value?_signed, value_tooLarge]
  exact ⟨tooLarge_ne_infinity, by simp [Number.sign]⟩

/-- The greatest whole number of 64 bits is rounded to the one behind it. -/
theorem value?_maxValue : (ofInt64 .maxValue).value? = some 0x8000000000000000 := by
  have hend : ofInt64 .maxValue = .signed false tooLarge := by decide +kernel
  rw [hend, value?_tooLarge]

/-! ## Whole numbers -/

theorem exists_value? (h : x.isFinite = true) : ∃ v, x.value? = some v := by
  cases x with
  | unordered negative payload => simp [isFinite] at h
  | signed negative m => exact ⟨_, value?_signed.2 ⟨(Magnitude.isFinite_iff m).1 h, rfl⟩⟩

theorem isFinite_of_value? (h : x.value? = some v) : x.isFinite = true := by
  cases x with
  | unordered negative payload => simp [value?] at h
  | signed negative m => exact (Magnitude.isFinite_iff m).2 (value?_signed.1 h).1

theorem isWhole_signed {negative : Bool} {m : Magnitude} :
    (signed negative m).isWhole = true ↔ ∃ k : ℕ, m.value = k := by
  rw [isWhole, decide_eq_true_iff]
  simp only [Magnitude.value_eq_natCast_iff]
  constructor
  · intro hmod
    exact ⟨_, (Nat.div_mul_cancel (Nat.dvd_of_mod_eq_zero hmod)).symm⟩
  · rintro ⟨k, hunits⟩
    rw [hunits, Nat.mul_mod_left]

/-- A finite number is whole if its exact value is. -/
theorem isWhole_iff (h : x.value? = some v) : x.isWhole = true ↔ ∃ z : ℤ, v = z := by
  cases x with
  | unordered negative payload => simp [value?] at h
  | signed negative m =>
      obtain ⟨-, rfl⟩ := value?_signed.1 h
      rw [isWhole_signed]
      constructor
      · rintro ⟨k, hvalue⟩
        exact ⟨Number.signed negative k, by rw [Number.cast_signed, hvalue]⟩
      · rintro ⟨z, hz⟩
        refine ⟨z.natAbs, ?_⟩
        rw [Nat.cast_natAbs, Int.cast_abs, ← hz, abs_mul, Number.abs_sign, one_mul,
          abs_of_nonneg m.value_nonneg]

/-- A whole number in range is not changed by being cut off at the ends. -/
theorem toInt_toInt64 {z : ℤ} (h : x.value? = some (z : ℚ)) (hfits : Number.Fits64 z) :
    x.toInt64.toInt = z := by
  cases x with
  | unordered negative payload => simp [value?] at h
  | signed negative m =>
      obtain ⟨-, hvalue⟩ := value?_signed.1 h
      obtain ⟨k, hk⟩ := isWhole_signed.1 ((isWhole_iff h).2 ⟨z, rfl⟩)
      have hdiv : m.units / Magnitude.oneUnits = k := by
        rw [Magnitude.value_eq_natCast_iff.1 hk, Nat.mul_div_cancel _ Magnitude.oneUnits_pos]
      have hz : Number.signed negative k = z := by
        rw [hk, ← Number.cast_signed] at hvalue
        exact_mod_cast hvalue.symm
      have hcut : (signed negative m).toInt64 = .ofInt
          (max Int64.minValue.toInt (min Int64.maxValue.toInt (Number.signed negative k))) := by
        rw [toInt64, hdiv]
        rfl
      obtain ⟨hlow, hhigh⟩ := hfits
      have hmin : Int64.minValue.toInt = -0x8000000000000000 := by decide
      have hmax : Int64.maxValue.toInt = 0x7FFFFFFFFFFFFFFF := by decide
      have hinside : max Int64.minValue.toInt (min Int64.maxValue.toInt z) = z := by omega
      rw [hcut, hz, hinside]
      exact Int64.toInt_ofInt_of_le (by omega) (by omega)

end Binary64

namespace Scalar

variable {x : Binary64}

theorem ofBinary64_of_fits {z : ℤ} (h : x.value? = some (z : ℚ)) (hfits : Number.Fits64 z) :
    ofBinary64 x = .integer x.toInt64 := by
  have hfinite := Binary64.isFinite_of_value? h
  have hwhole := (Binary64.isWhole_iff h).2 ⟨z, rfl⟩
  have hlow := (Binary64.le_iff_value_le Binary64.value?_minValue h).2 (by exact_mod_cast hfits.1)
  have hhigh := (Binary64.lt_iff_value_lt h Binary64.value?_maxValue).2 (by exact_mod_cast hfits.2)
  rw [ofBinary64, hfinite, hwhole, hlow, hhigh]
  rfl

theorem ofBinary64_of_not_fits (h : ∀ z : ℤ, x.value? = some (z : ℚ) → ¬Number.Fits64 z) :
    ofBinary64 x = .real x := by
  rw [ofBinary64, if_neg]
  simp only [Bool.and_eq_true, not_and]
  rintro ⟨⟨hfinite, hwhole⟩, hlow⟩ hhigh
  obtain ⟨v, hv⟩ := Binary64.exists_value? hfinite
  obtain ⟨z, rfl⟩ := (Binary64.isWhole_iff hv).1 hwhole
  rw [Binary64.le_iff_value_le Binary64.value?_minValue hv] at hlow
  rw [Binary64.lt_iff_value_lt hv Binary64.value?_maxValue] at hhigh
  exact h z hv ⟨by exact_mod_cast hlow, by exact_mod_cast hhigh⟩

theorem ofBinary64_eq_integer_iff {n : Int64} :
    ofBinary64 x = .integer n ↔ x.value? = some (n.toInt : ℚ) := by
  constructor
  · intro h
    by_cases hwhole : ∃ z : ℤ, x.value? = some (z : ℚ) ∧ Number.Fits64 z
    · obtain ⟨z, hz, hfits⟩ := hwhole
      rw [ofBinary64_of_fits hz hfits] at h
      rw [← Scalar.integer.inj h, Binary64.toInt_toInt64 hz hfits, hz]
    · rw [ofBinary64_of_not_fits fun z hz hfits => hwhole ⟨z, hz, hfits⟩] at h
      simp at h
  · intro h
    have hfits := Number.fits64_toInt n
    rw [ofBinary64_of_fits h hfits, ← Int64.toInt_inj.1 (Binary64.toInt_toInt64 h hfits)]

theorem ofBinary64_eq_real_iff :
    ofBinary64 x = .real x ↔ ∀ n : Int64, x.value? ≠ some (n.toInt : ℚ) := by
  simp only [ne_eq, ← ofBinary64_eq_integer_iff]
  constructor
  · intro h n hn
    simp [h] at hn
  · intro h
    rw [ofBinary64] at h ⊢
    split_ifs at h ⊢
    · exact absurd rfl (h _)
    · rfl

end Scalar

end InputDeck
