/-
Exact values of numbers and of what is written.

A finite number is a rational one, and so is what a text writes with digits (`readExact`), whatever
it is rounded to when it is read.  `IsNearest` is rounding to the nearest number with ties to even,
said of these values; `ofDecimal` does that (`isNearest_ofDecimal`).  The text of a number writes its
shortest decimal, with its sign (`readExact_text`).
-/
import InputDeck.Proofs.Number.Nearest
import InputDeck.Proofs.Scalar.RoundTrip
import Mathlib.Algebra.Order.Field.Power
import Mathlib.Algebra.Order.Field.Rat
import Mathlib.Tactic.FieldSimp
import Mathlib.Tactic.Positivity

namespace InputDeck

namespace Number

/-- The factor that a sign stands for. -/
def sign (negative : Bool) : ℚ := if negative then -1 else 1

@[simp]
theorem abs_sign (negative : Bool) : |sign negative| = 1 := by
  cases negative <;> simp [sign]

/-- The sign of a number written with digits, and the exact value behind it. -/
def readExact (cs : List Char) : Option (Bool × ℚ) :=
  let (negative, body) := splitSign cs
  (readDecimal body).map fun d => (negative, d.1 * 10 ^ d.2)

end Number

namespace Decimal

/-- The exact value of a decimal. -/
def value (d : Decimal) : ℚ := d.coefficient * 10 ^ d.exponent

end Decimal

namespace Magnitude

/-- The exact value of a finite number. -/
def value (m : Magnitude) : ℚ := m.units / oneUnits

theorem value_nonneg (m : Magnitude) : 0 ≤ m.value := by
  unfold value
  positivity

theorem oneUnits_pos : 0 < oneUnits := by
  obtain ⟨_, _, hpos, _⟩ := exists_small
  exact hpos

theorem units_zero : zero.units = 0 := rfl

theorem value_zero : zero.value = 0 := by
  rw [value, units_zero, Nat.cast_zero, zero_div]

theorem cast_ten_pow (n : Nat) : ((Nat.pow 10 n : ℕ) : ℚ) = 10 ^ n := by
  have hpow : Nat.pow 10 n = 10 ^ n := rfl
  rw [hpow]
  push_cast
  rfl

theorem isFinite_iff (m : Magnitude) : m.isFinite = true ↔ m ≠ infinity := by
  have hle := m.rank_le
  unfold isFinite
  rw [decide_eq_true_iff]
  constructor
  · rintro hlt rfl
    exact Nat.lt_irrefl _ hlt
  · intro hne
    refine Nat.lt_of_le_of_ne hle fun heq => hne ?_
    obtain ⟨rank, hrank⟩ := m
    obtain rfl : rank = 0x7FF0000000000000 := heq
    rfl

theorem ten_zpow_mul (e : Int) :
    (10 : ℚ) ^ e * (Nat.pow 10 (-e).toNat : ℕ) = (Nat.pow 10 e.toNat : ℕ) := by
  have hexponents : e + ((-e).toNat : ℤ) = (e.toNat : ℤ) := by omega
  rw [cast_ten_pow, cast_ten_pow, ← zpow_natCast, ← zpow_natCast, ← zpow_add₀ (by norm_num),
    hexponents]

/-- Distances from a decimal, in units of the fraction it is rounded as. -/
theorem value_sub_decimal (m : Magnitude) (c : Nat) (e : Int) :
    |m.value - c * 10 ^ e| * ((Nat.pow 10 (-e).toNat : ℕ) * oneUnits) =
      (|(m.units : ℤ) * (Nat.pow 10 (-e).toNat : ℕ) -
        (c * Nat.pow 10 e.toNat * oneUnits : ℕ)| : ℤ) := by
  have hunits : (0 : ℚ) < oneUnits := by exact_mod_cast oneUnits_pos
  have hten := ten_zpow_mul e
  unfold value
  generalize oneUnits = u at hunits ⊢
  generalize Nat.pow 10 (-e).toNat = low at hten ⊢
  generalize Nat.pow 10 e.toNat = high at hten ⊢
  have hfactor : (0 : ℚ) ≤ low * u := by positivity
  have hvalue : ((m.units : ℚ) / u - c * 10 ^ e) * (low * u) = m.units * low - c * high * u := by
    rw [← hten]
    field_simp
  calc |(m.units : ℚ) / u - c * 10 ^ e| * (low * u)
      = |((m.units : ℚ) / u - c * 10 ^ e) * (low * u)| := by rw [abs_mul, abs_of_nonneg hfactor]
    _ = |(m.units : ℚ) * low - c * high * u| := by rw [hvalue]
    _ = (|(m.units : ℤ) * low - (c * high * u : ℕ)| : ℤ) := by
        push_cast
        rfl

/-- A decimal is rounded to a number to which none is closer, and none as close unless it is
even. -/
theorem ofDecimal_closest (c : Nat) (e : Int) (hfinite : ofDecimal c e ≠ infinity)
    (other : Magnitude) :
    |(ofDecimal c e).value - c * 10 ^ e| ≤ |other.value - c * 10 ^ e| ∧
      (|other.value - c * 10 ^ e| = |(ofDecimal c e).value - c * 10 ^ e| →
        other.value = (ofDecimal c e).value ∨ (ofDecimal c e).rank % 2 = 0) := by
  have hunits : (0 : ℚ) < oneUnits := by exact_mod_cast oneUnits_pos
  have hten : (0 : ℚ) < (Nat.pow 10 (-e).toNat : ℕ) := by exact_mod_cast ten_pow_pos _
  have hfactor : (0 : ℚ) < (Nat.pow 10 (-e).toNat : ℕ) * oneUnits := mul_pos hten hunits
  have hself := value_sub_decimal (ofDecimal c e) c e
  have hother := value_sub_decimal other c e
  rw [ofDecimal_eq_nearest] at hfinite hself ⊢
  obtain ⟨hle, htie⟩ := nearest_closest (ten_pow_pos (-e).toNat) hfinite other
  constructor
  · rw [← mul_le_mul_iff_of_pos_right hfactor, hself, hother]
    exact_mod_cast hle
  · intro h
    rw [← mul_left_inj' hfactor.ne', hself, hother] at h
    refine (htie (by exact_mod_cast h)).imp ?_ id
    intro hsame
    rw [value, value, hsame]

end Magnitude

namespace Binary64

/-- The exact value of a finite number. -/
def value? : Binary64 → Option ℚ
  | .signed negative m => if m.isFinite then some (Number.sign negative * m.value) else none
  | .unordered _ _ => none

/-- That a number is the nearest one to a value.  Of two that are equally near it is the one with
an even last place. -/
structure IsNearest (x : Binary64) (v : ℚ) : Prop where
  exists_value : ∃ r, x.value? = some r
  closest : ∀ {r s : ℚ} {y : Binary64}, x.value? = some r → y.value? = some s → |r - v| ≤ |s - v|
  even_of_tie : ∀ {r s : ℚ} {y : Binary64}, x.value? = some r → y.value? = some s →
    |s - v| = |r - v| → s ≠ r → x.toBits % 2 = 0

theorem value?_signed {negative : Bool} {m : Magnitude} {r : ℚ} :
    (signed negative m).value? = some r ↔
      m ≠ .infinity ∧ r = Number.sign negative * m.value := by
  rw [value?, ← Magnitude.isFinite_iff]
  by_cases h : m.isFinite = true
  · simp [h, eq_comm]
  · simp [h]

theorem toBits_mod_two (negative : Bool) (m : Magnitude) :
    (signed negative m).toBits % 2 = m.rank % 2 := by
  cases negative
  · exact congrArg (· % 2) (Nat.zero_add m.rank)
  · show (0x8000000000000000 + m.rank) % 2 = m.rank % 2
    omega

/-- For every number there is one with the wanted sign that is as close to a value of that sign. -/
theorem exists_of_sign (negative : Bool) {w s : ℚ} (hw : 0 ≤ w) {y : Binary64}
    (hy : y.value? = some s) :
    ∃ other : Magnitude, |other.value - w| ≤ |s - Number.sign negative * w| ∧
      (|s - Number.sign negative * w| = |other.value - w| →
        s = Number.sign negative * other.value) := by
  cases y with
  | unordered negative' payload => simp [value?] at hy
  | signed negative' m =>
      obtain ⟨-, rfl⟩ := value?_signed.1 hy
      by_cases hsign : negative' = negative
      · subst hsign
        refine ⟨m, ?_, fun _ => rfl⟩
        rw [← mul_sub, abs_mul, Number.abs_sign, one_mul]
      · have hm := m.value_nonneg
        have hopposite : Number.sign negative' = -Number.sign negative := by
          cases negative <;> cases negative' <;> simp_all [Number.sign]
        have hfar : |Number.sign negative' * m.value - Number.sign negative * w| = m.value + w := by
          rw [hopposite, ← abs_of_nonneg (add_nonneg hm hw), ← one_mul |m.value + w|,
            ← Number.abs_sign negative, ← abs_mul, ← abs_neg]
          ring_nf
        refine ⟨.zero, ?_, ?_⟩
        · rw [hfar, Magnitude.value_zero, zero_sub, abs_neg, abs_of_nonneg hw]
          linarith
        · rw [hfar, Magnitude.value_zero, zero_sub, abs_neg, abs_of_nonneg hw]
          intro h
          have hzero : m.value = 0 := by linarith
          rw [hzero, mul_zero, mul_zero]

theorem isNearest_ofDecimal (negative : Bool) (c : Nat) (e : Int)
    (hfinite : Magnitude.ofDecimal c e ≠ .infinity) :
    IsNearest (.signed negative (.ofDecimal c e)) (Number.sign negative * (c * 10 ^ e)) := by
  have hw : (0 : ℚ) ≤ c * 10 ^ e := by positivity
  have hself : |Number.sign negative * (Magnitude.ofDecimal c e).value -
      Number.sign negative * (c * 10 ^ e)| = |(Magnitude.ofDecimal c e).value - c * 10 ^ e| := by
    rw [← mul_sub, abs_mul, Number.abs_sign, one_mul]
  refine ⟨⟨_, value?_signed.2 ⟨hfinite, rfl⟩⟩, ?_, ?_⟩
  · intro r s y hx hy
    obtain ⟨-, rfl⟩ := value?_signed.1 hx
    obtain ⟨other, hclose, -⟩ := exists_of_sign negative hw hy
    rw [hself]
    exact (Magnitude.ofDecimal_closest c e hfinite other).1.trans hclose
  · intro r s y hx hy htie hne
    obtain ⟨-, rfl⟩ := value?_signed.1 hx
    obtain ⟨other, hclose, hvalue⟩ := exists_of_sign negative hw hy
    obtain ⟨hle, heven⟩ := Magnitude.ofDecimal_closest c e hfinite other
    rw [hself] at htie
    have hsame := le_antisymm (hclose.trans_eq htie) hle
    rcases heven hsame with hother | heven
    · exact absurd (hother ▸ hvalue (htie.trans hsame.symm)) hne
    · rw [toBits_mod_two, heven]

end Binary64

/-! ## Texts -/

/-- Zeros at the end of a coefficient may be written out or not. -/
theorem mul_ten_pow (c n : Nat) (e : Int) :
    ((c * Nat.pow 10 n : ℕ) : ℚ) * 10 ^ (e - n) = c * 10 ^ e := by
  rw [Nat.cast_mul, Magnitude.cast_ten_pow, ← zpow_natCast, mul_assoc, ← zpow_add₀ (by norm_num),
    add_sub_cancel]

theorem Decimal.value_ofScaled (c : Nat) (e : Int) : (ofScaled c e).value = c * 10 ^ e := by
  obtain ⟨n, hvalue, hexponent⟩ := exists_ofScaled c e
  have hmul := mul_ten_pow (ofScaled c e).coefficient n (ofScaled c e).exponent
  rw [← hvalue, ← hexponent] at hmul
  exact hmul.symm

/-- Every finite number but zero is written as its shortest decimal. -/
theorem Magnitude.exists_readDecimal_text {m : Magnitude} (hm : m ≠ infinity) (hzero : m ≠ zero) :
    ∃ c e, Number.readDecimal m.text = some (c, e) ∧ (c : ℚ) * 10 ^ e = m.shortest.value := by
  have hrow := isRow_shortest hzero
  unfold text
  rw [if_neg hm, if_neg hzero]
  split
  · exact ⟨_, _, Decimal.readDecimal_scientific hrow, rfl⟩
  · obtain ⟨n, hread⟩ := Decimal.readDecimal_pointed hrow
    exact ⟨_, _, hread, mul_ten_pow _ n _⟩

theorem Number.readExact_text (negative : Bool) {m : Magnitude} (hm : m ≠ .infinity) :
    readExact (Scalar.text (.real (.signed negative m))) =
      some (negative, if m = .zero then 0 else m.shortest.value) := by
  have hsplit := splitSign_signText negative m.text m.text_ne_sign
  show readExact (signText negative ++ m.text) = _
  unfold readExact
  rw [hsplit]
  dsimp only
  by_cases hzero : m = .zero
  · have hread : readDecimal (Magnitude.text .zero) = some (0, -1) := rfl
    rw [if_pos hzero, hzero, hread, Option.map_some, Nat.cast_zero, zero_mul]
  · obtain ⟨c, e, hread, hvalue⟩ := Magnitude.exists_readDecimal_text hm hzero
    rw [if_neg hzero, hread, Option.map_some, hvalue]

end InputDeck
