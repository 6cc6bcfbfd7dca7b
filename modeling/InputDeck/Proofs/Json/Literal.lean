/-
Literals that are read as the nearest number.

The sign and the size of a literal are those that its text writes (`readExact_of_splitLiteral`).

The digits of a literal are kept as they are if they make up less than 64 bits.  With at most 15 of
them, zeros in front apart, and a power of ten from 10^-22 to 10^22 both are numbers of 53 binary
places, so only the one product or quotient is rounded, and that as the decimal the literal writes
(`scaled_eq`).  What such a literal stands for is the nearest number, and is written with the
literal's own value (`scalar?_of_isShort`).
-/
import InputDeck.Proofs.Json.LiteralText
import InputDeck.Proofs.Number.ShortDecimals
import InputDeck.Variables.Document

namespace InputDeck

/-! ## Exact operations -/

namespace Magnitude

variable {n m : Nat} {a b : Magnitude}

theorem units_ofNat (hn : n < 0x20000000000000) : (ofNat n).units = n * oneUnits := by
  obtain ⟨k, hk, hunits, -, -⟩ := exists_grid_exponent
  rw [ofNat, hunits]
  exact units_nearest_of_lt hn (by omega)

/-- Powers of ten are exact up to 10^22, where their odd part still has 53 binary places. -/
theorem units_ten_pow (hn : n ≤ 22) : (ofDecimal 1 n).units = Nat.pow 10 n * oneUnits := by
  obtain ⟨k, hk, hunits, -, -⟩ := exists_grid_exponent
  have hfive : Nat.pow 5 n < 0x20000000000000 :=
    calc Nat.pow 5 n ≤ Nat.pow 5 22 := Nat.pow_le_pow_right (by decide) hn
      _ < 0x20000000000000 := by decide
  have hten : Nat.pow 10 n * oneUnits = Nat.pow 5 n * Nat.pow 2 (n + k) := by
    have hsplit : Nat.pow 10 n = Nat.pow 5 n * Nat.pow 2 n := Nat.mul_pow 5 2 n
    rw [hsplit, hunits, Nat.mul_assoc, ← pow_add]
  have hpower : (-(n : Int)).toNat = 0 := by omega
  have hone : Nat.pow 10 0 = 1 := rfl
  rw [ofDecimal_eq_nearest, Int.toNat_natCast, hpower, hone, Nat.one_mul, hten]
  exact units_nearest_of_lt hfive (by omega)

theorem mul_eq_nearest (ha : a.units = n * oneUnits) (hb : b.units = m * oneUnits) :
    a.mul b = nearest (n * m * oneUnits) 1 := by
  rw [mul, ha, hb]
  apply nearest_congr oneUnits_pos Nat.one_pos
  ring

theorem div_eq_nearest (ha : a.units = n * oneUnits) (hb : b.units = m * oneUnits) (hm : 0 < m) :
    a.div b = nearest (n * oneUnits) m := by
  rw [div, ha, hb]
  apply nearest_congr (Nat.mul_pos hm oneUnits_pos) hm
  ring

end Magnitude

open Number (ofDigits signed)

namespace Json

namespace Significand

/-! ## Digits -/

theorem le_ofDigitChars (cs : List Char) (n : Nat) : n ≤ Nat.ofDigitChars 10 cs n := by
  induction cs generalizing n with
  | nil => exact Nat.le_refl n
  | cons c rest ih =>
      rw [Nat.ofDigitChars_cons]
      exact Nat.le_trans (by omega) (ih _)

theorem takeWhole_eq {cs : List Char} {n : Nat} (h : Nat.ofDigitChars 10 cs n < limit) :
    takeWhole n cs = ⟨Nat.ofDigitChars 10 cs n, 0⟩ := by
  induction cs generalizing n with
  | nil => rfl
  | cons c rest ih =>
      rw [Nat.ofDigitChars_cons, Nat.mul_comm] at h ⊢
      have hnext := Nat.lt_of_le_of_lt (le_ofDigitChars rest _) h
      rw [takeWhole, if_pos hnext, ih h]

theorem takeFraction_eq {cs : List Char} {s : Significand}
    (h : Nat.ofDigitChars 10 cs s.digits < limit) :
    takeFraction s cs = ⟨Nat.ofDigitChars 10 cs s.digits, s.exponent - cs.length⟩ := by
  induction cs generalizing s with
  | nil => simp [takeFraction]
  | cons c rest ih =>
      rw [Nat.ofDigitChars_cons, Nat.mul_comm] at h ⊢
      have hnext := Nat.lt_of_le_of_lt (le_ofDigitChars rest _) h
      have hlength : s.exponent - 1 - (rest.length : Int) = s.exponent - (c :: rest).length := by
        rw [List.length_cons]
        omega
      rw [takeFraction, if_pos hnext, ih h, hlength]

/-! ## Scaling -/

/-- Both the digits and the power of ten are exact, so there is one rounding. -/
theorem scaled_eq {D : Nat} {q : Int} (hD : D < 0x20000000000000) (hlow : -22 ≤ q) (hhigh : q ≤ 22)
    (hfinite : Magnitude.ofDecimal D q ≠ .infinity) : scaled ⟨D, q⟩ = some (.ofDecimal D q) := by
  have hdigits := Magnitude.units_ofNat hD
  have hnearest := Magnitude.ofDecimal_eq_nearest D q
  have hone : Nat.pow 10 0 = 1 := rfl
  unfold scaled
  cases q with
  | ofNat e =>
      have he : (e : Int) ≤ 22 := hhigh
      have hpower : (-Int.ofNat e).toNat = 0 := Int.toNat_neg_natCast e
      have hproduct : (Magnitude.ofNat D).mul (.ofDecimal 1 e) = .ofDecimal D (.ofNat e) := by
        rw [Magnitude.mul_eq_nearest hdigits (Magnitude.units_ten_pow (by omega)), hnearest, hpower,
          hone]
        rfl
      dsimp only
      rw [if_pos (by omega), hproduct, if_neg hfinite]
  | negSucc e =>
      have hzero : e / 308 = 0 := by omega
      have hrest : e % 308 + 1 = e + 1 := by omega
      have hpower : (-Int.negSucc e).toNat = e + 1 := rfl
      have hquotient : (Magnitude.ofNat D).div (.ofDecimal 1 (e + 1 : Nat)) =
          .ofDecimal D (.negSucc e) := by
        rw [Magnitude.div_eq_nearest hdigits (Magnitude.units_ten_pow (by omega))
          (Magnitude.ten_pow_pos _), hnearest, hpower, Int.toNat_negSucc, hone, Nat.mul_one]
      dsimp only
      rw [hzero, hrest, sink, hquotient]

end Significand

/-! ## Literals -/

/-- The exponent as it is written. -/
def ExponentPart.written (e : ExponentPart) : Int := signed e.negative (ofDigits e.digits)

namespace Literal

/-- The digits behind the point. -/
def fractionDigits (l : Literal) : List Char := l.fraction.getD []

/-- The whole number that all digits make up. -/
def coefficient (l : Literal) : Nat := ofDigits (l.whole ++ l.fractionDigits)

/-- The power of ten that the coefficient is to be multiplied by. -/
def power (l : Literal) : Int :=
  (l.exponent.map ExponentPart.written).getD 0 - l.fractionDigits.length

/-- The exact value of a literal but for its sign. -/
def size (l : Literal) : ℚ := l.coefficient * 10 ^ l.power

/-- That a literal has a point or an exponent, at most 15 digits behind its leading zeros, and a
power of ten from 10^-22 to 10^22. -/
structure IsShort (l : Literal) : Prop where
  not_whole : l.isWhole = false
  coefficient_lt : l.coefficient < 10 ^ 15
  le_power : -22 ≤ l.power
  power_le : l.power ≤ 22
  length_lt : l.fractionDigits.length < 10 ^ 9

variable {l : Literal}

/-! ## What a literal is written as -/

theorem readExponent_of_isExponent {exponent : Option ExponentPart} {mark : List Char}
    (h : IsExponent exponent mark) :
    Number.readExponent mark = some ((exponent.map ExponentPart.written).getD 0) := by
  cases h with
  | none => rfl
  | some hmark hsign hrow =>
      have hsplit := Token.splitSign_of_isSign hsign fun c hc =>
        hrow.ne_sign [] c (by rwa [List.append_nil])
      rw [Number.readExponent, if_pos hmark, Number.readInt, hsplit]
      dsimp only
      rw [if_pos hrow.isDigits]
      rfl

theorem readDecimal_of_isUnsigned {cs : List Char} (h : l.IsUnsigned cs) :
    Number.readDecimal cs = some (l.coefficient, l.power) := by
  cases h with
  | @parts negative whole point mark fraction exponent hwhole hfraction hexponent =>
      obtain ⟨hpoint, hmark⟩ := Token.endsRow_parts hfraction hexponent endsLiteral_nil
      rw [List.append_nil] at hpoint hmark
      have hread := readExponent_of_isExponent hexponent
      cases hfraction with
      | none =>
          have hpower := sub_zero ((exponent.map ExponentPart.written).getD 0)
          rw [Number.readDecimal_of_no_point hwhole.ne_nil
              (Number.takeWhile_isDigit_append hwhole.isDigit hpoint)
              (Number.dropWhile_isDigit_append hwhole.isDigit hpoint), List.nil_append, hread,
            Option.map_some, coefficient, power, fractionDigits, Option.getD_none, List.append_nil,
            List.length_nil, Int.natCast_zero, hpower]
          rintro behind rfl
          exact (hmark '.' rfl).2 rfl
      | some hrow =>
          rw [List.cons_append, Number.readDecimal_pointed hwhole.toIsRow hrow.isDigit
            fun c hc => (hmark c hc).1, hread, Option.map_some]
          rfl

/-- The sign and the size of a literal are those that its text writes. -/
theorem readExact_of_splitLiteral {cs : List Char} (h : Token.splitLiteral cs = some (l, [])) :
    Number.readExact cs = some (l.negative, l.size) := by
  obtain ⟨body, hbody, rfl⟩ := isText_of_splitLiteral h
  rw [List.append_nil]
  cases hbody with
  | @signed cs hcs =>
      have hsign : ∀ c, cs.head? = some c → c ≠ '-' ∧ c ≠ '+' := by
        obtain ⟨c, more, rfl, hc⟩ := hcs.exists_head
        intro c' hc'
        exact Option.some.inj hc' ▸ Number.ne_sign_of_isDigit hc
      rw [Number.readExact, Number.splitSign_signText _ _ hsign]
      dsimp only
      rw [readDecimal_of_isUnsigned hcs]
      rfl

/-! ## What a literal stands for -/

/-- The scalar that the number of a literal is taken for. -/
def scalar? (l : Literal) : Option Scalar := l.number?.map Variables.scalarOf

theorem scalar?_of_not_whole (h : l.isWhole = false) :
    l.scalar? = l.magnitude?.map fun m => .real (.signed l.negative m) := by
  have hwhole : l.whole? = none := by simp [whole?, h]
  rw [scalar?, number?, hwhole, Option.none_or, Option.map_map]
  rfl

theorem significand_eq (h : l.coefficient < Significand.limit) :
    l.significand = ⟨l.coefficient, -l.fractionDigits.length⟩ := by
  have htotal : Nat.ofDigitChars 10 l.fractionDigits (Nat.ofDigitChars 10 l.whole 0) =
      l.coefficient := by
    rw [coefficient, ofDigits, Nat.ofDigitChars_append]
  have hwhole := Nat.lt_of_le_of_lt (Significand.le_ofDigitChars l.fractionDigits _)
    (htotal.trans_lt h)
  rw [significand, Significand.takeWhole_eq hwhole]
  show Significand.takeFraction _ l.fractionDigits = _
  rw [Significand.takeFraction_eq (htotal.trans_lt h), htotal, zero_sub]

/-- With all digits kept and an exponent of 31 bits, what is scaled is what is written. -/
theorem magnitude?_eq_scaled (h : l.coefficient < Significand.limit)
    (hexponent : ∀ e, l.exponent = some e → ofDigits e.digits < 0x80000000) :
    l.magnitude? = Significand.scaled ⟨l.coefficient, l.power⟩ := by
  unfold magnitude?
  rw [significand_eq h]
  unfold power
  cases he : l.exponent with
  | none => rw [Option.map_none, Option.getD_none, zero_sub]
  | some e =>
      have hvalue : e.value? = some e.written := by
        rw [ExponentPart.value?, if_pos (hexponent e he)]
        rfl
      dsimp only
      rw [hvalue, Option.map_some, Option.getD_some]
      dsimp only
      rw [neg_add_eq_sub]

/-- The exponent is one of 31 bits, since the digits behind the point are not more than that. -/
theorem magnitude?_eq (h : l.IsShort) : l.magnitude? = some (.ofDecimal l.coefficient l.power) := by
  have hlow := h.le_power
  have hhigh := h.power_le
  have hlength := h.length_lt
  have hcoefficient := h.coefficient_lt
  have hlimit : 10 ^ 15 ≤ Significand.limit := by decide
  have hfinite := Magnitude.ofDecimal_ne_infinity hcoefficient hlow hhigh
  rw [magnitude?_eq_scaled (hcoefficient.trans_le hlimit)]
  · exact Significand.scaled_eq (by omega) hlow hhigh hfinite
  · intro e he
    rw [power, he, Option.map_some, Option.getD_some, ExponentPart.written, signed] at hlow hhigh
    split at hlow
    · rename_i hnegative
      rw [if_pos hnegative] at hhigh
      omega
    · rename_i hnegative
      rw [if_neg hnegative] at hhigh
      omega

/-- What is written is the value of the literal. -/
theorem readExact_ofDecimal (h : l.IsShort) :
    Number.readExact (Scalar.text (.real (.signed l.negative (.ofDecimal l.coefficient l.power)))) =
      some (l.negative, l.size) := by
  have hfinite := Magnitude.ofDecimal_ne_infinity h.coefficient_lt h.le_power h.power_le
  rw [Number.readExact_text l.negative hfinite, size]
  rcases Nat.eq_zero_or_pos l.coefficient with hzero | hpos
  · have hnone : Magnitude.ofDecimal 0 l.power = .zero := rfl
    rw [hzero, hnone, if_pos rfl, Nat.cast_zero, zero_mul]
  · rw [if_neg (Magnitude.ofDecimal_ne_zero hpos h.coefficient_lt h.le_power h.power_le),
      Magnitude.value_shortest_ofDecimal hpos h.coefficient_lt h.le_power h.power_le]

/-- A short literal stands for the nearest number, which is written with the literal's value. -/
theorem scalar?_of_isShort (h : l.IsShort) :
    ∃ x, l.scalar? = some (.real x) ∧ x.IsNearest (Number.sign l.negative * l.size) ∧
      Number.readExact (Scalar.text (.real x)) = some (l.negative, l.size) := by
  have hfinite := Magnitude.ofDecimal_ne_infinity h.coefficient_lt h.le_power h.power_le
  refine ⟨.signed l.negative (.ofDecimal l.coefficient l.power), ?_,
    Binary64.isNearest_ofDecimal l.negative l.coefficient l.power hfinite, readExact_ofDecimal h⟩
  rw [scalar?_of_not_whole h.not_whole, magnitude?_eq h]
  rfl

end Literal

end Json
end InputDeck
