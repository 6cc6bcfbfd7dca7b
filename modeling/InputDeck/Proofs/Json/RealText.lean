/-
The texts of reals as number literals.

Every finite real is written as a literal (`exists_literal_text`), of at most 17 digits that count
and a small exponent, so all of its digits are kept when it is read.  What it is read as is another
question: the digits are rounded, the power of ten is, and so is the product or quotient (`reload?`).
It is always some real (`exists_reload?`), and the same one if the first two of these roundings
change nothing (`reload?_eq_self`).
-/
import InputDeck.Proofs.Json.Finite
import InputDeck.Proofs.Number.Notation

namespace InputDeck

open Number

namespace Json

namespace Literal

/-- That a literal has a point or an exponent, and so few digits that all of them count when it is
read. -/
structure IsKept (l : Literal) : Prop where
  not_whole : l.isWhole = false
  coefficient_lt : l.coefficient < Significand.limit
  exponent_lt : ∀ e, l.exponent = some e → ofDigits e.digits < 0x80000000

/-! ## Layouts of decimals -/

theorem isUnsigned_pointed {negative : Bool} {whole fraction : List Char} (hwhole : IsTight whole)
    (hfraction : IsRow fraction) :
    IsUnsigned ⟨negative, whole, some fraction, none⟩ (whole ++ '.' :: fraction) := by
  have hparts : IsUnsigned ⟨negative, whole, some fraction, none⟩ _ :=
    .parts hwhole (.some hfraction) .none
  rwa [List.append_nil] at hparts

theorem exists_isExponent_of_isMark {e : Int} {mark : List Char} (h : Decimal.IsMark e mark) :
    ∃ part : ExponentPart, IsExponent (some part) ('e' :: mark) ∧
      ofDigits part.digits = e.natAbs := by
  obtain ⟨row, rfl, hrow, hvalue, -⟩ := h
  by_cases he : e < 0
  · rw [if_pos he]
    exact ⟨⟨true, row⟩, .some (Or.inl rfl) .minus hrow, hvalue⟩
  · rw [if_neg he]
    exact ⟨⟨false, row⟩, .some (Or.inl rfl) .plus hrow, hvalue⟩

theorem exists_literal_pointed (negative : Bool) {d : Decimal} (h : d.IsNormal)
    (hcoefficient : d.coefficient < 10 ^ 17) (hlead : d.lead < 16) :
    ∃ l : Literal, l.negative = negative ∧ l.IsUnsigned d.pointed ∧ l.IsKept := by
  have hlimit : 10 ^ 17 < Significand.limit := by decide
  unfold Decimal.pointed
  split
  · rename_i hfraction
    have hzero : IsRow ['0'] := ⟨by simp, by simp⟩
    refine ⟨_, rfl, isUnsigned_pointed h.isTight_whole hzero, rfl, ?_, by simp⟩
    have hrow : ∀ c ∈ d.whole ++ ['0'], c.isDigit = true := by
      intro c hc
      rcases List.mem_append.1 hc with hc | hc
      · exact h.isTight_whole.isDigit c hc
      · exact hzero.isDigit c hc
    have hlength : (d.whole ++ ['0']).length ≤ 17 := by
      unfold Decimal.whole
      split
      · rename_i n hn
        rw [hn, Int.ofNat_eq_natCast] at hlead
        simp only [List.length_append, List.length_take, List.length_replicate, List.length_singleton]
        omega
      · simp
    calc ofDigits (d.whole ++ ['0']) < Nat.pow 10 (d.whole ++ ['0']).length := ofDigits_lt hrow
      _ ≤ Nat.pow 10 17 := Magnitude.ten_pow_le_ten_pow hlength
      _ < Significand.limit := hlimit
  · rename_i c rest hfraction
    have hne : d.fraction ≠ [] := by simp [hfraction]
    rw [← hfraction]
    have hrow : IsRow d.fraction := ⟨hne, Decimal.isDigit_of_mem_fraction h.isRow⟩
    refine ⟨_, rfl, isUnsigned_pointed h.isTight_whole hrow, rfl, ?_, by simp⟩
    show ofDigits (d.whole ++ d.fraction) < Significand.limit
    rw [(Decimal.ofDigits_whole_append_fraction hne).1]
    exact hcoefficient.trans hlimit

theorem exists_literal_scientific (negative : Bool) {d : Decimal} (h : d.IsNormal)
    (hcoefficient : d.coefficient < 10 ^ 17) (hlow : -402 ≤ d.lead) (hhigh : d.lead < 309) :
    ∃ l : Literal, l.negative = negative ∧ l.IsUnsigned d.scientific ∧ l.IsKept := by
  have hlimit : 10 ^ 17 < Significand.limit := by decide
  obtain ⟨first, rest, mark, hdigits, hcs, hmark⟩ := Decimal.isScientific_scientific h.isRow
  obtain ⟨part, hpart, hvalue⟩ := exists_isExponent_of_isMark hmark
  have hrow := h.isRow
  have hhead := h.head_ne
  rw [hdigits] at hrow hhead
  have hwhole : IsTight [first] := by
    refine { ne_nil := by simp, isDigit := fun c hc => hrow.isDigit c ?_, eq_zero := ?_ }
    · exact List.mem_cons.2 (Or.inl (List.mem_singleton.1 hc))
    · intro more hmore
      exact (List.cons.inj hmore).2.symm
  have hbits : ofDigits part.digits < 0x80000000 := by
    rw [hvalue]
    omega
  by_cases hrest : rest = []
  · subst hrest
    refine ⟨⟨negative, [first], none, some part⟩, rfl, ?_, rfl, ?_, ?_⟩
    · rw [hcs]
      exact .parts hwhole .none hpart
    · have hsame : ofDigits [first] = d.coefficient := by rw [Decimal.coefficient, hdigits]; rfl
      exact hsame.trans_lt (hcoefficient.trans hlimit)
    · intro e he
      exact Option.some.inj he ▸ hbits
  · have hfraction : IsRow rest :=
      ⟨hrest, fun c hc => hrow.isDigit c (List.mem_cons_of_mem first hc)⟩
    refine ⟨⟨negative, [first], some rest, some part⟩, rfl, ?_, rfl, ?_, ?_⟩
    · rw [hcs, if_neg hrest]
      exact .parts hwhole (.some hfraction) hpart
    · have hsame : ofDigits (first :: rest) = d.coefficient := by
        rw [Decimal.coefficient, hdigits]
        rfl
      exact hsame.trans_lt (hcoefficient.trans hlimit)
    · intro e he
      exact Option.some.inj he ▸ hbits

/-- Every finite real is written as a literal of which all digits are kept. -/
theorem exists_literal_text (negative : Bool) {m : Magnitude} (hfinite : m ≠ .infinity) :
    ∃ l, Token.splitLiteral (Scalar.text (.real (.signed negative m))) = some (l, []) ∧
      l.negative = negative ∧ l.IsKept ∧ readDecimal m.text = some (l.coefficient, l.power) := by
  have hbody : ∃ l : Literal, l.negative = negative ∧ l.IsUnsigned m.text ∧ l.IsKept := by
    unfold Magnitude.text
    rw [if_neg hfinite]
    split_ifs with hzero hscientific
    · have htight : IsTight ['0'] := isTight_toDigits 0
      refine ⟨_, rfl, isUnsigned_pointed htight htight.toIsRow, rfl, ?_, by simp⟩
      show ofDigits ['0', '0'] < Significand.limit
      decide
    · have hshortest := Magnitude.isShortest_shortest hfinite hzero
      obtain ⟨hlow, hhigh⟩ := hshortest.lead_bounds hfinite hzero
      exact exists_literal_scientific negative hshortest.isNormal
        (Magnitude.coefficient_shortest_lt hfinite hzero) hlow hhigh
    · have hshortest := Magnitude.isShortest_shortest hfinite hzero
      have hlead : ¬16 ≤ m.shortest.lead := fun hle =>
        hscientific (Or.inl ((Magnitude.scientificFrom_le_iff hshortest).2 hle))
      exact exists_literal_pointed negative hshortest.isNormal
        (Magnitude.coefficient_shortest_lt hfinite hzero) (by omega)
  obtain ⟨l, rfl, hl, hkept⟩ := hbody
  have hliteral := Token.splitLiteral_of_isText (.signed hl) endsLiteral_nil
  rw [List.append_nil] at hliteral
  exact ⟨l, hliteral, rfl, hkept, readDecimal_of_isUnsigned hl⟩

end Literal

end Json

namespace Magnitude

open Json (Significand)

/-- What the text of a number is read as in a JSON text: digits and the power of ten are rounded on
their own, and then the product or quotient. -/
def reload? (m : Magnitude) : Option Magnitude :=
  (readDecimal m.text).bind fun d => Significand.scaled ⟨d.1, d.2⟩

/-! ## That nothing is refused -/

/-- Three roundings of which each adds a unit in the last place at most do not reach infinity from
what is four such units below it. -/
theorem mul_ne_infinity_of_bounds {a b m : Magnitude} {c power : Nat}
    (ha : 0x1FFFFFFFFFFFFF * a.units ≤ 0x20000000000000 * (c * oneUnits))
    (hb : 0x1FFFFFFFFFFFFF * b.units ≤ 0x20000000000000 * (power * oneUnits))
    (hm : 0x20000000000000 * (c * power * oneUnits) ≤ 0x20000000000001 * m.units)
    (hrank : m.rank ≤ 0x7FEFFFFFFFFFFFFC) : a.mul b ≠ infinity := by
  have hlargest : (⟨0x7FEFFFFFFFFFFFFF, by decide⟩ : Magnitude) ≠ infinity := by decide
  have hfourth : 0x1FFFFFFFFFFFFF * (⟨0x7FEFFFFFFFFFFFFC, by decide⟩ : Magnitude).units ≤
      0x1FFFFFFFFFFFFC * (⟨0x7FEFFFFFFFFFFFFF, by decide⟩ : Magnitude).units := by decide +kernel
  have hunits : m.units ≤ (⟨0x7FEFFFFFFFFFFFFC, by decide⟩ : Magnitude).units := units_le_of_le hrank
  refine nearest_ne_infinity_of_close oneUnits_pos hlargest ?_
  generalize (⟨0x7FEFFFFFFFFFFFFF, by decide⟩ : Magnitude).units = largest at hfourth ⊢
  generalize (⟨0x7FEFFFFFFFFFFFFC, by decide⟩ : Magnitude).units = fourth at hfourth hunits
  generalize a.units = x at ha ⊢
  generalize b.units = y at hb ⊢
  generalize m.units = z at hm hunits
  generalize oneUnits = u at ha hb hm ⊢
  refine Nat.le_of_mul_le_mul_left (c := 0x1FFFFFFFFFFFFF * 0x1FFFFFFFFFFFFF * 0x1FFFFFFFFFFFFF)
    ?_ (by decide)
  have hfar : 0x1FFFFFFFFFFFFF * z ≤ 0x1FFFFFFFFFFFFC * largest :=
    (Nat.mul_le_mul_left _ hunits).trans hfourth
  calc 0x1FFFFFFFFFFFFF * 0x1FFFFFFFFFFFFF * 0x1FFFFFFFFFFFFF * (x * y * 0x40000000000000)
      = 0x1FFFFFFFFFFFFF * 0x40000000000000 * ((0x1FFFFFFFFFFFFF * x) * (0x1FFFFFFFFFFFFF * y)) := by
        ring
    _ ≤ 0x1FFFFFFFFFFFFF * 0x40000000000000 *
        ((0x20000000000000 * (c * u)) * (0x20000000000000 * (power * u))) :=
        Nat.mul_le_mul_left _ (Nat.mul_le_mul ha hb)
    _ = 0x1FFFFFFFFFFFFF * 0x40000000000000 * 0x20000000000000 * u *
        (0x20000000000000 * (c * power * u)) := by ring
    _ ≤ 0x1FFFFFFFFFFFFF * 0x40000000000000 * 0x20000000000000 * u * (0x20000000000001 * z) :=
        Nat.mul_le_mul_left _ hm
    _ = 0x40000000000000 * 0x20000000000000 * 0x20000000000001 * u * (0x1FFFFFFFFFFFFF * z) := by
        ring
    _ ≤ 0x40000000000000 * 0x20000000000000 * 0x20000000000001 * u * (0x1FFFFFFFFFFFFC * largest) :=
        Nat.mul_le_mul_left _ hfar
    _ = 0x40000000000000 * 0x20000000000000 * 0x20000000000001 * 0x1FFFFFFFFFFFFC * (u * largest) := by
        ring
    _ ≤ 0x1FFFFFFFFFFFFF * 0x1FFFFFFFFFFFFF * 0x1FFFFFFFFFFFFF * 0x40000000000001 * (u * largest) :=
        Nat.mul_le_mul_right _ (by decide)
    _ = _ := by ring

theorem ofDecimal_ofNat (c n : Nat) :
    ofDecimal c n = nearest (c * Nat.pow 10 n * oneUnits) 1 := by
  have hone : Nat.pow 10 0 = 1 := rfl
  have hpower : (-(n : Int)).toNat = 0 := by omega
  rw [ofDecimal_eq_nearest, Int.toNat_natCast, hpower, hone]

theorem ten_pow_ne_infinity {n : Nat} (hn : n ≤ 308) : ofDecimal 1 n ≠ infinity := by
  have hlast : ofDecimal 1 308 ≠ infinity := by decide +kernel
  have hle : ofDecimal 1 n ≤ ofDecimal 1 (308 : Nat) := by
    apply ofDecimal_le_ofDecimal
    gcongr
    norm_num
  intro hinfinite
  rw [hinfinite] at hle
  exact hlast (eq_of_le_of_le (rank_le _) hle)

/-- A whole number of less than 64 bits times a power of ten is not refused if the product is far
enough from infinity. -/
theorem exists_scaled {c : Nat} {e : Int} (hc : c < Significand.limit)
    (hread : ofDecimal c e ≤ ⟨0x7FEFFFFFFFFFFFFC, by decide⟩) :
    ∃ m, Significand.scaled ⟨c, e⟩ = some m := by
  cases e with
  | negSucc n => exact ⟨_, rfl⟩
  | ofNat n =>
      have hrank : (ofDecimal c n).rank ≤ 0x7FEFFFFFFFFFFFFC := hread
      have hfinite : ofDecimal c n ≠ infinity := by
        intro hinfinite
        rw [hinfinite] at hrank
        exact absurd hrank (by decide)
      unfold Significand.scaled
      dsimp only
      rcases Nat.eq_zero_or_pos c with rfl | hpos
      · have hzero : ofNat 0 = zero := by
          rw [ofNat, Nat.zero_mul]
          exact nearest_zero Nat.one_pos
        have hproduct (power : Magnitude) : zero.mul power = zero := by
          rw [mul, units_zero, Nat.zero_mul, nearest_zero oneUnits_pos]
        rw [hzero, hproduct]
        split
        · exact ⟨_, if_neg (by decide)⟩
        · exact ⟨_, if_pos rfl⟩
      · have hn : n ≤ 308 := by
          by_contra hlarge
          apply hfinite
          unfold ofDecimal
          rw [if_neg hpos.ne', if_pos (by omega : 309 ≤ (n : Int))]
        have hnormal {k : Nat} (hk : 0 < k) : 0x10000000000000 ≤ k * oneUnits :=
          Nat.le_trans (by decide +kernel) (Nat.le_mul_of_pos_left oneUnits hk)
        have hpower := ten_pow_ne_infinity hn
        have hdigits : 0x1FFFFFFFFFFFFF * (ofNat c).units ≤ 0x20000000000000 * (c * oneUnits) :=
          (nearest_bounds (moderate_ofNat hc).ne_infinity (hnormal hpos)).1
        have hten : 0x1FFFFFFFFFFFFF * (ofDecimal 1 n).units ≤
            0x20000000000000 * (Nat.pow 10 n * oneUnits) := by
          rw [ofDecimal_ofNat, Nat.one_mul] at hpower ⊢
          exact (nearest_bounds hpower (hnormal (ten_pow_pos n))).1
        have hwhole : 0x20000000000000 * (c * Nat.pow 10 n * oneUnits) ≤
            0x20000000000001 * (ofDecimal c n).units := by
          rw [ofDecimal_ofNat] at hfinite ⊢
          exact (nearest_bounds hfinite (hnormal (Nat.mul_pos hpos (ten_pow_pos n)))).2
        have hproduct := mul_ne_infinity_of_bounds hdigits hten hwhole hrank
        rw [if_pos hn]
        exact ⟨_, if_neg hproduct⟩

theorem exists_reload? {m : Magnitude} (hfinite : m ≠ infinity) : ∃ m', m.reload? = some m' := by
  obtain ⟨l, -, -, hkept, hread⟩ := Json.Literal.exists_literal_text false hfinite
  have htext := readMagnitude_text hfinite
  rw [readMagnitude_eq, hread, Option.map_some, Option.some.injEq] at htext
  by_cases hrank : m.rank ≤ 0x7FEFFFFFFFFFFFFC
  · obtain ⟨m', hm'⟩ := exists_scaled hkept.coefficient_lt (htext.trans_le hrank)
    exact ⟨m', by rw [reload?, hread, Option.bind_some, hm']⟩
  · -- The last three numbers are left, and each is looked at.
    have hlt := (isFinite_iff m).2 hfinite
    simp only [isFinite, decide_eq_true_eq] at hlt
    obtain ⟨rank, hle⟩ := m
    have hlast : rank = 0x7FEFFFFFFFFFFFFD ∨ rank = 0x7FEFFFFFFFFFFFFE ∨
        rank = 0x7FEFFFFFFFFFFFFF := by
      dsimp only at hrank hlt
      omega
    have h₃ : (reload? ⟨0x7FEFFFFFFFFFFFFD, by decide⟩).isSome := by decide +kernel
    have h₂ : (reload? ⟨0x7FEFFFFFFFFFFFFE, by decide⟩).isSome := by decide +kernel
    have h₁ : (reload? ⟨0x7FEFFFFFFFFFFFFF, by decide⟩).isSome := by decide +kernel
    rw [← Option.isSome_iff_exists]
    rcases hlast with rfl | rfl | rfl
    · exact h₃
    · exact h₂
    · exact h₁

/-- With few digits and a small power of ten there is one rounding only, and what is read is the
number. -/
theorem reload?_eq_self {m : Magnitude} (hfinite : m ≠ infinity) {c : Nat} {e : Int}
    (hread : readDecimal m.text = some (c, e)) (hc : c < 0x20000000000000) (hlow : -22 ≤ e)
    (hhigh : e ≤ 22) : m.reload? = some m := by
  have htext := readMagnitude_text hfinite
  rw [readMagnitude_eq, hread, Option.map_some, Option.some.injEq] at htext
  rw [reload?, hread, Option.bind_some, Significand.scaled_eq hc hlow hhigh (htext ▸ hfinite), htext]

end Magnitude

namespace Json.Literal

/-- The literal of a real is read as a real of the same sign. -/
theorem scalar?_of_isKept {l : Literal} (h : l.IsKept) :
    l.scalar? = (Significand.scaled ⟨l.coefficient, l.power⟩).map fun m =>
      .real (.signed l.negative m) := by
  rw [scalar?_of_not_whole h.not_whole, magnitude?_eq_scaled h.coefficient_lt h.exponent_lt]

end Json.Literal
end InputDeck
