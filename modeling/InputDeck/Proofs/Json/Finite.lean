/-
The reals of a JSON text are finite.

Scaling the digits of a literal never reaches infinity.  An infinite product is refused.  A quotient
by a power of ten is no larger than what is divided, and that starts from less than 64 bits, so
being `Moderate` is what every division preserves.  All numbers of a text are those of literals in
it (`isFinite_of_ofText?`).
-/
import InputDeck.Json.Value
import InputDeck.Proofs.Json.Literal
import InputDeck.Proofs.Value.Characters

namespace InputDeck

/-! ## Numbers far from infinity -/

namespace Magnitude

/-- That a number lies below 2^1023. -/
def Moderate (m : Magnitude) : Prop := ∃ e ≤ 2097, m.units < Nat.pow 2 e

variable {m divisor : Magnitude} {n : Nat}

theorem Moderate.ne_infinity (h : m.Moderate) : m ≠ infinity := by
  obtain ⟨e, he, hlt⟩ := h
  rw [← nearest_units m]
  exact nearest_ne_infinity he Nat.one_pos (by rwa [Nat.mul_one])

theorem Moderate.div (h : m.Moderate) (hdivisor : oneUnits ≤ divisor.units) :
    (m.div divisor).Moderate := by
  obtain ⟨e, he, hlt⟩ := h
  have hpos : 0 < divisor.units := oneUnits_pos.trans_le hdivisor
  have hfinite : m.div divisor ≠ infinity :=
    nearest_ne_infinity he hpos
      (calc m.units * oneUnits < Nat.pow 2 e * oneUnits :=
            Nat.mul_lt_mul_of_pos_right hlt oneUnits_pos
        _ ≤ Nat.pow 2 e * divisor.units := Nat.mul_le_mul_left _ hdivisor)
  have hle : (m.div divisor).units ≤ m.units :=
    units_nearest_le hpos hfinite (Nat.mul_le_mul_left _ hdivisor)
  exact ⟨e, he, hle.trans_lt hlt⟩

theorem moderate_ofNat (hn : n < Json.Significand.limit) : (ofNat n).Moderate := by
  obtain ⟨k, hk, hunits, -, -⟩ := exists_grid_exponent
  have hlimit : n < Nat.pow 2 64 := hn
  have hbound : n * oneUnits < Nat.pow 2 (64 + k) * 1 := by
    rw [pow_add, hunits, Nat.mul_one]
    exact Nat.mul_lt_mul_of_pos_right hlimit (Nat.two_pow_pos k)
  have hfinite : ofNat n ≠ infinity := nearest_ne_infinity (by omega) Nat.one_pos hbound
  have hpower := units_nearest_of_lt (n := 1) (k := 64 + k) (by decide) (by omega)
  rw [Nat.one_mul] at hpower
  have hle : (ofNat n).units ≤ (nearest (Nat.pow 2 (64 + k)) 1).units :=
    units_nearest_le Nat.one_pos hfinite (by rw [hpower]; exact hbound.le)
  rw [hpower] at hle
  exact ⟨64 + k + 1, by omega, hle.trans_lt (Nat.pow_lt_pow_succ (by decide))⟩

theorem oneUnits_le_ten_pow (n : Nat) : oneUnits ≤ (ofDecimal 1 n).units := by
  by_cases hinfinite : ofDecimal 1 n = infinity
  · rw [hinfinite]
    decide +kernel
  · have hone : (ofNat 1).units = oneUnits := by rw [units_ofNat (by decide), Nat.one_mul]
    have hdecimal := ofDecimal_eq_nearest 1 n
    have hpower : (-(n : Int)).toNat = 0 := by omega
    have hten : Nat.pow 10 0 = 1 := rfl
    rw [Int.toNat_natCast, hpower, hten, Nat.one_mul] at hdecimal
    rw [hdecimal] at hinfinite ⊢
    refine hone.symm.trans_le (units_le_nearest Nat.one_pos hinfinite ?_)
    rw [hone, Nat.mul_one]
    exact Nat.le_mul_of_pos_left _ (ten_pow_pos n)

end Magnitude

namespace Json

open Magnitude (Moderate)

/-! ## Literals -/

namespace Significand

theorem digits_takeWhole_lt {n : Nat} (hn : n < limit) (cs : List Char) :
    (takeWhole n cs).digits < limit := by
  induction cs generalizing n with
  | nil => exact hn
  | cons c rest ih =>
      rw [takeWhole]
      split_ifs with hnext
      · exact ih hnext
      · exact hn

theorem digits_takeFraction_lt {s : Significand} (hs : s.digits < limit) (cs : List Char) :
    (takeFraction s cs).digits < limit := by
  induction cs generalizing s with
  | nil => exact hs
  | cons c rest ih =>
      rw [takeFraction]
      split_ifs with hnext
      · exact ih hnext
      · exact hs

theorem moderate_sink {m : Magnitude} (hm : m.Moderate) (count : Nat) :
    (sink count m).Moderate := by
  induction count generalizing m with
  | zero => exact hm
  | succ count ih =>
      rw [sink]
      split
      · exact hm
      · exact ih (hm.div (Magnitude.oneUnits_le_ten_pow 308))

theorem scaled_ne_infinity {digits : Nat} {exponent : Int} (hs : digits < limit) {m : Magnitude}
    (h : scaled ⟨digits, exponent⟩ = some m) : m ≠ .infinity := by
  have hdigits := Magnitude.moderate_ofNat hs
  unfold scaled at h
  dsimp only at h
  split at h
  · split at h
    · split at h
      · simp at h
      · rename_i hproduct
        exact Option.some.inj h ▸ hproduct
    · split at h
      · exact Option.some.inj h ▸ hdigits.ne_infinity
      · simp at h
  · obtain rfl := Option.some.inj h
    exact ((moderate_sink hdigits _).div (Magnitude.oneUnits_le_ten_pow _)).ne_infinity

end Significand

/-- Whole numbers of 64 bits are finite also if they are rounded. -/
theorem Number.isFinite_of_ofWhole? {negative : Bool} {k : Nat} {n : Number}
    (h : ofWhole? negative k = some n) : (Variables.scalarOf n).isFinite = true := by
  unfold ofWhole? at h
  split_ifs at h
  · obtain rfl := Option.some.inj h
    rfl
  · obtain rfl := Option.some.inj h
    rw [Variables.scalarOf_natural]
    split
    · rfl
    · rw [Scalar.isFinite, Binary64.isFinite, Magnitude.isFinite_iff]
      exact (Magnitude.moderate_ofNat (UInt64.ofNat k).toNat_lt).ne_infinity

namespace Literal

variable {l : Literal}

theorem digits_significand_lt (l : Literal) : l.significand.digits < Significand.limit :=
  Significand.digits_takeFraction_lt (Significand.digits_takeWhole_lt (by decide) _) _

theorem magnitude?_ne_infinity {m : Magnitude} (h : l.magnitude? = some m) : m ≠ .infinity := by
  have hdigits := l.digits_significand_lt
  unfold magnitude? at h
  dsimp only at h
  split at h
  · exact Significand.scaled_ne_infinity hdigits h
  · split at h
    · exact Significand.scaled_ne_infinity hdigits h
    · split at h
      · obtain rfl := Option.some.inj h
        decide
      · simp at h

theorem isFinite_of_number? {n : Number} (h : l.number? = some n) :
    (Variables.scalarOf n).isFinite = true := by
  rw [number?, Option.or_eq_some_iff] at h
  rcases h with h | ⟨-, h⟩
  · unfold whole? at h
    split at h
    · exact Number.isFinite_of_ofWhole? h
    · simp at h
  · obtain ⟨m, hm, rfl⟩ := Option.map_eq_some_iff.1 h
    exact (Magnitude.isFinite_iff m).2 (magnitude?_ne_infinity hm)

end Literal

/-! ## Whole texts -/

namespace Value

/-- That a number is part of a value. -/
inductive Contains : Value → Number → Prop
  | number (n : Number) : Contains (.number n) n
  | item {items : List Value} {v : Value} {n : Number} (hv : v ∈ items) (h : v.Contains n) :
      Contains (.array items) n
  | member {members : List (String × Value)} {key : String} {v : Value} {n : Number}
      (hv : (key, v) ∈ members) (h : v.Contains n) : Contains (.object members) n

theorem exists_tree_of_item {depth : Nat} {trees : List Tree} {items : List Value}
    (h : ofItems? depth trees = some items) {v : Value} (hv : v ∈ items) :
    ∃ t, ofTree? depth t = some v := by
  induction trees generalizing items with
  | nil =>
      obtain rfl := Option.some.inj h
      simp at hv
  | cons t rest ih =>
      rw [ofItems?] at h
      obtain ⟨first, hfirst, h⟩ := Option.bind_eq_some_iff.1 h
      obtain ⟨more, hmore, h⟩ := Option.bind_eq_some_iff.1 h
      obtain rfl := Option.some.inj h
      rcases List.mem_cons.1 hv with rfl | hv
      · exact ⟨t, hfirst⟩
      · exact ih hmore hv

theorem exists_tree_of_member {depth : Nat} {trees : List (List Char × Tree)}
    {members : List (String × Value)} (h : ofMembers? depth trees = some members) {key : String}
    {v : Value} (hv : (key, v) ∈ members) : ∃ t, ofTree? depth t = some v := by
  induction trees generalizing members with
  | nil =>
      obtain rfl := Option.some.inj h
      simp at hv
  | cons e rest ih =>
      obtain ⟨name, t⟩ := e
      rw [ofMembers?] at h
      obtain ⟨cs, _, h⟩ := Option.bind_eq_some_iff.1 h
      obtain ⟨first, hfirst, h⟩ := Option.bind_eq_some_iff.1 h
      obtain ⟨more, hmore, h⟩ := Option.bind_eq_some_iff.1 h
      obtain rfl := Option.some.inj h
      rcases List.mem_cons.1 hv with he | hv
      · obtain ⟨rfl, rfl⟩ := Prod.mk.inj he
        exact ⟨t, hfirst⟩
      · exact ih hmore hv

/-- What the numbers and the parts of a value are read from. -/
theorem ofTree?_cases {depth : Nat} {t : Tree} {v : Value} (h : ofTree? depth t = some v) :
    match v with
    | .number n => ∃ l : Literal, l.number? = some n
    | .array items => ∃ depth trees, ofItems? depth trees = some items
    | .object members => ∃ depth trees, ofMembers? depth trees = some members
    | _ => True := by
  unfold ofTree? at h
  split at h
  · obtain rfl := Option.some.inj h
    trivial
  · obtain rfl := Option.some.inj h
    trivial
  · obtain ⟨n, hn, rfl⟩ := Option.map_eq_some_iff.1 h
    exact ⟨_, hn⟩
  · obtain ⟨cs, _, rfl⟩ := Option.map_eq_some_iff.1 h
    trivial
  · simp at h
  · split at h
    · obtain ⟨items, hitems, rfl⟩ := Option.map_eq_some_iff.1 h
      exact ⟨_, _, hitems⟩
    · simp at h
  · simp at h
  · split at h
    · obtain ⟨members, hmembers, rfl⟩ := Option.map_eq_some_iff.1 h
      exact ⟨_, _, hmembers⟩
    · simp at h
  · simp at h

/-- By induction on where the number stands in the value: every part of it was read from some tree,
too. -/
theorem isFinite_of_ofTree? {v : Value} {n : Number} (hn : v.Contains n) {depth : Nat} {t : Tree}
    (h : ofTree? depth t = some v) : (Variables.scalarOf n).isFinite = true := by
  induction hn generalizing depth t with
  | number n =>
      obtain ⟨l, hl⟩ := ofTree?_cases h
      exact Literal.isFinite_of_number? hl
  | item hv _ ih =>
      obtain ⟨_, _, hitems⟩ := ofTree?_cases h
      obtain ⟨_, ht⟩ := exists_tree_of_item hitems hv
      exact ih ht
  | member hv _ ih =>
      obtain ⟨_, _, hmembers⟩ := ofTree?_cases h
      obtain ⟨_, ht⟩ := exists_tree_of_member hmembers hv
      exact ih ht

theorem isFinite_of_ofText? {cs : List Char} {v : Value} (h : ofText? cs = some v) {n : Number}
    (hn : v.Contains n) : (Variables.scalarOf n).isFinite = true := by
  unfold ofText? at h
  dsimp only at h
  split at h
  · exact isFinite_of_ofTree? hn h
  · simp at h

end Value

end Json
end InputDeck
