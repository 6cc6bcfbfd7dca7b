/-
Rows of digits and decimals without needless zeros.

Such a row is the only one that is read as its number (`toDigits_ofDigits`), and such a decimal the
only one that stands for its value (`IsNormal.eq_of_value_eq`): the first digit of a decimal is not
zero, so the lead is the power of ten at or below the value (`IsNormal.le_value` and
`IsNormal.value_lt`), and of two rows of digits with one value and one lead the longer ends in
zeros.
-/
import InputDeck.Proofs.Number.Exact

namespace InputDeck

namespace Number

theorem toNat_sub_zero_lt {c : Char} (h : c.isDigit = true) : c.toNat - '0'.toNat < 10 := by
  simp only [Char.isDigit, Bool.and_eq_true, decide_eq_true_eq] at h
  have hhigh : c.toNat ≤ '9'.toNat := h.2
  have hzero : '0'.toNat = 48 := rfl
  have hnine : '9'.toNat = 57 := rfl
  omega

theorem digitChar_toNat_sub_zero {c : Char} (h : c.isDigit = true) :
    Nat.digitChar (c.toNat - '0'.toNat) = c := by
  have hlt := toNat_sub_zero_lt h
  simp only [Char.isDigit, Bool.and_eq_true, decide_eq_true_eq] at h
  have hlow : '0'.toNat ≤ c.toNat := h.1
  apply Char.toNat_inj.1
  rw [Nat.toNat_digitChar_of_lt_ten hlt]
  have hzero : '0'.toNat = 48 := rfl
  omega

theorem toNat_sub_zero_pos {c : Char} (h : c.isDigit = true) (hzero : c ≠ '0') :
    0 < c.toNat - '0'.toNat := by
  have hchar := digitChar_toNat_sub_zero h
  refine Nat.pos_of_ne_zero fun hvalue => hzero ?_
  rw [← hchar, hvalue]
  rfl

theorem ofDigits_cons (c : Char) (cs : List Char) :
    ofDigits (c :: cs) = (c.toNat - '0'.toNat) * Nat.pow 10 cs.length + ofDigits cs := by
  show Nat.ofDigitChars 10 (c :: cs) 0 = _
  rw [Nat.ofDigitChars_cons, Nat.mul_zero, Nat.zero_add, Nat.ofDigitChars_eq_ofDigitChars_zero,
    Nat.mul_comm]
  rfl

theorem ofDigits_lt {cs : List Char} (h : ∀ c ∈ cs, c.isDigit = true) :
    ofDigits cs < Nat.pow 10 cs.length := by
  induction cs with
  | nil => decide
  | cons c cs ih =>
      have hc := toNat_sub_zero_lt (h c List.mem_cons_self)
      have hcs := ih fun c' hc' => h c' (List.mem_cons_of_mem c hc')
      have hpow : Nat.pow 10 (cs.length + 1) = Nat.pow 10 cs.length * 10 :=
        Nat.pow_succ 10 cs.length
      have hdigit : (c.toNat - '0'.toNat) * Nat.pow 10 cs.length ≤ 9 * Nat.pow 10 cs.length :=
        Nat.mul_le_mul_right _ (by omega)
      rw [ofDigits_cons, List.length_cons, hpow]
      omega

theorem le_ofDigits {c : Char} (cs : List Char) (h : c.isDigit = true) (hzero : c ≠ '0') :
    Nat.pow 10 cs.length ≤ ofDigits (c :: cs) := by
  rw [ofDigits_cons]
  exact Nat.le_add_right_of_le (Nat.le_mul_of_pos_left _ (toNat_sub_zero_pos h hzero))

/-! ## Rows without a zero too many -/

/-- A row of digits which starts with a zero only if that is all of it. -/
structure IsTight (cs : List Char) : Prop extends IsRow cs where
  eq_zero : ∀ {rest}, cs = '0' :: rest → rest = []

theorem toDigits_append {cs : List Char} (h : ∀ c ∈ cs, c.isDigit = true) {n : Nat} (hn : 0 < n) :
    Nat.toDigits 10 n ++ cs = Nat.toDigits 10 (Nat.ofDigitChars 10 cs n) := by
  induction cs generalizing n with
  | nil => rw [List.append_nil, Nat.ofDigitChars_nil]
  | cons c cs ih =>
      have hc := h c List.mem_cons_self
      have hdigit := toNat_sub_zero_lt hc
      have hlast := Nat.toDigits_append_toDigits (by decide) hn hdigit
      rw [Nat.toDigits_of_lt_base hdigit, digitChar_toNat_sub_zero hc] at hlast
      have hmore := ih (fun c' hc' => h c' (List.mem_cons_of_mem c hc'))
        (n := 10 * n + (c.toNat - '0'.toNat)) (by omega)
      calc Nat.toDigits 10 n ++ c :: cs = (Nat.toDigits 10 n ++ [c]) ++ cs := by simp
        _ = Nat.toDigits 10 (Nat.ofDigitChars 10 (c :: cs) n) := by
          rw [hlast, hmore, Nat.ofDigitChars_cons]

/-- A row without a zero too many is how its number is written. -/
theorem toDigits_ofDigits {cs : List Char} (h : IsTight cs) :
    Nat.toDigits 10 (ofDigits cs) = cs := by
  obtain ⟨c, rest, rfl⟩ := List.exists_cons_of_ne_nil h.ne_nil
  have hc := h.isDigit c List.mem_cons_self
  by_cases hzero : c = '0'
  · subst hzero
    rw [h.eq_zero rfl]
    rfl
  · have hrest := toDigits_append (fun c' hc' => h.isDigit c' (List.mem_cons_of_mem c hc'))
      (toNat_sub_zero_pos hc hzero)
    rw [Nat.toDigits_of_lt_base (toNat_sub_zero_lt hc), digitChar_toNat_sub_zero hc] at hrest
    have hvalue : ofDigits (c :: rest) = Nat.ofDigitChars 10 rest (c.toNat - '0'.toNat) := by
      show Nat.ofDigitChars 10 (c :: rest) 0 = _
      rw [Nat.ofDigitChars_cons, Nat.mul_zero, Nat.zero_add]
    rw [hvalue, ← hrest]
    rfl

theorem isTight_toDigits (n : Nat) : IsTight (Nat.toDigits 10 n) := by
  refine { isRow_toDigits n with eq_zero := ?_ }
  intro rest hrest
  have hrow := isRow_toDigits n
  have hvalue := ofDigits_toDigits n
  have hmore : ofDigits rest = n := by
    rw [hrest, ofDigits_cons, Nat.sub_self, Nat.zero_mul, Nat.zero_add] at hvalue
    exact hvalue
  by_contra hne
  -- The digits of the number would be one fewer than they are.
  have hlt : n < 10 ^ rest.length := by
    rw [← hmore]
    exact ofDigits_lt fun c hc => hrow.isDigit c (by rw [hrest]; exact List.mem_cons_of_mem _ hc)
  have hlength := (Nat.length_toDigits_le_iff (by decide) (List.length_pos_of_ne_nil hne)).2 hlt
  rw [hrest, List.length_cons] at hlength
  omega

end Number

/-! ## Decimals without a zero at either end -/

namespace Decimal

open Number

structure IsNormal (d : Decimal) : Prop where
  isRow : IsRow d.digits
  head_ne : d.digits.head? ≠ some '0'
  last_ne : d.digits.getLast? ≠ some '0'

variable {d d' : Decimal}

theorem IsNormal.length_pos (h : d.IsNormal) : 0 < d.digits.length :=
  List.length_pos_of_ne_nil h.isRow.ne_nil

theorem IsNormal.isTight (h : d.IsNormal) : IsTight d.digits := by
  refine { h.isRow with eq_zero := ?_ }
  intro rest hrest
  exact absurd (by rw [hrest]; rfl) h.head_ne

/-- Dropping the zeros at the end of the digits of a number leaves none. -/
theorem isNormal_ofScaled {c : Nat} (hc : c ≠ 0) (e : Int) : (ofScaled c e).IsNormal := by
  have hrow := isRow_ofScaled hc e
  obtain ⟨n, hn⟩ := exists_dropFinalZeros_append (Nat.toDigits 10 c)
  refine ⟨hrow, fun hhead => ?_, fun hlast => ?_⟩
  · obtain ⟨rest, hrest⟩ : ∃ rest, dropFinalZeros (Nat.toDigits 10 c) = '0' :: rest := by
      obtain ⟨first, rest, hcons⟩ := List.exists_cons_of_ne_nil hrow.ne_nil
      rw [hcons, List.head?_cons, Option.some.injEq] at hhead
      exact ⟨rest, hhead ▸ hcons⟩
    rw [hrest, List.cons_append] at hn
    have hnil := (isTight_toDigits c).eq_zero hn
    have hvalue := ofDigits_toDigits c
    rw [hn, hnil] at hvalue
    exact hc hvalue.symm
  · have hhead := List.head?_dropWhile_not (· == '0') (Nat.toDigits 10 c).reverse
    have hdigits : (ofScaled c e).digits =
        ((Nat.toDigits 10 c).reverse.dropWhile (· == '0')).reverse := rfl
    rw [hdigits, List.getLast?_reverse] at hlast
    rw [hlast] at hhead
    simp at hhead

theorem IsNormal.coefficient_lt (h : d.IsNormal) :
    d.coefficient < Nat.pow 10 d.digits.length := ofDigits_lt h.isRow.isDigit

theorem IsNormal.le_coefficient (h : d.IsNormal) :
    Nat.pow 10 (d.digits.length - 1) ≤ d.coefficient := by
  obtain ⟨c, rest, hdigits⟩ := List.exists_cons_of_ne_nil h.isRow.ne_nil
  have hc : c.isDigit = true := h.isRow.isDigit c (by simp [hdigits])
  have hzero : c ≠ '0' := by
    rintro rfl
    exact h.head_ne (by rw [hdigits, List.head?_cons])
  have hle := le_ofDigits rest hc hzero
  rw [coefficient, hdigits, List.length_cons, Nat.add_sub_cancel]
  exact hle

theorem IsNormal.coefficient_pos (h : d.IsNormal) : 0 < d.coefficient :=
  Nat.lt_of_lt_of_le (Magnitude.ten_pow_pos _) h.le_coefficient

theorem IsNormal.le_value (h : d.IsNormal) : (10 : ℚ) ^ d.lead ≤ d.value := by
  have hpos := h.length_pos
  have hexponents : d.lead = ((d.digits.length - 1 : ℕ) : ℤ) + d.exponent := by
    rw [exponent]
    omega
  have hle : ((Nat.pow 10 (d.digits.length - 1) : ℕ) : ℚ) ≤ d.coefficient := by
    exact_mod_cast h.le_coefficient
  rw [Magnitude.cast_ten_pow, ← zpow_natCast] at hle
  rw [value, hexponents, zpow_add₀ (by norm_num)]
  gcongr

theorem IsNormal.value_lt (h : d.IsNormal) : d.value < (10 : ℚ) ^ (d.lead + 1) := by
  have hexponents : d.lead + 1 = (d.digits.length : ℤ) + d.exponent := by
    rw [exponent]
    omega
  have hlt : (d.coefficient : ℚ) < ((Nat.pow 10 d.digits.length : ℕ) : ℚ) := by
    exact_mod_cast h.coefficient_lt
  rw [Magnitude.cast_ten_pow, ← zpow_natCast] at hlt
  rw [value, hexponents, zpow_add₀ (by norm_num)]
  gcongr

/-- Decimals of smaller lead are smaller. -/
theorem IsNormal.value_lt_of_lead_lt (h : d.IsNormal) (h' : d'.IsNormal)
    (hlead : d.lead < d'.lead) : d.value < d'.value :=
  calc d.value < 10 ^ (d.lead + 1) := h.value_lt
    _ ≤ 10 ^ d'.lead := zpow_le_zpow_right₀ (by norm_num) (by omega)
    _ ≤ d'.value := h'.le_value

theorem IsNormal.ten_not_dvd (h : d.IsNormal) (n : Nat) : d.coefficient ≠ 10 * n := by
  intro hten
  have hn : 0 < n := by
    have hpos := h.coefficient_pos
    omega
  have hlast := Nat.toDigits_append_toDigits (b := 10) (d := 0) (by decide) hn (by decide)
  rw [Nat.add_zero, ← hten] at hlast
  apply h.last_ne
  have hdigits : d.digits = Nat.toDigits 10 n ++ Nat.toDigits 10 0 :=
    (toDigits_ofDigits h.isTight).symm.trans hlast.symm
  rw [hdigits]
  exact List.getLast?_concat

theorem IsNormal.digits_eq (h : d.IsNormal) : d.digits = Nat.toDigits 10 d.coefficient :=
  (toDigits_ofDigits h.isTight).symm

/-- No way of writing a value has a larger exponent. -/
theorem IsNormal.le_exponent (h : d.IsNormal) {c : Nat} {e : Int}
    (hvalue : (c : ℚ) * 10 ^ e = d.value) : e ≤ d.exponent := by
  by_contra hlt
  obtain ⟨n, hn⟩ : ∃ n : Nat, e = d.exponent + (n + 1 : ℕ) := ⟨(e - d.exponent - 1).toNat, by omega⟩
  apply h.ten_not_dvd (c * 10 ^ n)
  have hexponent : (10 : ℚ) ^ d.exponent ≠ 0 := zpow_ne_zero _ (by norm_num)
  rw [value, hn, zpow_add₀ (by norm_num), zpow_natCast, mul_left_comm, mul_comm] at hvalue
  have hcoefficient := mul_right_cancel₀ hexponent hvalue
  have hten : 10 * (c * 10 ^ n) = c * 10 ^ (n + 1) := by ring
  rw [hten]
  exact_mod_cast hcoefficient.symm

/-- The digits and the lead are determined by what they stand for. -/
theorem IsNormal.eq_of_value_eq (h : d.IsNormal) (h' : d'.IsNormal) (hvalue : d.value = d'.value) :
    d = d' := by
  have hexponent : d.exponent = d'.exponent :=
    le_antisymm (h'.le_exponent hvalue) (h.le_exponent hvalue.symm)
  have hcoefficient : d.coefficient = d'.coefficient := by
    rw [value, value, ← hexponent] at hvalue
    have hne : (10 : ℚ) ^ d.exponent ≠ 0 := zpow_ne_zero _ (by norm_num)
    exact_mod_cast mul_right_cancel₀ hne hvalue
  have hdigits : d.digits = d'.digits := by rw [h.digits_eq, h'.digits_eq, hcoefficient]
  have hlead : d.lead = d'.lead := by
    rw [exponent, exponent, hdigits] at hexponent
    omega
  cases d
  cases d'
  simp only at hdigits hlead
  rw [hdigits, hlead]

end Decimal
end InputDeck
