/-
The text of a scalar reads back as that scalar.  Only of what is no number the bits are lost, which
its text does not show.

A whole number has digits only behind its sign.  The text of a real holds a point, an exponent mark
or the letters of a word, so it never reads as a whole number; it starts with a digit unless it is
a word, so it reads as digits, and the digits are those of a decimal that reads back.
-/
import InputDeck.Proofs.Number.ReadBack
import InputDeck.Scalar

namespace InputDeck

open Number

namespace Decimal

theorem exists_row_pointed {d : Decimal} (hd : IsRow d.digits) :
    ∃ row rest, IsRow row ∧ d.pointed = row ++ '.' :: rest := by
  unfold pointed
  split
  · exact ⟨d.whole, ['0'], isRow_whole hd, rfl⟩
  · exact ⟨d.whole, _, isRow_whole hd, rfl⟩

theorem exists_row_scientific {d : Decimal} (hd : IsRow d.digits) :
    ∃ row c rest, IsRow row ∧ c.isDigit = false ∧ d.scientific = row ++ c :: rest := by
  unfold scientific
  split
  · rename_i hdigits
    exact absurd hdigits hd.ne_nil
  · rename_i c hdigits
    exact ⟨[c], 'e', _, hdigits ▸ hd, rfl, rfl⟩
  · rename_i c rest _ hdigits
    have hc : c.isDigit = true := hd.isDigit c (by simp [hdigits])
    exact ⟨[c], '.', _, ⟨by simp, by simpa using hc⟩, rfl, rfl⟩

end Decimal

namespace Magnitude

/-- The text of a finite number is digits up to a character which is none. -/
theorem exists_row_text {m : Magnitude} (hm : m ≠ infinity) :
    ∃ row c rest, IsRow row ∧ c.isDigit = false ∧ m.text = row ++ c :: rest := by
  unfold text
  rw [if_neg hm]
  split
  · exact ⟨['0'], '.', ['0'], ⟨by simp, by simp⟩, rfl, rfl⟩
  · rename_i hzero
    have hrow := isRow_shortest hzero
    split
    · exact Decimal.exists_row_scientific hrow
    · obtain ⟨row, rest, hpointed⟩ := Decimal.exists_row_pointed hrow
      exact ⟨row, '.', rest, hpointed.1, rfl, hpointed.2⟩

theorem readMagnitude_text {m : Magnitude} (hm : m ≠ infinity) :
    readMagnitude m.text = some m := by
  unfold text
  rw [if_neg hm]
  split
  · rename_i hzero
    rw [hzero]
    rfl
  · rename_i hzero
    have hrow := isRow_shortest hzero
    split
    · rw [Decimal.readMagnitude_scientific hrow, magnitude_shortest]
    · rw [Decimal.readMagnitude_pointed hrow, magnitude_shortest]

theorem text_ne_sign (m : Magnitude) (c : Char) (hc : m.text.head? = some c) :
    c ≠ '-' ∧ c ≠ '+' := by
  by_cases hm : m = infinity
  · have hi : c = 'i' := by simpa [text, hm] using hc.symm
    rw [hi]
    decide
  · obtain ⟨row, c', rest, hrow, _, htext⟩ := exists_row_text hm
    rw [htext] at hc
    exact hrow.ne_sign _ c hc

theorem isDigits_text (m : Magnitude) : isDigits m.text = false := by
  by_cases hm : m = infinity
  · simp only [text, if_pos hm]
    rfl
  · obtain ⟨row, c, rest, _, hc, htext⟩ := exists_row_text hm
    exact isDigits_eq_false (c := c) (by simp [htext]) hc

end Magnitude

namespace Number

theorem toLower_of_isDigit {c : Char} (h : c.isDigit = true) : c.toLower = c := by
  simp only [Char.isDigit, Bool.and_eq_true, decide_eq_true_eq] at h
  unfold Char.toLower
  split
  · rename_i hupper
    exact absurd (Nat.le_trans hupper.1 h.2) (by decide)
  · rfl

/-- The words do not start with a digit. -/
theorem readWord_of_isDigit {c : Char} (h : c.isDigit = true) (negative : Bool)
    (rest : List Char) : readWord negative (c :: rest) = none := by
  have hi : c ≠ 'i' := by
    rintro rfl
    exact absurd h (by decide)
  have hn : c ≠ 'n' := by
    rintro rfl
    exact absurd h (by decide)
  simp [readWord, toLower_of_isDigit h, hi, hn]

theorem readBinary64_text (negative : Bool) (m : Magnitude) :
    readBinary64 (signText negative ++ m.text) = some (.signed negative m) := by
  simp only [readBinary64, splitSign_signText negative m.text m.text_ne_sign]
  by_cases hm : m = .infinity
  · rw [hm]
    rfl
  · obtain ⟨row, c, rest, hrow, _, htext⟩ := Magnitude.exists_row_text hm
    obtain ⟨first, more, hcons⟩ := List.exists_cons_of_ne_nil hrow.ne_nil
    have hfirst : first.isDigit = true := hrow.isDigit first (by simp [hcons])
    have hword : readWord negative m.text = none := by
      rw [htext, hcons]
      exact readWord_of_isDigit hfirst negative _
    rw [hword, Option.none_or, Magnitude.readMagnitude_text hm, Option.map_some]

theorem readInt64_text (negative : Bool) (m : Magnitude) :
    readInt64 (signText negative ++ m.text) = none := by
  simp [readInt64, readInt, splitSign_signText negative m.text m.text_ne_sign, m.isDigits_text]

end Number

/-! ## Bits -/

namespace Binary64

theorem lowBits_lt (x : Binary64) : x.lowBits < 0x8000000000000000 := by
  cases x with
  | signed negative m =>
      have hm := m.rank_le
      simp only [lowBits]
      omega
  | unordered negative payload =>
      have hpayload := payload.bits_lt
      simp only [lowBits]
      omega

theorem toBits_mod (x : Binary64) : x.toBits % 0x8000000000000000 = x.lowBits := by
  have hlow := x.lowBits_lt
  unfold toBits
  split <;> omega

theorem le_toBits_iff (x : Binary64) : 0x8000000000000000 ≤ x.toBits ↔ x.isNegative = true := by
  have hlow := x.lowBits_lt
  unfold toBits
  split
  · exact iff_of_true (by omega) ‹_›
  · exact iff_of_false (by omega) ‹_›

theorem ofBits_toBits (x : Binary64) : ofBits x.toBits = x := by
  unfold ofBits
  simp only [toBits_mod, le_toBits_iff, Bool.decide_eq_true]
  cases x with
  | signed negative m => exact dif_pos m.rank_le
  | unordered negative payload =>
      have hlow : ¬0x7FF0000000000000 + payload.bits ≤ 0x7FF0000000000000 := by
        have hpos := payload.bits_pos
        omega
      refine (dif_neg hlow).trans ?_
      simp only [isNegative, lowBits, Nat.add_sub_cancel_left]

theorem isNegative_ofBits (bits : Nat) :
    (ofBits bits).isNegative = decide (0x8000000000000000 ≤ bits) := by
  unfold ofBits
  split <;> rfl

theorem lowBits_ofBits (bits : Nat) : (ofBits bits).lowBits = bits % 0x8000000000000000 := by
  unfold ofBits
  split
  · rfl
  · simp only [lowBits]
    omega

/-- Every pattern of 64 bits is that of one value. -/
theorem toBits_ofBits (bits : UInt64) : (ofBits bits.toNat).toBits = bits.toNat := by
  have hlt := bits.toNat_lt
  rw [toBits, isNegative_ofBits, lowBits_ofBits]
  simp only [decide_eq_true_eq]
  split <;> omega

/-- A number but for what its text does not tell: the sign and the payload of what is none. -/
def forgetPayload : Binary64 → Binary64
  | .signed negative m => .signed negative m
  | .unordered _ _ => .nan

end Binary64

namespace Scalar

def forgetPayload : Scalar → Scalar
  | .integer n => .integer n
  | .real x => .real x.forgetPayload

theorem ofText_text (s : Scalar) : ofText s.text = some s.forgetPayload := by
  cases s with
  | integer n => simp [ofText, text, readInt64_intText, forgetPayload]
  | real x =>
      cases x with
      | signed negative m =>
          simp only [ofText, text, readInt64_text, readBinary64_text, Option.map_none,
            Option.none_or, Option.map_some, forgetPayload, Binary64.forgetPayload]
      | unordered negative payload => rfl

/-- Whole numbers stay whole numbers, and reals stay reals with all their bits.  The bit patterns
above infinity stand for no number and all give the same one. -/
theorem ofText_text_bits :
    (∀ n : Int64, ofText (text (.integer n)) = some (.integer n)) ∧
      ∀ bits : UInt64, ∃ x, ofText (text (.real (.ofBits bits.toNat))) = some (.real x) ∧
        if bits.toNat % 0x8000000000000000 ≤ 0x7FF0000000000000 then x.toBits = bits.toNat
        else x = .nan := by
  refine ⟨fun n => ofText_text (.integer n), fun bits => ?_⟩
  refine ⟨_, ofText_text _, ?_⟩
  split
  · rename_i h
    have hbits := Binary64.toBits_ofBits bits
    rw [Binary64.ofBits, dif_pos h] at hbits ⊢
    exact hbits
  · rename_i h
    rw [Binary64.ofBits, dif_neg h]
    rfl

end Scalar
end InputDeck
