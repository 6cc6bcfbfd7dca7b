/-
Strings written as JSON are read as they were.

A string token holds escapes and plain characters (`IsBody`), and a scan for the closing quote
passes over them all (`splitString_of_isBody`).  What is written for a character is an escape of two
characters, an escape with four digits, or the character itself, which then is no quote, no
backslash and no control character (`Coded`), and decoding gives the character back.  So any text
comes back from its string token: `isBody_encode` and `decode_encode`.
-/
import InputDeck.Json.Escape

namespace InputDeck
namespace Json
namespace Escape

open Token (splitString isHexDigit isEscape)

/-! ## String tokens -/

/-- What may stand between the quotes of a string token. -/
inductive IsBody : List Char → Prop
  | nil : IsBody []
  | itself {c : Char} {raw : List Char} (hcontrol : ¬c.toNat < 0x20) (hquote : c ≠ '"')
      (hslash : c ≠ '\\') (h : IsBody raw) : IsBody (c :: raw)
  | letter {c : Char} {raw : List Char} (hc : isEscape c = true) (h : IsBody raw) :
      IsBody ('\\' :: c :: raw)
  | digits {a b c d : Char} {raw : List Char} (ha : isHexDigit a = true) (hb : isHexDigit b = true)
      (hc : isHexDigit c = true) (hd : isHexDigit d = true) (h : IsBody raw) :
      IsBody ('\\' :: 'u' :: a :: b :: c :: d :: raw)

theorem splitString_of_isBody {raw : List Char} (h : IsBody raw) (rest : List Char) :
    splitString (raw ++ '"' :: rest) = some (raw, rest) := by
  induction h with
  | nil => rfl
  | @itself c raw hcontrol hquote hslash _ ih =>
      have hplain : ¬(decide (c.toNat < 0x20) || c == '\\') = true := by simp [hcontrol, hslash]
      rw [List.cons_append, splitString, if_neg hplain, ih]
      · rfl
      · exact hquote
      · intro a b c' d rest' he _
        exact hslash he
      · intro c' rest' he _
        exact hslash he
  | @letter c raw hc _ ih =>
      have hu : c ≠ 'u' := by
        rintro rfl
        exact absurd hc (by decide)
      rw [List.cons_append, List.cons_append, splitString, if_pos hc, ih]
      · rfl
      · intro a b c' d' rest' he _
        exact hu he
  | digits ha hb hc hd _ ih =>
      simp only [List.cons_append]
      rw [splitString, ha, hb, hc, hd, ih]
      rfl

/-- What can stand for a character in a string token. -/
inductive Coded (c : Char) : List Char → Prop
  | letter {d : Char} (hd : isEscape d = true) (hletter : ofLetter d = c) : Coded c ['\\', d]
  | digits {a b : Char} (ha : isHexDigit a = true) (hb : isHexDigit b = true)
      (hunit : unit '0' '0' a b = c.toNat) : Coded c ['\\', 'u', '0', '0', a, b]
  | itself (hcontrol : ¬c.toNat < 0x20) (hquote : c ≠ '"') (hslash : c ≠ '\\') : Coded c [c]

theorem isHexDigit_hexDigits : ∀ n < 16, isHexDigit (hexDigits.getD n '0') = true := by
  decide

theorem hexValue_hexDigits : ∀ n < 16, hexValue (hexDigits.getD n '0') = n := by
  decide

theorem unit_hexDigits {n : Nat} (hn : n < 0x20) :
    unit '0' '0' (hexDigits.getD (n / 16) '0') (hexDigits.getD (n % 16) '0') = n := by
  have hzero : hexValue '0' = 0 := by decide
  rw [unit, hzero, hexValue_hexDigits (n / 16) (by omega), hexValue_hexDigits (n % 16) (by omega)]
  omega

theorem coded_encodeChar (c : Char) : Coded c (encodeChar c) := by
  unfold encodeChar
  split
  case h_8 hquote hslash _ _ _ _ _ =>
    split
    · rename_i hcontrol
      exact .digits (isHexDigit_hexDigits _ (by omega)) (isHexDigit_hexDigits _ (by omega))
        (unit_hexDigits hcontrol)
    · rename_i hcontrol
      exact .itself hcontrol hquote hslash
  all_goals exact .letter (by decide) (by decide)

theorem Coded.isBody {c : Char} {code raw : List Char} (h : Coded c code) (hraw : IsBody raw) :
    IsBody (code ++ raw) := by
  cases h with
  | letter hd => exact .letter hd hraw
  | digits ha hb => exact .digits (by decide) (by decide) ha hb hraw
  | itself hcontrol hquote hslash => exact .itself hcontrol hquote hslash hraw

theorem not_surrogate (c : Char) : isLeading c.toNat = false ∧ isTrailing c.toNat = false := by
  have hvalid : c.toNat < 0xD800 ∨ 0xDFFF < c.toNat ∧ c.toNat < 0x110000 := c.valid
  simp only [isLeading, isTrailing, Bool.and_eq_false_iff, decide_eq_false_iff_not]
  omega

theorem decode_coded {c : Char} {code : List Char} (h : Coded c code) (rest : List Char) :
    decode (code ++ rest) = (decode rest).map (c :: ·) := by
  cases h with
  | @letter d hd hletter =>
      have hu : d ≠ 'u' := by
        rintro rfl
        exact absurd hd (by decide)
      rw [List.cons_append, List.cons_append, List.nil_append, decode, hletter]
      intro a b c' d' rest' he _
      exact hu he
  | @digits a b ha hb hunit =>
      obtain ⟨hleading, htrailing⟩ := not_surrogate c
      simp only [List.cons_append, List.nil_append]
      rw [decode.eq_def]
      simp only [hunit, htrailing, hleading, Bool.false_eq_true, if_false, Char.ofNat_toNat]
  | itself hcontrol hquote hslash =>
      rw [List.cons_append, List.nil_append, decode]
      · intro a b c' d rest' he _
        exact hslash he
      · intro c' rest' he _
        exact hslash he

/-! ## Texts -/

theorem encode_cons (c : Char) (cs : List Char) : encode (c :: cs) = encodeChar c ++ encode cs :=
  List.flatMap_cons

theorem isBody_encode (cs : List Char) : IsBody (encode cs) := by
  induction cs with
  | nil => exact .nil
  | cons c cs ih =>
      rw [encode_cons]
      exact (coded_encodeChar c).isBody ih

theorem decode_encode (cs : List Char) : decode (encode cs) = some cs := by
  induction cs with
  | nil => rfl
  | cons c cs ih =>
      rw [encode_cons, decode_coded (coded_encodeChar c), ih]
      rfl

end Escape
end Json
end InputDeck
