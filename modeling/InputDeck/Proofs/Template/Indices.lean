/-
Tokens that stand for numbered variables.

Such a token is a whole number between blanks.  What it comes to depends on the number alone: in the
range of the variables it is the text of one of them, outside of it but still a number of 64 bits it
is out of range, and any other token is no index (`resolve_by_number`).  How the number is written,
with blanks around it, a plus sign or zeros in front, makes no difference.

There are fewer variables than 2^63.  Were there more, the last of them would have numbers that no
index can be read as.
-/
import InputDeck.Proofs.Number.Integers
import InputDeck.Proofs.Template.OnePass
import InputDeck.Proofs.Text.Blank

namespace InputDeck

open Number

/-- The fault with another token. -/
def Fault.onToken (token : String) : Fault → Fault
  | .notAnIndex _ place => .notAnIndex token place
  | fault => fault

theorem Number.IsWhole.isBlank_eq_false {cs : List Char} {n : Int} (h : IsWhole cs n) :
    ∀ c ∈ cs, Text.isBlank c = false := by
  have hrow : ∀ {digits : List Char}, IsRow digits → ∀ c ∈ digits, Text.isBlank c = false :=
    fun h c hc =>
      isBlank_of_isNumeral (isNumeral_of_isDecimal (isDecimal_of_isDigit (h.isDigit c hc)))
  cases h with
  | unsigned h => exact hrow h
  | plus h => exact List.forall_mem_cons.2 ⟨rfl, hrow h⟩
  | minus h => exact List.forall_mem_cons.2 ⟨rfl, hrow h⟩

theorem Number.IsWhole.trimmed {cs : List Char} {n : Int} (h : IsWhole cs n) : Text.Trimmed cs := by
  refine Text.trimmed_of_forall ?_ h.isBlank_eq_false
  cases h with
  | unsigned h => exact h.ne_nil
  | plus h => exact List.cons_ne_nil _ _
  | minus h => exact List.cons_ne_nil _ _

/-- The word of 64 bits before that of a positive number does not wrap. -/
theorem Number.toNat_pred_toUInt64 {i : Int64} (h : 1 ≤ i.toInt) :
    ((i.toUInt64 - 1).toNat + 1 : Int) = i.toInt := by
  have hpos : 0 ≤ i := Int64.le_iff_toInt_le.2 (Int.le_trans (by decide) h)
  have hword : i.toUInt64.toNat = i.toInt.toNat := Int64.toNat_toUInt64_of_le hpos
  have hone : (1 : UInt64) ≤ i.toUInt64 := by
    rw [UInt64.le_iff_toNat_le, hword, UInt64.toNat_one]
    omega
  rw [UInt64.toNat_sub_of_le _ _ hone, hword, UInt64.toNat_one]
  omega

namespace Template

/-- That a token is a whole number between blanks. -/
inductive IsIndex : List Char → Int → Prop
  | between {before number after : List Char} {n : Int}
      (hbefore : ∀ c ∈ before, Text.isBlank c = true) (h : IsWhole number n)
      (hafter : ∀ c ∈ after, Text.isBlank c = true) : IsIndex (before ++ number ++ after) n

/-- That a token is written in another way which makes it no other number: with more blanks around
it or, if it is a number, with a plus sign or more zeros in front of its digits. -/
inductive Respelled : List Char → List Char → Prop
  | blanks {before token after : List Char} (hbefore : ∀ c ∈ before, Text.isBlank c = true)
      (hafter : ∀ c ∈ after, Text.isBlank c = true) : Respelled token (before ++ token ++ after)
  | plus {digits : List Char} (h : IsRow digits) : Respelled digits ('+' :: digits)
  | zeros {sign digits : List Char} (hsign : sign ∈ [[], ['+'], ['-']]) (h : IsRow digits)
      (count : Nat) : Respelled (sign ++ digits) (sign ++ (List.replicate count '0' ++ digits))
  | trans {a b c : List Char} (h : Respelled a b) (h' : Respelled b c) : Respelled a c

variable {token token' : List Char} {n : Int} {values : List Scalar}

theorem isIndex_iff : IsIndex token n ↔ IsWhole (Text.trim token) n := by
  constructor
  · rintro ⟨hbefore, h, hafter⟩
    rwa [Text.trim_between h.trimmed hbefore hafter]
  · intro h
    obtain ⟨before, after, hbefore, hafter, htoken⟩ := Text.exists_trim token
    rw [htoken]
    exact .between hbefore h hafter

/-! ## What a token is read as -/

theorem exists_isWhole_sign {sign : List Char} (hsign : sign ∈ [[], ['+'], ['-']]) :
    ∃ negative, ∀ {digits : List Char}, IsRow digits →
      IsWhole (sign ++ digits) (signed negative (ofDigits digits)) := by
  simp only [List.mem_cons, List.not_mem_nil, or_false] at hsign
  rcases hsign with rfl | rfl | rfl
  · exact ⟨false, .unsigned⟩
  · exact ⟨false, .plus⟩
  · exact ⟨true, .minus⟩

theorem readInt_trim (h : IsWhole token n) : readInt (Text.trim token) = some n := by
  rw [Text.trim_of_trimmed h.trimmed, h.readInt_eq]

theorem Respelled.readInt_eq (h : Respelled token token') :
    readInt (Text.trim token') = readInt (Text.trim token) := by
  induction h with
  | blanks hbefore hafter => rw [Text.trim_append_blanks hbefore hafter]
  | plus h => rw [readInt_trim (.plus h), readInt_trim (.unsigned h)]
  | zeros hsign h count =>
      obtain ⟨negative, hwhole⟩ := exists_isWhole_sign hsign
      rw [readInt_trim (hwhole (h.zeros_append count)), readInt_trim (hwhole h),
        ofDigits_zeros_append]
  | trans _ _ ih ih' => rw [ih', ih]

/-! ## What a token comes to -/

theorem numberedText_of_number (place : Place) {k : Nat} (hk : k < values.length) {i : Int64}
    (hread : readInt64 (Text.trim token) = some i) (hi : i.toInt = k + 1) :
    numberedText values place token = .ok values[k].text := by
  have hrange : 1 ≤ i.toInt ∧ i.toInt ≤ values.length := by omega
  have hoffset : (i.toInt - 1).toNat = k := by omega
  rw [numberedText, hread]
  simp only [dif_pos hrange, hoffset, List.get_eq_getElem]

theorem numberedText_of_out_of_range (place : Place) {i : Int64}
    (hread : readInt64 (Text.trim token) = some i)
    (hrange : ¬(1 ≤ i.toInt ∧ i.toInt ≤ values.length)) :
    numberedText values place token =
      .error (.indexOutOfRange i.toInt values.length place) := by
  rw [numberedText, hread]
  exact dif_neg hrange

theorem numberedText_of_no_index (values : List Scalar) (place : Place)
    (hread : readInt64 (Text.trim token) = none) :
    numberedText values place token = .error (.notAnIndex (String.ofList token) place) := by
  rw [numberedText, hread]

/-- Only the number that is read counts, but for the token which a fault tells. -/
theorem numberedText_congr (values : List Scalar) (place : Place)
    (h : readInt (Text.trim token') = readInt (Text.trim token)) :
    numberedText values place token' =
      (numberedText values place token).mapError (Fault.onToken (String.ofList token')) := by
  have hread : readInt64 (Text.trim token') = readInt64 (Text.trim token) := by
    rw [readInt64, readInt64, h]
  rw [numberedText, numberedText, hread]
  cases readInt64 (Text.trim token) with
  | none => rfl
  | some i =>
      dsimp only
      split <;> rfl

/-- A token comes to the variable whose number it is, or else it is out of range if it is a number
of 64 bits and no index if it is not.  The offset of a variable does not wrap in words of 64 bits,
and no spelling of a number comes to anything else. -/
theorem resolve_by_number (hsize : values.length < 0x8000000000000000) (place : Place)
    (token : List Char) :
    (∀ n, IsIndex token n →
      (∀ k (hk : k < values.length), n = k + 1 →
        resolve (.positional values) place token = .ok (some values[k].text)) ∧
      (¬(1 ≤ n ∧ n ≤ values.length) → Fits64 n →
        resolve (.positional values) place token =
          .error (.indexOutOfRange n values.length place)) ∧
      ∀ i : Int64, i.toInt = n → 1 ≤ n → ((i.toUInt64 - 1).toNat + 1 : Int) = n) ∧
    ((∀ n, IsIndex token n → ¬Fits64 n) →
      resolve (.positional values) place token =
        .error (.notAnIndex (String.ofList token) place)) ∧
    ∀ token', Respelled token token' →
      resolve (.positional values) place token' =
        (resolve (.positional values) place token).mapError
          (Fault.onToken (String.ofList token')) := by
  have hread : ∀ {n}, IsIndex token n → Fits64 n →
      ∃ i : Int64, i.toInt = n ∧ readInt64 (Text.trim token) = some i := by
    intro n hn hfits
    obtain ⟨i, hi⟩ := exists_int64? hfits
    exact ⟨i, toInt_of_int64? hi, by rw [(isIndex_iff.1 hn).readInt64_eq, hi]⟩
  have hresolve : ∀ token, resolve (.positional values) place token =
      (numberedText values place token).map some := (resolves_numberedText values place).resolve_eq
  refine ⟨fun n hn => ⟨?_, ?_, ?_⟩, ?_, ?_⟩
  · intro k hk hnk
    have hfits : Fits64 n := ⟨by omega, by omega⟩
    obtain ⟨i, hi, hnumber⟩ := hread hn hfits
    rw [hresolve, numberedText_of_number place hk hnumber (hi.trans hnk)]
    rfl
  · intro hrange hfits
    obtain ⟨i, rfl, hnumber⟩ := hread hn hfits
    rw [hresolve, numberedText_of_out_of_range place hnumber hrange]
    rfl
  · rintro i rfl hpos
    exact toNat_pred_toUInt64 hpos
  · intro hnone
    have hnumber : readInt64 (Text.trim token) = none :=
      readInt64_eq_none_iff.2 fun n hn => hnone n (isIndex_iff.2 hn)
    rw [hresolve, numberedText_of_no_index values place hnumber]
    rfl
  · intro token' hspelled
    rw [hresolve, hresolve, numberedText_congr values place hspelled.readInt_eq]
    cases numberedText values place token <;> rfl

theorem resolve_by_number_pair :
    [Scalar.integer 3, Scalar.integer 5].length < 0x8000000000000000 ∧
      IsIndex [' ', '+', '0', '2', '\t'] 2 ∧ (∀ n, IsIndex ['1', ' ', '2'] n → ¬Fits64 n) ∧
      resolve (.positional [.integer 3, .integer 5]) ⟨"case.pot", 1⟩ [' ', '+', '0', '2', '\t'] =
        .ok (some ['5']) ∧
      resolve (.positional [.integer 3, .integer 5]) ⟨"case.pot", 1⟩ ['1', ' ', '2'] =
        .error (.notAnIndex "1 2" ⟨"case.pot", 1⟩) := by
  have hsize : [Scalar.integer 3, Scalar.integer 5].length < 0x8000000000000000 := by decide
  have hindex : IsIndex ([' '] ++ ['+', '0', '2'] ++ ['\t']) 2 :=
    .between (List.forall_mem_singleton.2 rfl) (.plus (isRow_of_isDigits rfl))
      (List.forall_mem_singleton.2 rfl)
  have hnone : ∀ n, IsIndex ['1', ' ', '2'] n → ¬Fits64 n := fun n hn =>
    readInt64_eq_none_iff.1 rfl n (isIndex_iff.1 hn)
  refine ⟨hsize, hindex, hnone, ?_, ?_⟩
  · exact ((resolve_by_number hsize _ _).1 2 hindex).1 1 (by decide) rfl
  · exact (resolve_by_number hsize _ _).2.1 hnone

end Template
end InputDeck
