/-
Cells that hold a number, whatever its bits are.

A whole number of 64 bits is taken for just itself, and wherever its variable is asked for its
decimal expansion is written, with all its digits.  Any other number stays the real it is
(`number_cell_exact`).  Where the two meet a real is not cut off or rounded, though the greatest
whole number of 64 bits is itself no real.
-/
import InputDeck.Proofs.Scalar.Whole
import InputDeck.Proofs.Variables.WholeNumbers
import InputDeck.Proofs.Variables.Worksheet

namespace InputDeck

open Number

namespace Number

/-- That a text is the decimal expansion of a whole number: a minus sign if the number is negative,
and its digits without a needless zero. -/
def IsExpansion (text : List Char) (z : ℤ) : Prop :=
  ∃ negative digits, IsCanonical negative digits ∧ text = signText negative ++ digits ∧
    signed negative (ofDigits digits) = z

theorem isExpansion_intText (z : ℤ) : IsExpansion (intText z) z := by
  refine ⟨z < 0, Nat.toDigits 10 z.natAbs, ⟨isTight_toDigits _, ?_⟩, rfl, ?_⟩
  · intro hnegative hzero
    have hvalue := ofDigits_toDigits z.natAbs
    rw [hzero] at hvalue
    have hlt : z < 0 := by simpa using hnegative
    have hnatAbs : (0 : ℕ) = z.natAbs := hvalue
    omega
  · rw [ofDigits_toDigits, signed]
    split_ifs with hnegative
    · have hlt : z < 0 := by simpa using hnegative
      omega
    · have hle : ¬z < 0 := by simpa using hnegative
      omega

/-- An expansion has neither point nor exponent. -/
theorem IsExpansion.not_mem {text : List Char} {z : ℤ} (h : IsExpansion text z) :
    '.' ∉ text ∧ 'e' ∉ text := by
  obtain ⟨negative, digits, hcanonical, rfl, -⟩ := h
  exact Json.Literal.not_mem_whole negative hcanonical.isTight

end Number

namespace Variables

open Workbook

/-- A number in a cell is taken for a whole one just if it is one of 64 bits, and then for no other;
all others are kept with all their bits, and so is what is no number. -/
theorem number_cell_exact (bits : UInt64) :
    cellScalar? (.number (.ofBits bits.toNat)) = some (.ofBinary64 (.ofBits bits.toNat)) ∧
    (∀ z : ℤ, (Binary64.ofBits bits.toNat).value? = some (z : ℚ) → Fits64 z →
      (∃ n : Int64, Scalar.ofBinary64 (.ofBits bits.toNat) = .integer n ∧ n.toInt = z) ∧
      ∀ {vars : Variables} {a : Address},
        vars.at? a = some (.ofBinary64 (.ofBits bits.toNat)) →
        ∀ {token : List Char}, a.AskedBy token → Template.marker ∉ token →
          ∃ text piece, Template.Writes vars token text ∧ a.piece? text = some piece ∧
            IsExpansion piece z ∧ '.' ∉ piece ∧ 'e' ∉ piece) ∧
    ((∀ z : ℤ, (Binary64.ofBits bits.toNat).value? = some (z : ℚ) → ¬Fits64 z) →
      Scalar.ofBinary64 (.ofBits bits.toNat) = .real (.ofBits bits.toNat) ∧
        (Binary64.ofBits bits.toNat).toBits = bits.toNat) := by
  refine ⟨rfl, ?_, ?_⟩
  · intro z hz hfits
    have hint := Scalar.ofBinary64_of_fits hz hfits
    have hvalue := Binary64.toInt_toInt64 hz hfits
    refine ⟨⟨_, hint, hvalue⟩, ?_⟩
    intro vars a hat token hasked hmarker
    obtain ⟨text, hwrites, hpiece⟩ := exists_writes hat hmarker hasked
    have hexpansion : IsExpansion (Scalar.ofBinary64 (.ofBits bits.toNat)).text z := by
      rw [hint, Scalar.text, hvalue]
      exact isExpansion_intText z
    exact ⟨text, _, hwrites, hpiece, hexpansion, hexpansion.not_mem⟩
  · intro hother
    exact ⟨Scalar.ofBinary64_of_not_fits hother, Binary64.toBits_ofBits bits⟩

/-- The least whole number of 64 bits. -/
example : Scalar.ofBinary64 (.ofBits 0xC3E0000000000000) = .integer .minValue := by decide +kernel

/-- The first real behind the greatest one. -/
example : Scalar.ofBinary64 (.ofBits 0x43E0000000000000) = .real (.ofBits 0x43E0000000000000) := by
  decide +kernel

end Variables
end InputDeck
