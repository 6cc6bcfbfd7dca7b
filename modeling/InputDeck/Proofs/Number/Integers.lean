/-
Texts that are read as whole numbers.

Such a text is a sign or none and then digits, of which any number may be zeros in front.  It is
read as a number of 64 bits just if its number is one, however long it is
(`readInt64_eq_some_iff`, `readInt64_eq_none_iff`).
-/
import InputDeck.Proofs.Number.Digits

namespace InputDeck
namespace Number

/-- The whole numbers of 64 bits with a sign. -/
def Fits64 (n : Int) : Prop := -0x8000000000000000 ≤ n ∧ n < 0x8000000000000000

theorem exists_int64? {n : Int} (h : Fits64 n) : ∃ i, int64? n = some i := ⟨_, if_pos h⟩

theorem fits64_toInt (i : Int64) : Fits64 i.toInt := by
  have hlow := Int64.le_toInt i
  have hhigh := Int64.toInt_lt i
  exact ⟨by omega, by omega⟩

/-- That a text is a whole number. -/
inductive IsWhole : List Char → Int → Prop
  | unsigned {digits : List Char} (h : IsRow digits) : IsWhole digits (ofDigits digits)
  | plus {digits : List Char} (h : IsRow digits) : IsWhole ('+' :: digits) (ofDigits digits)
  | minus {digits : List Char} (h : IsRow digits) : IsWhole ('-' :: digits) (-ofDigits digits)

variable {cs : List Char} {n : Int}

theorem isRow_of_isDigits (h : isDigits cs = true) : IsRow cs := by
  simp only [isDigits, Bool.and_eq_true, List.all_eq_true, decide_eq_true_eq] at h
  exact ⟨h.1, h.2⟩

theorem splitSign_cases (cs : List Char) :
    (∃ rest, cs = '-' :: rest ∧ splitSign cs = (true, rest)) ∨
    (∃ rest, cs = '+' :: rest ∧ splitSign cs = (false, rest)) ∨ splitSign cs = (false, cs) := by
  fun_cases splitSign cs with
  | case1 rest => exact Or.inl ⟨rest, rfl, rfl⟩
  | case2 rest => exact Or.inr (Or.inl ⟨rest, rfl, rfl⟩)
  | case3 => exact Or.inr (Or.inr rfl)

theorem isWhole_of_readInt (h : readInt cs = some n) : IsWhole cs n := by
  rcases splitSign_cases cs with ⟨rest, rfl, hsplit⟩ | ⟨rest, rfl, hsplit⟩ | hsplit <;>
    simp only [readInt, hsplit, Option.ite_none_right_eq_some, Option.some.injEq] at h <;>
    obtain ⟨hdigits, rfl⟩ := h
  · exact .minus (isRow_of_isDigits hdigits)
  · exact .plus (isRow_of_isDigits hdigits)
  · exact .unsigned (isRow_of_isDigits hdigits)

theorem IsWhole.readInt_eq (h : IsWhole cs n) : readInt cs = some n := by
  cases h with
  | unsigned h => exact readInt_signText h false
  | plus h => simp [readInt, splitSign, h.isDigits, signed]
  | minus h => exact readInt_signText h true

theorem IsWhole.readInt64_eq (h : IsWhole cs n) : readInt64 cs = int64? n := by
  rw [readInt64, h.readInt_eq, Option.bind_some]

theorem readInt64_eq_some_iff {i : Int64} : readInt64 cs = some i ↔ IsWhole cs i.toInt := by
  constructor
  · intro h
    obtain ⟨n, hn, hi⟩ := Option.bind_eq_some_iff.1 h
    rw [toInt_of_int64? hi]
    exact isWhole_of_readInt hn
  · intro h
    rw [h.readInt64_eq, int64?_toInt]

theorem readInt64_eq_none_iff : readInt64 cs = none ↔ ∀ n, IsWhole cs n → ¬Fits64 n := by
  constructor
  · intro h n hn hfits
    obtain ⟨i, hi⟩ := exists_int64? hfits
    rw [hn.readInt64_eq, hi] at h
    simp at h
  · intro h
    match hread : readInt64 cs with
    | none => rfl
    | some i => exact absurd (fits64_toInt i) (h _ (readInt64_eq_some_iff.1 hread))

end Number
end InputDeck
