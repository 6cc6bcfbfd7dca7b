/-
Rows of digits and the numbers read from them.

Zeros before a row of digits do not change the number, zeros behind it multiply it by ten.  A
whole number with its sign reads back as itself, and scanning a row of digits stops right behind
it when what follows starts with none.
-/
import InputDeck.Number.Decimal
import InputDeck.Number.Reading

namespace InputDeck
namespace Number

/-- A row of digits, of which there is at least one. -/
structure IsRow (cs : List Char) : Prop where
  ne_nil : cs ≠ []
  isDigit : ∀ c ∈ cs, c.isDigit = true

/-- What can follow a row of digits without lengthening it. -/
def EndsRow (cs : List Char) : Prop := ∀ c, cs.head? = some c → c.isDigit = false

theorem endsRow_nil : EndsRow [] := by
  intro c h
  simp at h

theorem endsRow_cons {c : Char} {cs : List Char} (h : c.isDigit = false) : EndsRow (c :: cs) := by
  intro c' hc
  simp only [List.head?_cons, Option.some.injEq] at hc
  exact hc ▸ h

theorem takeWhile_isDigit_append {cs rest : List Char} (hcs : ∀ c ∈ cs, c.isDigit = true)
    (hrest : EndsRow rest) : (cs ++ rest).takeWhile Char.isDigit = cs := by
  rw [List.takeWhile_append_of_pos hcs]
  cases rest with
  | nil => simp
  | cons c rest => simp [hrest c rfl]

theorem dropWhile_isDigit_append {cs rest : List Char} (hcs : ∀ c ∈ cs, c.isDigit = true)
    (hrest : EndsRow rest) : (cs ++ rest).dropWhile Char.isDigit = rest := by
  rw [List.dropWhile_append_of_pos hcs]
  cases rest with
  | nil => simp
  | cons c rest => simp [hrest c rfl]

theorem isRow_toDigits (n : Nat) : IsRow (Nat.toDigits 10 n) where
  ne_nil := Nat.toDigits_ne_nil
  isDigit _ h := Nat.isDigit_of_mem_toDigits (by decide) (by decide) h

theorem isDigit_of_mem_replicate {n : Nat} {c : Char} (h : c ∈ List.replicate n '0') :
    c.isDigit = true := by
  rw [List.eq_of_mem_replicate h]
  rfl

theorem IsRow.zeros_append {cs : List Char} (h : IsRow cs) (n : Nat) :
    IsRow (List.replicate n '0' ++ cs) where
  ne_nil := by simp [h.ne_nil]
  isDigit c hc := by
    rcases List.mem_append.1 hc with hc | hc
    · exact isDigit_of_mem_replicate hc
    · exact h.isDigit c hc

theorem IsRow.isDigits {cs : List Char} (h : IsRow cs) : isDigits cs = true := by
  simp only [Number.isDigits, Bool.and_eq_true, List.all_eq_true]
  exact ⟨by simp [h.ne_nil], h.isDigit⟩

theorem isDigits_eq_false {cs : List Char} {c : Char} (hc : c ∈ cs) (h : c.isDigit = false) :
    isDigits cs = false := by
  simp only [isDigits, Bool.and_eq_false_iff, List.all_eq_false]
  exact Or.inr ⟨c, hc, by simp [h]⟩

/-! ## Values of rows -/

@[simp]
theorem ofDigits_toDigits (n : Nat) : ofDigits (Nat.toDigits 10 n) = n :=
  Nat.ofDigitChars_ten_toDigits

@[simp]
theorem ofDigits_zeros_append (n : Nat) (cs : List Char) :
    ofDigits (List.replicate n '0' ++ cs) = ofDigits cs := by
  simp [ofDigits, Nat.ofDigitChars_append]

theorem ofDigits_append_zeros (cs : List Char) (n : Nat) :
    ofDigits (cs ++ List.replicate n '0') = ofDigits cs * Nat.pow 10 n := by
  simp only [ofDigits, Nat.ofDigitChars_append, Nat.ofDigitChars_replicate_zero]
  exact Nat.mul_comm _ _

/-! ## Whole numbers -/

theorem splitSign_signText (negative : Bool) (cs : List Char)
    (hcs : ∀ c, cs.head? = some c → c ≠ '-' ∧ c ≠ '+') :
    splitSign (signText negative ++ cs) = (negative, cs) := by
  cases negative with
  | true => rfl
  | false =>
      cases cs with
      | nil => rfl
      | cons c rest =>
          obtain ⟨hminus, hplus⟩ := hcs c rfl
          simp only [signText, Bool.false_eq_true, if_false, List.nil_append]
          unfold splitSign
          split
          · rename_i h
            exact absurd (List.cons.inj h).1 hminus
          · rename_i h
            exact absurd (List.cons.inj h).1 hplus
          · rfl

theorem ne_sign_of_isDigit {c : Char} (h : c.isDigit = true) : c ≠ '-' ∧ c ≠ '+' := by
  constructor <;> rintro rfl <;> exact absurd h (by decide)

theorem IsRow.ne_sign {cs : List Char} (h : IsRow cs) (rest : List Char) (c : Char)
    (hc : (cs ++ rest).head? = some c) : c ≠ '-' ∧ c ≠ '+' := by
  obtain ⟨first, more, hcs⟩ := List.exists_cons_of_ne_nil h.ne_nil
  rw [hcs, List.cons_append, List.head?_cons, Option.some.injEq] at hc
  exact ne_sign_of_isDigit (h.isDigit c (by simp [hcs, hc]))

theorem readInt_signText {cs : List Char} (h : IsRow cs) (negative : Bool) :
    readInt (signText negative ++ cs) = some (signed negative (ofDigits cs)) := by
  have hsplit := splitSign_signText negative cs fun c hc => h.ne_sign [] c (by simpa using hc)
  simp [readInt, hsplit, h.isDigits]

theorem readInt_intText (n : Int) : readInt (intText n) = some n := by
  rw [intText, readInt_signText (isRow_toDigits _), ofDigits_toDigits, signed]
  by_cases hn : n < 0
  · simp only [hn, decide_true, if_true]
    exact congrArg some (by omega)
  · simp only [hn, decide_false, Bool.false_eq_true, if_false]
    exact congrArg some (by omega)

theorem int64?_toInt (n : Int64) : int64? n.toInt = some n := by
  have hlow := Int64.le_toInt n
  have hhigh := Int64.toInt_lt n
  rw [int64?, if_pos ⟨by omega, by omega⟩, Int64.ofInt_toInt]

theorem toInt_of_int64? {z : Int} {n : Int64} (h : int64? z = some n) : n.toInt = z := by
  unfold int64? at h
  split at h
  · obtain rfl := Option.some.inj h
    exact Int64.toInt_ofInt_of_le (by omega) (by omega)
  · simp at h

theorem readInt64_intText (n : Int64) : readInt64 (intText n.toInt) = some n := by
  rw [readInt64, readInt_intText, Option.bind_some, int64?_toInt]

end Number
end InputDeck
