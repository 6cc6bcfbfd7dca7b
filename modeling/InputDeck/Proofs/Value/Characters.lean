/-
Which characters the values of variables are written with.

A finite number is written with the characters of decimals: digits, signs, the point and the
exponent mark.  The letters of `inf` and `nan` make up the rest of the characters of numerals.
Vectors and matrices add blanks and line breaks between their numbers.
-/
import InputDeck.Proofs.Text.Pieces
import InputDeck.Text.Blank
import InputDeck.Value

namespace InputDeck

namespace Number

/-- The characters that finite numbers are written with. -/
def isDecimal (c : Char) : Bool := c.isDigit || ['+', '-', '.', 'e'].contains c

/-- The characters that numbers are written with. -/
def isNumeral (c : Char) : Bool :=
  c.isDigit || ['+', '-', '.', 'e', 'i', 'n', 'f', 'a'].contains c

theorem isNumeral_of_isDecimal {c : Char} (h : isDecimal c = true) : isNumeral c = true := by
  simp only [isDecimal, isNumeral, Bool.or_eq_true, List.contains_iff_mem] at h ⊢
  refine h.imp id fun hmem => ?_
  exact List.subset_append_left ['+', '-', '.', 'e'] ['i', 'n', 'f', 'a'] hmem

theorem isBlank_of_isNumeral {c : Char} (h : isNumeral c = true) :
    Text.isBlank c = false := by
  rw [isNumeral, Bool.or_eq_true] at h
  rcases h with h | h
  · simp only [Char.isDigit, Bool.and_eq_true, decide_eq_true_eq] at h
    have hlow : 48 ≤ c.toNat := h.1
    have hhigh : c.toNat ≤ 57 := h.2
    simp only [Text.isBlank, Bool.or_eq_false_iff, Bool.and_eq_false_iff, decide_eq_false_iff_not,
      beq_eq_false_iff_ne]
    omega
  · simp only [List.contains_iff_mem, List.mem_cons, List.not_mem_nil, or_false] at h
    rcases h with rfl | rfl | rfl | rfl | rfl | rfl | rfl | rfl <;> rfl

theorem isDecimal_of_isDigit {c : Char} (h : c.isDigit = true) : isDecimal c = true := by
  simp [isDecimal, h]

theorem isDecimal_of_mem_toDigits {n : Nat} {c : Char} (h : c ∈ Nat.toDigits 10 n) :
    isDecimal c = true :=
  isDecimal_of_isDigit (Nat.isDigit_of_mem_toDigits (by decide) (by decide) h)

theorem isDecimal_of_mem_replicate_zero {n : Nat} {c : Char} (h : c ∈ List.replicate n '0') :
    isDecimal c = true := by
  rw [List.eq_of_mem_replicate h]
  rfl

theorem isDecimal_of_mem_signText {negative : Bool} {c : Char} (h : c ∈ signText negative) :
    isDecimal c = true := by
  cases negative with
  | false => simp [signText] at h
  | true =>
      have hc : c = '-' := by simpa [signText] using h
      rw [hc]
      rfl

theorem isDecimal_of_mem_intText {n : Int} {c : Char} (h : c ∈ intText n) :
    isDecimal c = true := by
  rcases List.mem_append.1 h with h | h
  · exact isDecimal_of_mem_signText h
  · exact isDecimal_of_mem_toDigits h

end Number

namespace Decimal

open Number

variable {d : Decimal} {c : Char}

theorem isDigit_of_mem_dropFinalZeros {digits : List Char} (h : c ∈ dropFinalZeros digits)
    (hdigits : ∀ c ∈ digits, c.isDigit = true) : c.isDigit = true := by
  apply hdigits
  have hrev := (List.dropWhile_sublist (· == '0')).subset (List.mem_reverse.1 h)
  exact List.mem_reverse.1 hrev

theorem isDigit_of_mem_ofScaled {coefficient : Nat} {exponent : Int}
    (h : c ∈ (ofScaled coefficient exponent).digits) : c.isDigit = true :=
  isDigit_of_mem_dropFinalZeros h fun _ hc =>
    Nat.isDigit_of_mem_toDigits (by decide) (by decide) hc

theorem isDecimal_of_mem_whole (hd : ∀ c ∈ d.digits, c.isDigit = true) (h : c ∈ d.whole) :
    isDecimal c = true := by
  unfold whole at h
  split at h
  · rcases List.mem_append.1 h with h | h
    · exact isDecimal_of_isDigit (hd c (List.mem_of_mem_take h))
    · exact isDecimal_of_mem_replicate_zero h
  · rw [List.mem_singleton.1 h]
    rfl

theorem isDecimal_of_mem_fraction (hd : ∀ c ∈ d.digits, c.isDigit = true)
    (h : c ∈ d.fraction) : isDecimal c = true := by
  unfold fraction at h
  split at h
  · exact isDecimal_of_isDigit (hd c (List.mem_of_mem_drop h))
  · rcases List.mem_append.1 h with h | h
    · exact isDecimal_of_mem_replicate_zero h
    · exact isDecimal_of_isDigit (hd c h)

theorem isDecimal_of_mem_pointed (hd : ∀ c ∈ d.digits, c.isDigit = true)
    (h : c ∈ d.pointed) : isDecimal c = true := by
  unfold pointed at h
  split at h
  · rcases List.mem_append.1 h with h | h
    · exact isDecimal_of_mem_whole hd h
    · simp only [List.mem_cons, List.not_mem_nil, or_false] at h
      rcases h with rfl | rfl <;> rfl
  · rename_i hfraction
    rcases List.mem_append.1 h with h | h
    · exact isDecimal_of_mem_whole hd h
    · rcases List.mem_cons.1 h with rfl | h
      · rfl
      · exact isDecimal_of_mem_fraction hd (hfraction ▸ h)

theorem isDecimal_of_mem_exponentMark {e : Int} (h : c ∈ exponentMark e) :
    isDecimal c = true := by
  rcases List.mem_cons.1 h with rfl | h
  · split <;> rfl
  · rcases List.mem_append.1 h with h | h
    · exact isDecimal_of_mem_replicate_zero h
    · exact isDecimal_of_mem_toDigits h

theorem isDecimal_of_mem_scientific (hd : ∀ c ∈ d.digits, c.isDigit = true)
    (h : c ∈ d.scientific) : isDecimal c = true := by
  unfold scientific at h
  split at h
  · simp at h
  · rename_i hdigits
    rcases List.mem_cons.1 h with rfl | h
    · exact isDecimal_of_isDigit (hd _ (by simp [hdigits]))
    · rcases List.mem_cons.1 h with rfl | h
      · rfl
      · exact isDecimal_of_mem_exponentMark h
  · rename_i rest _ hdigits
    rcases List.mem_cons.1 h with rfl | h
    · exact isDecimal_of_isDigit (hd _ (by simp [hdigits]))
    · rcases List.mem_cons.1 h with rfl | h
      · rfl
      · rcases List.mem_append.1 h with h | h
        · exact isDecimal_of_isDigit (hd _ (by simp [hdigits, h]))
        · rcases List.mem_cons.1 h with rfl | h
          · rfl
          · exact isDecimal_of_mem_exponentMark h

end Decimal

namespace Magnitude

variable {m : Magnitude} {c : Char}

theorem isDecimal_of_mem_text (hm : m ≠ infinity) (h : c ∈ m.text) :
    Number.isDecimal c = true := by
  have hdigits : ∀ c ∈ m.shortest.digits, c.isDigit = true :=
    fun _ hc => Decimal.isDigit_of_mem_ofScaled hc
  unfold text at h
  rw [if_neg hm] at h
  split at h
  · simp only [List.mem_cons, List.not_mem_nil, or_false] at h
    rcases h with rfl | rfl | rfl <;> rfl
  split at h
  · exact Decimal.isDecimal_of_mem_scientific hdigits h
  · exact Decimal.isDecimal_of_mem_pointed hdigits h

theorem isNumeral_of_mem_text (h : c ∈ m.text) : Number.isNumeral c = true := by
  by_cases hm : m = infinity
  · unfold text at h
    rw [if_pos hm] at h
    simp only [List.mem_cons, List.not_mem_nil, or_false] at h
    rcases h with rfl | rfl | rfl <;> rfl
  · exact Number.isNumeral_of_isDecimal (isDecimal_of_mem_text hm h)

end Magnitude

namespace Scalar

def isFinite : Scalar → Bool
  | .integer _ => true
  | .real x => x.isFinite

variable {s : Scalar} {c : Char}

theorem isDecimal_of_mem_text (hs : s.isFinite = true) (h : c ∈ s.text) :
    Number.isDecimal c = true := by
  unfold text at h
  split at h
  · exact Number.isDecimal_of_mem_intText h
  · rename_i negative m
    rcases List.mem_append.1 h with h | h
    · exact Number.isDecimal_of_mem_signText h
    · refine Magnitude.isDecimal_of_mem_text ?_ h
      rintro rfl
      simp [isFinite, Binary64.isFinite, Magnitude.isFinite, Magnitude.infinity] at hs
  · simp [isFinite, Binary64.isFinite] at hs

theorem isNumeral_of_mem_text (h : c ∈ s.text) : Number.isNumeral c = true := by
  unfold text at h
  split at h
  · exact Number.isNumeral_of_isDecimal (Number.isDecimal_of_mem_intText h)
  · rcases List.mem_append.1 h with h | h
    · exact Number.isNumeral_of_isDecimal (Number.isDecimal_of_mem_signText h)
    · exact Magnitude.isNumeral_of_mem_text h
  · simp only [List.mem_cons, List.not_mem_nil, or_false] at h
    rcases h with rfl | rfl | rfl <;> rfl

theorem blank_not_mem_text (s : Scalar) : ' ' ∉ s.text := fun h =>
  absurd (isNumeral_of_mem_text h) (by decide)

theorem break_not_mem_text (s : Scalar) : '\n' ∉ s.text := fun h =>
  absurd (isNumeral_of_mem_text h) (by decide)

end Scalar

namespace Value

/-- The rows of numbers that a value is made of. -/
def rows : Value → List (List Scalar)
  | .scalar s => [[s]]
  | .vector items => [items]
  | .matrix rows => rows

theorem text_eq (v : Value) : v.text = ['\n'].intercalate (v.rows.map rowText) := by
  cases v with
  | scalar s => rw [text, rows, List.map_singleton, rowText, List.map_singleton,
      List.intercalate_singleton, List.intercalate_singleton]
  | vector items => rw [text, rows, List.map_singleton, List.intercalate_singleton]
  | matrix rows => rfl

theorem exists_of_mem_rowText {items : List Scalar} {c : Char} (h : c ∈ rowText items) :
    c = ' ' ∨ ∃ s ∈ items, c ∈ s.text := by
  refine (Text.mem_intercalate h).imp id ?_
  rintro ⟨piece, hpiece, hc⟩
  obtain ⟨s, hs, rfl⟩ := List.mem_map.1 hpiece
  exact ⟨s, hs, hc⟩

theorem break_not_mem_rowText (items : List Scalar) : '\n' ∉ rowText items := by
  intro h
  rcases exists_of_mem_rowText h with h | ⟨s, -, hs⟩
  · exact absurd h (by decide)
  · exact s.break_not_mem_text hs

/-- Blanks and line breaks are all that a value adds to the texts of its numbers. -/
theorem exists_of_mem_text {v : Value} {c : Char} (h : c ∈ v.text) :
    c = '\n' ∨ c = ' ' ∨ ∃ row ∈ v.rows, ∃ s ∈ row, c ∈ s.text := by
  rw [text_eq] at h
  refine (Text.mem_intercalate h).imp id ?_
  rintro ⟨piece, hpiece, hc⟩
  obtain ⟨row, hrow, rfl⟩ := List.mem_map.1 hpiece
  exact (exists_of_mem_rowText hc).imp id fun hs => ⟨row, hrow, hs⟩

theorem mem_text {v : Value} {c : Char} (h : c ∈ v.text) :
    c = '\n' ∨ c = ' ' ∨ Number.isNumeral c = true := by
  refine (exists_of_mem_text h).imp id (Or.imp id ?_)
  rintro ⟨_, _, s, _, hc⟩
  exact Scalar.isNumeral_of_mem_text hc

end Value

end InputDeck
