/-
Texts of number literals.

A literal is written with an optional minus sign, digits without a zero too many, perhaps a point
with digits behind it and perhaps an exponent (`Literal.IsText`).  Such a text is split off whatever
it stands before, provided that this cannot be taken for more of it (`splitLiteral_of_isText`), and
nothing else is split off (`isText_of_splitLiteral`).
-/
import InputDeck.Json.Token
import InputDeck.Proofs.Number.Canonical
import Mathlib.Data.List.TakeWhile

namespace InputDeck

open Number

namespace Json

/-! ## What the grammar has -/

namespace Literal

inductive IsFraction : Option (List Char) → List Char → Prop
  | none : IsFraction none []
  | some {row : List Char} (h : IsRow row) : IsFraction (some row) ('.' :: row)

inductive IsSign : Bool → List Char → Prop
  | none : IsSign false []
  | plus : IsSign false ['+']
  | minus : IsSign true ['-']

inductive IsExponent : Option ExponentPart → List Char → Prop
  | none : IsExponent none []
  | some {mark : Char} {negative : Bool} {sign row : List Char} (hmark : mark = 'e' ∨ mark = 'E')
      (hsign : IsSign negative sign) (hrow : IsRow row) :
      IsExponent (some ⟨negative, row⟩) (mark :: (sign ++ row))

/-- That a text writes a literal but for the sign. -/
inductive IsUnsigned : Literal → List Char → Prop
  | parts {negative : Bool} {whole point mark : List Char} {fraction : Option (List Char)}
      {exponent : Option ExponentPart} (hwhole : IsTight whole) (hfraction : IsFraction fraction point)
      (hexponent : IsExponent exponent mark) :
      IsUnsigned ⟨negative, whole, fraction, exponent⟩ (whole ++ (point ++ mark))

/-- That a text writes a literal. -/
inductive IsText : Literal → List Char → Prop
  | signed {l : Literal} {cs : List Char} (h : l.IsUnsigned cs) : IsText l (signText l.negative ++ cs)

/-- What can follow a literal without lengthening it. -/
def EndsLiteral (rest : List Char) : Prop :=
  ∀ c, rest.head? = some c → c.isDigit = false ∧ c ≠ '.' ∧ c ≠ 'e' ∧ c ≠ 'E'

theorem endsLiteral_nil : EndsLiteral [] := by
  intro c h
  simp at h

theorem EndsLiteral.endsRow {rest : List Char} (h : EndsLiteral rest) : EndsRow rest :=
  fun c hc => (h c hc).1

theorem IsUnsigned.exists_head {l : Literal} {cs : List Char} (h : l.IsUnsigned cs) :
    ∃ c more, cs = c :: more ∧ c.isDigit = true := by
  cases h with
  | @parts negative whole point mark fraction exponent hwhole hfraction hexponent =>
      obtain ⟨c, more, rfl⟩ := List.exists_cons_of_ne_nil hwhole.ne_nil
      exact ⟨c, _, rfl, hwhole.isDigit c List.mem_cons_self⟩

theorem IsText.exists_head {l : Literal} {cs : List Char} (h : l.IsText cs) :
    ∃ c more, cs = c :: more ∧ (c = '-' ∨ c.isDigit = true) := by
  cases h with
  | @signed cs h =>
      cases hnegative : l.negative with
      | true => exact ⟨'-', cs, rfl, Or.inl rfl⟩
      | false =>
          obtain ⟨c, more, rfl, hc⟩ := h.exists_head
          exact ⟨c, more, rfl, Or.inr hc⟩

end Literal

/-! ## What is split off -/

namespace Token

open Literal

variable {rest : List Char}

theorem splitWhole_of_isTight {whole : List Char} (h : IsTight whole) (hrest : EndsRow rest) :
    splitWhole (whole ++ rest) = some (whole, rest) := by
  unfold splitWhole
  rw [takeWhile_isDigit_append h.isDigit hrest, dropWhile_isDigit_append h.isDigit hrest]
  split
  · exact absurd rfl h.ne_nil
  · rfl
  · rename_i more _ hne
    exact absurd (h.eq_zero rfl) hne
  · rfl

theorem splitFraction_of_isFraction {fraction : Option (List Char)} {point : List Char}
    (h : IsFraction fraction point)
    (hrest : ∀ c, rest.head? = some c → c.isDigit = false ∧ c ≠ '.') :
    splitFraction (point ++ rest) = some (fraction, rest) := by
  cases h with
  | none =>
      rw [List.nil_append, splitFraction]
      rintro more rfl
      exact (hrest '.' rfl).2 rfl
  | some hrow =>
      have hends : EndsRow rest := fun c hc => (hrest c hc).1
      rw [List.cons_append, splitFraction, takeWhile_isDigit_append hrow.isDigit hends,
        dropWhile_isDigit_append hrow.isDigit hends]
      split
      · exact absurd rfl hrow.ne_nil
      · rfl

theorem splitSign_of_isSign {negative : Bool} {sign cs : List Char} (h : IsSign negative sign)
    (hcs : ∀ c, cs.head? = some c → c ≠ '-' ∧ c ≠ '+') :
    splitSign (sign ++ cs) = (negative, cs) := by
  cases h with
  | none => exact splitSign_signText false cs hcs
  | plus => rfl
  | minus => rfl

theorem splitExponent_of_isExponent {exponent : Option ExponentPart} {mark : List Char}
    (h : IsExponent exponent mark) (hrest : EndsLiteral rest) :
    splitExponent (mark ++ rest) = some (exponent, rest) := by
  cases h with
  | none =>
      cases rest with
      | nil => rfl
      | cons c more =>
          obtain ⟨-, -, he, hE⟩ := hrest c rfl
          rw [List.nil_append, splitExponent, if_neg (by simp [he, hE])]
  | @some mark negative sign row hmark hsign hrow =>
      have hsplit := splitSign_of_isSign hsign (hrow.ne_sign rest)
      rw [List.cons_append, splitExponent, if_pos hmark, List.append_assoc, hsplit]
      dsimp only
      rw [takeWhile_isDigit_append hrow.isDigit hrest.endsRow,
        dropWhile_isDigit_append hrow.isDigit hrest.endsRow]
      split
      · exact absurd rfl hrow.ne_nil
      · rfl

/-- What follows the digits before the point. -/
theorem endsRow_parts {fraction : Option (List Char)} {exponent : Option ExponentPart}
    {point mark : List Char} (hfraction : IsFraction fraction point)
    (hexponent : IsExponent exponent mark) (hrest : EndsLiteral rest) :
    EndsRow (point ++ (mark ++ rest)) ∧
      ∀ c, (mark ++ rest).head? = some c → c.isDigit = false ∧ c ≠ '.' := by
  have hmarked : ∀ c, (mark ++ rest).head? = some c → c.isDigit = false ∧ c ≠ '.' := by
    cases hexponent with
    | none => exact fun c hc => ⟨(hrest c hc).1, (hrest c hc).2.1⟩
    | some hmark =>
        rintro c hc
        obtain rfl := Option.some.inj hc
        rcases hmark with rfl | rfl <;> decide
  refine ⟨?_, hmarked⟩
  cases hfraction with
  | none => exact fun c hc => (hmarked c hc).1
  | some => exact endsRow_cons rfl

theorem splitUnsigned_of_isUnsigned {l : Literal} {cs : List Char} (h : l.IsUnsigned cs)
    (hrest : EndsLiteral rest) : splitUnsigned l.negative (cs ++ rest) = some (l, rest) := by
  cases h with
  | @parts negative whole point mark fraction exponent hwhole hfraction hexponent =>
      obtain ⟨hpoint, hmark⟩ := endsRow_parts hfraction hexponent hrest
      rw [List.append_assoc, List.append_assoc, splitUnsigned, splitWhole_of_isTight hwhole hpoint]
      simp [splitFraction_of_isFraction hfraction hmark, splitExponent_of_isExponent hexponent hrest]

theorem splitLiteral_of_isText {l : Literal} {cs : List Char} (h : l.IsText cs)
    (hrest : EndsLiteral rest) : splitLiteral (cs ++ rest) = some (l, rest) := by
  cases h with
  | @signed cs h =>
      have hsplit := splitUnsigned_of_isUnsigned h hrest
      cases hnegative : l.negative with
      | true =>
          rw [hnegative] at hsplit
          exact hsplit
      | false =>
          rw [hnegative] at hsplit
          obtain ⟨c, more, rfl, hc⟩ := h.exists_head
          show splitLiteral (c :: (more ++ rest)) = _
          rw [splitLiteral]
          · exact hsplit
          · rintro _ he
            exact (ne_sign_of_isDigit hc).1 (List.cons.inj he).1

end Token

/-! ## Nothing else is -/

namespace Literal

variable {cs rest : List Char}

theorem isRow_takeWhile {digits : List Char} (h : cs.takeWhile Char.isDigit = digits)
    (hne : digits ≠ []) : IsRow digits :=
  ⟨hne, fun _ hc => List.mem_takeWhile_imp (h ▸ hc)⟩

theorem isTight_of_splitWhole {whole : List Char} (h : Token.splitWhole cs = some (whole, rest)) :
    IsTight whole ∧ cs = whole ++ rest := by
  have hcut := List.takeWhile_append_dropWhile (p := Char.isDigit) (l := cs)
  unfold Token.splitWhole at h
  split at h
  · simp at h
  · rename_i htake
    obtain ⟨rfl, rfl⟩ := Prod.mk.inj (Option.some.inj h)
    exact ⟨isTight_toDigits 0, htake ▸ hcut.symm⟩
  · simp at h
  · rename_i digits _ hnil hzero hmore
    obtain ⟨rfl, rfl⟩ := Prod.mk.inj (Option.some.inj h)
    refine ⟨{ isRow_takeWhile rfl fun he => hnil he with eq_zero := ?_ }, hcut.symm⟩
    intro rest he
    exact absurd he (hmore rest)

theorem isFraction_of_splitFraction {fraction : Option (List Char)}
    (h : Token.splitFraction cs = some (fraction, rest)) :
    ∃ point, IsFraction fraction point ∧ cs = point ++ rest := by
  unfold Token.splitFraction at h
  split at h
  · rename_i behind
    have hcut := List.takeWhile_append_dropWhile (p := Char.isDigit) (l := behind)
    split at h
    · simp at h
    · rename_i hne
      obtain ⟨rfl, rfl⟩ := Prod.mk.inj (Option.some.inj h)
      exact ⟨_, .some (isRow_takeWhile rfl fun he => hne he), by rw [List.cons_append, hcut]⟩
  · obtain ⟨rfl, rfl⟩ := Prod.mk.inj (Option.some.inj h)
    exact ⟨[], .none, rfl⟩

theorem isSign_of_splitSign {negative : Bool} (h : splitSign cs = (negative, rest)) :
    ∃ sign, IsSign negative sign ∧ cs = sign ++ rest := by
  unfold splitSign at h
  split at h <;> obtain ⟨rfl, rfl⟩ := Prod.mk.inj h
  · exact ⟨_, .minus, rfl⟩
  · exact ⟨_, .plus, rfl⟩
  · exact ⟨_, .none, rfl⟩

theorem isExponent_of_splitExponent {exponent : Option ExponentPart}
    (h : Token.splitExponent cs = some (exponent, rest)) :
    ∃ mark, IsExponent exponent mark ∧ cs = mark ++ rest := by
  cases cs with
  | nil =>
      obtain ⟨rfl, rfl⟩ := Prod.mk.inj (Option.some.inj h)
      exact ⟨[], .none, rfl⟩
  | cons c behind =>
      rw [Token.splitExponent] at h
      by_cases hmark : c = 'e' ∨ c = 'E'
      · rw [if_pos hmark] at h
        generalize hparts : splitSign behind = parts at h
        obtain ⟨negative, digits⟩ := parts
        obtain ⟨sign, hsign, hbehind⟩ := isSign_of_splitSign hparts
        have hcut := List.takeWhile_append_dropWhile (p := Char.isDigit) (l := digits)
        dsimp only at h
        split at h
        · simp at h
        · rename_i hne
          obtain ⟨rfl, rfl⟩ := Prod.mk.inj (Option.some.inj h)
          refine ⟨_, .some hmark hsign (isRow_takeWhile rfl fun he => hne he), ?_⟩
          rw [List.cons_append, List.append_assoc, hcut, hbehind]
      · rw [if_neg hmark] at h
        obtain ⟨rfl, rfl⟩ := Prod.mk.inj (Option.some.inj h)
        exact ⟨[], .none, rfl⟩

theorem isUnsigned_of_splitUnsigned {negative : Bool} {l : Literal}
    (h : Token.splitUnsigned negative cs = some (l, rest)) :
    ∃ body, l.negative = negative ∧ l.IsUnsigned body ∧ cs = body ++ rest := by
  unfold Token.splitUnsigned at h
  obtain ⟨⟨whole, rest₁⟩, hwhole, h⟩ := Option.bind_eq_some_iff.1 h
  obtain ⟨⟨fraction, rest₂⟩, hfraction, h⟩ := Option.bind_eq_some_iff.1 h
  obtain ⟨⟨exponent, rest₃⟩, hexponent, h⟩ := Option.bind_eq_some_iff.1 h
  obtain ⟨rfl, rfl⟩ := Prod.mk.inj (Option.some.inj h)
  obtain ⟨htight, rfl⟩ := isTight_of_splitWhole hwhole
  obtain ⟨point, hpoint, rfl⟩ := isFraction_of_splitFraction hfraction
  obtain ⟨mark, hmark, rfl⟩ := isExponent_of_splitExponent hexponent
  exact ⟨_, rfl, .parts htight hpoint hmark, by simp⟩

theorem isText_of_splitLiteral {l : Literal} (h : Token.splitLiteral cs = some (l, rest)) :
    ∃ body, l.IsText body ∧ cs = body ++ rest := by
  unfold Token.splitLiteral at h
  split at h
  · obtain ⟨body, hnegative, hbody, rfl⟩ := isUnsigned_of_splitUnsigned h
    exact ⟨_, .signed hbody, by rw [hnegative]; rfl⟩
  · obtain ⟨body, hnegative, hbody, rfl⟩ := isUnsigned_of_splitUnsigned h
    exact ⟨_, .signed hbody, by rw [hnegative]; rfl⟩

end Literal

end Json
end InputDeck
