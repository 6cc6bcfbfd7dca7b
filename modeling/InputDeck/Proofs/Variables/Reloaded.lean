/-
Documents that hold the texts of reals.

Such a document is always loaded, and the real in its gap keeps its sign, but not always its last
places: what is loaded is what three roundings make of the text (`Magnitude.reload?`), and it is
written as it was just if these give the real again (`real_reloaded`).  For a real of at most 15
digits and a moderate size they do.
-/
import InputDeck.Proofs.Json.RealText
import InputDeck.Proofs.Variables.Gap

namespace InputDeck

/-- Only what is no number is written as another scalar is. -/
theorem Scalar.forgetPayload_eq_of_text_eq {s s' : Scalar} (h : s.text = s'.text) :
    s.forgetPayload = s'.forgetPayload := by
  have hread := ofText_text s
  rw [h, ofText_text] at hread
  exact (Option.some.inj hread).symm

namespace Variables

open Json (Tree)
open Number (readDecimal)

/-- The text of a finite real in a document is loaded as a real of the same sign, and as the same
one just if it is written again as it was. -/
theorem real_reloaded (negative : Bool) {m : Magnitude} (hfinite : m ≠ .infinity) :
    ∃ l m', Json.Token.splitLiteral (Scalar.text (.real (.signed negative m))) = some (l, []) ∧
      m.reload? = some m' ∧
      (∀ {c : Nat} {e : Int}, readDecimal m.text = some (c, e) → c < 0x20000000000000 → -22 ≤ e →
        e ≤ 22 → m' = m) ∧
      ∀ {g : Gap (List Char) Tree}, g.Fits → ∀ {cs : List Char},
        Tree.ofText cs = (g.tree l, true) → ∃ vars a, ofJsonText cs = .ok vars ∧
          g.address? = some a ∧ vars.at? a = some (.real (.signed negative m')) ∧
          ∀ token, a.AskedBy token → Template.marker ∉ token → ∃ text piece,
            Template.Writes vars token text ∧ a.piece? text = some piece ∧
              (piece = Scalar.text (.real (.signed negative m)) ↔ m' = m) := by
  obtain ⟨l, hliteral, hnegative, hkept, hread⟩ := Json.Literal.exists_literal_text negative hfinite
  obtain ⟨m', hm'⟩ := Magnitude.exists_reload? hfinite
  refine ⟨l, m', hliteral, hm', ?_, ?_⟩
  · intro c e hdecimal hc hlow hhigh
    rw [Magnitude.reload?_eq_self hfinite hdecimal hc hlow hhigh] at hm'
    exact (Option.some.inj hm').symm
  · intro g hfits cs hcs
    have hscalar : l.scalar? = some (.real (.signed negative m')) := by
      rw [Magnitude.reload?, hread, Option.bind_some] at hm'
      rw [Json.Literal.scalar?_of_isKept hkept, hm', Option.map_some, hnegative]
    obtain ⟨vars, a, hvars, haddress, hat⟩ := ofJsonText_of_fits hfits hscalar hcs
    refine ⟨vars, a, hvars, haddress, hat, ?_⟩
    intro token hasked hmarker
    obtain ⟨text, hwrites, hpiece⟩ := exists_writes hat hmarker hasked
    refine ⟨text, _, hwrites, hpiece, ?_, ?_⟩
    · intro hsame
      simpa [Scalar.forgetPayload, Binary64.forgetPayload] using
        Scalar.forgetPayload_eq_of_text_eq hsame
    · rintro rfl
      rfl

/-! A real of 16 digits, of which one changes. -/

/-- The number nearest to 979.6137025239691. -/
def drifting : Magnitude := .ofDecimal 9796137025239691 (-13)

/-- The next number above it. -/
def drifted : Magnitude := .ofDecimal 9796137025239692 (-13)

/-- The literal 979.6137025239691. -/
def driftingLiteral : Json.Literal :=
  ⟨false, ['9', '7', '9'], some ['6', '1', '3', '7', '0', '2', '5', '2', '3', '9', '6', '9', '1'],
    none⟩

theorem real_reloaded_drifting : drifting ≠ .infinity ∧
    ∃ l m', Json.Token.splitLiteral (Scalar.text (.real (.signed false drifting))) = some (l, []) ∧
      drifting.reload? = some m' ∧
      (∀ {c : Nat} {e : Int}, readDecimal drifting.text = some (c, e) → c < 0x20000000000000 →
        -22 ≤ e → e ≤ 22 → m' = drifting) ∧
      ∀ {g : Gap (List Char) Tree}, g.Fits → ∀ {cs : List Char},
        Tree.ofText cs = (g.tree l, true) → ∃ vars a, ofJsonText cs = .ok vars ∧
          g.address? = some a ∧ vars.at? a = some (.real (.signed false m')) ∧
          ∀ token, a.AskedBy token → Template.marker ∉ token → ∃ text piece,
            Template.Writes vars token text ∧ a.piece? text = some piece ∧
              (piece = Scalar.text (.real (.signed false drifting)) ↔ m' = drifting) := by
  have hfinite : drifting ≠ .infinity := by decide +kernel
  exact ⟨hfinite, real_reloaded false hfinite⟩

/-- A document with this real alone gives the next one, and the text that is written is another. -/
theorem drifting_not_reloaded :
    drifting ≠ .infinity ∧
      Scalar.text (.real (.signed false drifting)) = "979.6137025239691".toList ∧
      ofJsonText "[979.6137025239691]".toList =
        .ok (.positional [.real (.signed false drifted)]) ∧
      (Binary64.signed false drifted).toBits ≠ (Binary64.signed false drifting).toBits ∧
      Template.substitute (.positional [.real (.signed false drifted)]) ⟨"a.pot", 1⟩ "?1?".toList =
        .ok "979.6137025239692".toList := by
  have htree : Tree.ofText "[979.6137025239691]".toList =
      (.array [.number driftingLiteral] true, true) := rfl
  have hnumber : driftingLiteral.number? = some (.real (.signed false drifted)) := by
    decide +kernel
  have hvalue : Json.Value.ofText? "[979.6137025239691]".toList =
      some (.array [.number (.real (.signed false drifted))]) := by
    rw [Json.Value.ofText?, htree]
    simp [Json.Value.depthLimit, Json.Value.ofTree?, Json.Value.ofItems?, hnumber]
  refine ⟨by decide +kernel, by decide +kernel, ?_, by decide +kernel, by decide +kernel⟩
  rw [ofJsonText, hvalue]
  rfl

end Variables
end InputDeck
