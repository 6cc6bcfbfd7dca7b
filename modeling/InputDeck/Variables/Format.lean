/-
The formats of documents that describe variables.
-/
import InputDeck.Path

namespace InputDeck

inductive DocumentFormat where
  | json
  | workbook
deriving DecidableEq

namespace DocumentFormat

/-- The byte of a letter's lower case.  Bytes of other characters than A to Z stay. -/
def lower (b : UInt8) : UInt8 := if 0x41 ≤ b ∧ b ≤ 0x5A then b + 0x20 else b

/-- The format that a path's extension tells, in letters of either case. -/
def ofPath? (p : Path) : Option DocumentFormat :=
  match p.extension with
  | none => none
  | some e =>
      let e := e.map lower
      if e = Text.utf8 "json" then some .json
      else if e = Text.utf8 "xlsx" ∨ e = Text.utf8 "xlsm" then some .workbook
      else none

end DocumentFormat

end InputDeck
