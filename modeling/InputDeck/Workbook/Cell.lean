/-
Cells of a worksheet: what is stored for them and what they are read as.
-/
import InputDeck.Scalar

namespace InputDeck
namespace Workbook

/-- What a workbook stores for a cell.  The kinds other than text are stored as text, too, which
need not suit the kind. -/
inductive Stored where
  | blank
  | text (s : String)
  | number (s : String)
  | boolean (s : String)
  | error (s : String)
  | isoDate (s : String)
  | date (s : String)
  | duration (s : String)
deriving DecidableEq

/-- What a reader of worksheets may find in a cell.  Whole numbers and durations written out are
among it, though nothing that is stored here is read as one of them. -/
inductive Cell where
  | empty
  | text (s : String)
  | integer (n : Int64)
  | number (x : Binary64)
  | boolean (b : Bool)
  | error (code : String)
  | isoDate (s : String)
  | isoDuration (s : String)
  | date (x : Binary64)
  | duration (x : Binary64)
deriving DecidableEq

def errorCodes : List String :=
  ["#DIV/0!", "#N/A", "#NAME?", "#NULL!", "#NUM!", "#REF!", "#VALUE!"]

/-- Text that is to be a number stays text if it reads as none. -/
def Cell.ofNumeric (kind : Binary64 → Cell) (s : String) : Cell :=
  match Number.readBinary64 s.toList with
  | some x => kind x
  | none => .text s

/-- What a stored cell is read as; only an unknown error code is refused. -/
def Stored.read? : Stored → Option Cell
  | .blank => some .empty
  | .text s => some (.text s)
  | .number s => some (.ofNumeric .number s)
  | .boolean s => some (.boolean (s != "0"))
  | .error code => if errorCodes.contains code then some (.error code) else none
  | .isoDate s => some (.isoDate s)
  | .date s => some (.ofNumeric .date s)
  | .duration s => some (.ofNumeric .duration s)

namespace Cell

/-- A number as a cell shows it: never with an exponent, and with a point only before a
fraction. -/
def numberText : Binary64 → List Char
  | .signed negative m =>
      Number.signText negative ++
        if m = .infinity then ['i', 'n', 'f']
        else if m = .zero then ['0']
        else m.shortest.plain
  | .unordered _ _ => ['N', 'a', 'N']

def shown : Cell → List Char
  | .empty => []
  | .text s => s.toList
  | .integer n => Number.intText n.toInt
  | .number x => numberText x
  | .boolean b => if b then ['t', 'r', 'u', 'e'] else ['f', 'a', 'l', 's', 'e']
  | .error code => code.toList
  | .isoDate s => s.toList
  | .isoDuration s => s.toList
  | .date x => numberText x
  | .duration x => numberText x

end Cell

end Workbook
end InputDeck
