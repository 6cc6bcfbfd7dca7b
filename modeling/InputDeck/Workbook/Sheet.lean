/-
Worksheets and the part of them that is in use.

The range of a sheet is the smallest rectangle around its used cells.  Rows and columns before it
do not exist for a reader; inside it every row has the same number of cells, and those without
contents are empty.
-/
import InputDeck.Workbook.Cell

namespace InputDeck

namespace Workbook

structure Sheet where
  name : String
  rows : List (List Stored)
deriving DecidableEq

namespace Sheet

def isBlankRow (row : List Stored) : Bool := row.all (· == .blank)

/-- The column of the first used cell. -/
def rowStart (row : List Stored) : Nat := (row.takeWhile (· == .blank)).length

/-- The column behind the last used cell. -/
def rowEnd (row : List Stored) : Nat := (row.reverse.dropWhile (· == .blank)).length

/-- The rows without the blank ones at both ends. -/
def usedRows (rows : List (List Stored)) : List (List Stored) :=
  ((rows.dropWhile isBlankRow).reverse.dropWhile isBlankRow).reverse

/-- The smallest rectangle around the used cells. -/
def usedCells (s : Sheet) : List (List Stored) :=
  let rows := usedRows s.rows
  let left := (((rows.filter fun row => !isBlankRow row).map rowStart).min?).getD 0
  let right := ((rows.map rowEnd).max?).getD 0
  rows.map fun row => (List.range (right - left)).map fun column => row.getD (left + column) .blank

/-- The range of the sheet, if every cell in it can be read. -/
def range? (s : Sheet) : Option (List (List Cell)) :=
  s.usedCells.mapM fun row => row.mapM Stored.read?

end Sheet

end Workbook

/-- A workbook holds sheets in their order; several of them may have one name. -/
structure Workbook where
  sheets : List Workbook.Sheet
deriving DecidableEq

namespace Workbook

def sheet? (w : Workbook) (name : String) : Option Sheet :=
  w.sheets.find? fun s => s.name == name

end Workbook

end InputDeck
