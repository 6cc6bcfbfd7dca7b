/-
Variables described by a worksheet.

Below a header every row is a name and its numbers.  A name on one row is a scalar or a vector, a
name on several rows a matrix of them.  Rows without a name are passed over.  Rows are read in the
order of the sheet, and only then are the rows of each name put together, in the order of names.
-/
import InputDeck.Fault
import InputDeck.Text.Blank
import InputDeck.Variables.Document
import InputDeck.Workbook.Sheet

namespace InputDeck
namespace Variables

open Workbook

def sheetName : String := "Variables"

def cellScalar? : Cell → Option Scalar
  | .integer n => some (.integer n)
  | .number x => some (Scalar.ofBinary64 x)
  | .text s => Scalar.ofText (Text.trim s.toList)
  | _ => none

/-- The name in the first cell of a row. -/
def rowName (cells : List Cell) : List Char :=
  match cells with
  | [] => []
  | c :: _ => Text.trim c.shown

/-- The cells with values: those behind the first, without the empty ones at the end. -/
def valueCells (cells : List Cell) : List Cell :=
  ((cells.drop 1).reverse.dropWhile (· == .empty)).reverse

def readCells (key : String) (row : Nat) : List Cell → Except Fault (List Scalar)
  | [] => .ok []
  | c :: rest =>
      match cellScalar? c with
      | none => .error (.mismatch (.cell key row (String.ofList c.shown)))
      | some s => (readCells key row rest).map (s :: ·)

/-- The numbers of a named row, of which there must be at least one. -/
def readRow (key : String) (row : Nat) (cells : List Cell) : Except Fault (List Scalar) :=
  match readCells key row (valueCells cells) with
  | .error fault => .error fault
  | .ok [] => .error (.workbook (.noValue key row))
  | .ok values => .ok values

/-- The named rows from the one with number `row` on, in the order of the sheet. -/
def namedRows : Nat → List (List Cell) → Except Fault (List (String × List Scalar))
  | _, [] => .ok []
  | row, cells :: rest =>
      match rowName cells with
      | [] => namedRows (row + 1) rest
      | name => do
          let key := String.ofList name
          let values ← readRow key row cells
          let more ← namedRows (row + 1) rest
          return (key, values) :: more

/-- The rows of each name, in the order of the sheet. -/
def groupRows (rows : List (String × List Scalar)) : Table String (List (List Scalar)) :=
  rows.foldl (fun t r => t.insert r.1 ((t.get? r.1).getD [] ++ [r.2])) ∅

def valueOfRows (key : String) (rows : List (List Scalar)) : Except Fault Value :=
  match rows with
  | [[s]] => .ok (.scalar s)
  | [items] => .ok (.vector items)
  | rows => matrixOfRows key rows

/-- Variables from the cells of a range, whose first row is the header. -/
def ofRange (range : List (List Cell)) : Except Fault Variables := do
  let rows ← namedRows 2 (range.drop 1)
  let values ← (groupRows rows).mapM valueOfRows
  return .named values

def ofWorkbook (w : Workbook) : Except Fault Variables :=
  match w.sheet? sheetName with
  | none => .error (.workbook (.missingSheet sheetName))
  | some s =>
      match s.range? with
      | none => .error .unreadableWorkbook
      | some range => ofRange range

end Variables
end InputDeck
