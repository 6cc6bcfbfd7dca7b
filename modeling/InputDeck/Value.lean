/-
Values of design variables and the text they put into a deck.

A row of numbers is written on one line with single spaces between them, a matrix row by row with
a line break between rows and none after the last.
-/
import InputDeck.Scalar

namespace InputDeck

inductive Value where
  | scalar (s : Scalar)
  | vector (items : List Scalar)
  | matrix (rows : List (List Scalar))
deriving DecidableEq

namespace Value

def rowText (items : List Scalar) : List Char := [' '].intercalate (items.map Scalar.text)

def text : Value → List Char
  | .scalar s => s.text
  | .vector items => rowText items
  | .matrix rows => ['\n'].intercalate (rows.map rowText)

end Value

end InputDeck
