/-
The numbers that variables are made of, and how they are written into a deck.

Whole numbers are plain decimals.  Reals have the fewest digits that read back as the same number,
always with a point or an exponent, so that they read as reals; from 10^16 on and below 10^-4 they
are written with an exponent.
-/
import InputDeck.Number.Binary64
import InputDeck.Number.Reading
import InputDeck.Number.Shortest

namespace InputDeck

inductive Scalar where
  | integer (value : Int64)
  | real (value : Binary64)
deriving DecidableEq

namespace Magnitude

def scientificFrom : Magnitude := ofDecimal 1 16

def scientificBelow : Magnitude := ofDecimal 1 (-4)

def text (m : Magnitude) : List Char :=
  if m = infinity then ['i', 'n', 'f']
  else if m = zero then ['0', '.', '0']
  else if scientificFrom ≤ m ∨ m < scientificBelow then m.shortest.scientific
  else m.shortest.pointed

end Magnitude

namespace Scalar

def text : Scalar → List Char
  | .integer n => Number.intText n.toInt
  | .real (.signed negative m) => Number.signText negative ++ m.text
  | .real (.unordered _ _) => ['n', 'a', 'n']

/-- A scalar from a piece of text: a whole number if it reads as one, else a real. -/
def ofText (cs : List Char) : Option Scalar :=
  ((Number.readInt64 cs).map integer).or ((Number.readBinary64 cs).map real)

/-- A real which is a whole number of 64 bits becomes that whole number.  The greatest of these is
no real itself; the real nearest to it is the first that is too large. -/
def ofBinary64 (x : Binary64) : Scalar :=
  if x.isFinite && x.isWhole && (Binary64.ofInt64 .minValue).le x && x.lt (.ofInt64 .maxValue) then
    .integer x.toInt64
  else .real x

example : (ofText "1e16".toList).map text = some "1e+16".toList := by decide +kernel

example : (ofText "9999999999999998.0".toList).map text = some "9999999999999998.0".toList := by
  decide +kernel

example : (ofText "0.0001".toList).map text = some "0.0001".toList := by decide +kernel

example : (ofText "0.00009999".toList).map text = some "9.999e-05".toList := by decide +kernel

example : (ofText "-0.0".toList).map text = some "-0.0".toList := by decide +kernel

example : (ofText "-12".toList).map text = some "-12".toList := by decide +kernel

/-- Between 2.9802322387695312e-08 and 2.9802322387695313e-08 this number is exactly half-way. -/
example : (ofText "2.98023223876953125e-8".toList).map text =
    some "2.9802322387695313e-08".toList := by
  decide +kernel

end Scalar

end InputDeck
