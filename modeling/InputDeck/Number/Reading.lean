/-
Numbers read from text.

Whole numbers are an optional sign and decimal digits.  Binary64 numbers may have a point and an
exponent as well, or be one of the words for infinity and `nan`; the value read is the nearest one
to what is written, however many digits there are.
-/
import InputDeck.Number.Binary64

namespace InputDeck
namespace Number

/-- Whether the text starts with a minus sign, and the text behind a sign of either kind. -/
def splitSign : List Char → Bool × List Char
  | '-' :: rest => (true, rest)
  | '+' :: rest => (false, rest)
  | cs => (false, cs)

def ofDigits (cs : List Char) : Nat := Nat.ofDigitChars 10 cs 0

def isDigits (cs : List Char) : Bool := cs ≠ [] && cs.all Char.isDigit

def signed (negative : Bool) (n : Nat) : Int := if negative then -n else n

def readInt (cs : List Char) : Option Int :=
  let (negative, digits) := splitSign cs
  if isDigits digits then some (signed negative (ofDigits digits)) else none

/-- A whole number as one of 64 bits with a sign, if it fits. -/
def int64? (n : Int) : Option Int64 :=
  if -0x8000000000000000 ≤ n ∧ n < 0x8000000000000000 then some (Int64.ofInt n) else none

def readInt64 (cs : List Char) : Option Int64 := (readInt cs).bind int64?

/-- The explicit exponent at the end of a number: nothing, or a mark and a whole number. -/
def readExponent : List Char → Option Int
  | [] => some 0
  | c :: rest => if c = 'e' ∨ c = 'E' then readInt rest else none

/-- A number written with digits.  The point may stand anywhere among them. -/
def readMagnitude (cs : List Char) : Option Magnitude :=
  let whole := cs.takeWhile Char.isDigit
  let (fraction, rest) :=
    match cs.dropWhile Char.isDigit with
    | '.' :: rest => (rest.takeWhile Char.isDigit, rest.dropWhile Char.isDigit)
    | rest => ([], rest)
  if whole = [] ∧ fraction = [] then none
  else (readExponent rest).map fun e =>
    Magnitude.ofDecimal (ofDigits (whole ++ fraction)) (e - fraction.length)

/-- The words for numbers that digits cannot write; letter case does not matter. -/
def readWord (negative : Bool) (cs : List Char) : Option Binary64 :=
  let word := cs.map Char.toLower
  if word = ['i', 'n', 'f'] ∨ word = ['i', 'n', 'f', 'i', 'n', 'i', 't', 'y'] then
    some (.signed negative .infinity)
  else if word = ['n', 'a', 'n'] then some (.quiet negative)
  else none

def readBinary64 (cs : List Char) : Option Binary64 :=
  let (negative, body) := splitSign cs
  (readWord negative body).or ((readMagnitude body).map (Binary64.signed negative))

end Number
end InputDeck
