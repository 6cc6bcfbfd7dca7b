/-
Decimal numbers as rows of digits, and the ways of writing one down.
-/

namespace InputDeck

namespace Number

def signText (negative : Bool) : List Char := if negative then ['-'] else []

def intText (n : Int) : List Char := signText (n < 0) ++ Nat.toDigits 10 n.natAbs

end Number

/-- The digits `d₁ d₂ … dₘ` with lead `e` stand for `d₁.d₂…dₘ * 10 ^ e`. -/
structure Decimal where
  digits : List Char
  lead : Int
deriving DecidableEq

namespace Decimal

/-- Drops the zeros at the end of a row of digits. -/
def dropFinalZeros (digits : List Char) : List Char :=
  (digits.reverse.dropWhile (· == '0')).reverse

/-- The number `coefficient * 10 ^ exponent`. -/
def ofScaled (coefficient : Nat) (exponent : Int) : Decimal :=
  let digits := Nat.toDigits 10 coefficient
  ⟨dropFinalZeros digits, digits.length - 1 + exponent⟩

/-- The digits read as one whole number. -/
def coefficient (d : Decimal) : Nat := Nat.ofDigitChars 10 d.digits 0

/-- The power of ten which that whole number is to be multiplied by. -/
def exponent (d : Decimal) : Int := d.lead + 1 - d.digits.length

/-- The digits before the point. -/
def whole (d : Decimal) : List Char :=
  match d.lead with
  | .ofNat n => d.digits.take (n + 1) ++ List.replicate (n + 1 - d.digits.length) '0'
  | .negSucc _ => ['0']

/-- The digits behind the point. -/
def fraction (d : Decimal) : List Char :=
  match d.lead with
  | .ofNat n => d.digits.drop (n + 1)
  | .negSucc n => List.replicate n '0' ++ d.digits

/-- Whole digits, then a point and the fraction if there is one. -/
def plain (d : Decimal) : List Char :=
  match d.fraction with
  | [] => d.whole
  | c :: rest => d.whole ++ '.' :: c :: rest

/-- As `plain`, but a whole number ends in `.0`. -/
def pointed (d : Decimal) : List Char :=
  match d.fraction with
  | [] => d.whole ++ ['.', '0']
  | c :: rest => d.whole ++ '.' :: c :: rest

/-- The sign of an exponent, then its digits, of which there are at least two. -/
def exponentMark (e : Int) : List Char :=
  let digits := Nat.toDigits 10 e.natAbs
  (if e < 0 then '-' else '+') :: (List.replicate (2 - digits.length) '0' ++ digits)

/-- One digit before the point, and the lead as an exponent. -/
def scientific (d : Decimal) : List Char :=
  match d.digits with
  | [] => []
  | [c] => c :: 'e' :: exponentMark d.lead
  | c :: rest => c :: '.' :: (rest ++ 'e' :: exponentMark d.lead)

end Decimal

end InputDeck
