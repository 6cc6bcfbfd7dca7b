/-
Number literals of JSON and the numbers they stand for.

Whole numbers of 64 bits are kept as they are.  Other literals become reals from at most
64 bits of their digits and one power of ten, with a rounding for each step, so a real read from
many digits need not be the nearest one to what is written.  A literal too large for a real stands
for nothing.
-/
import InputDeck.Json.Number
import InputDeck.Number.Reading

namespace InputDeck
namespace Json

/-- The explicit exponent of a literal. -/
structure ExponentPart where
  negative : Bool
  digits : List Char
deriving DecidableEq

namespace ExponentPart

/-- The value of an exponent of at most 31 bits. -/
def value? (e : ExponentPart) : Option Int :=
  let n := Number.ofDigits e.digits
  if n < 0x80000000 then some (Number.signed e.negative n) else none

end ExponentPart

structure Literal where
  negative : Bool
  whole : List Char
  fraction : Option (List Char)
  exponent : Option ExponentPart
deriving DecidableEq

/-- The digits kept of a number and the power of ten that goes with them. -/
structure Significand where
  digits : Nat
  exponent : Int
deriving DecidableEq

namespace Significand

/-- The digits kept are at most those of 64 bits. -/
def limit : Nat := 0x10000000000000000

/-- Takes in digits before the point.  From the first one that does not fit on they only count as
factors of ten. -/
def takeWhole (n : Nat) : List Char → Significand
  | [] => ⟨n, 0⟩
  | c :: rest =>
      let next := n * 10 + (c.toNat - '0'.toNat)
      if next < limit then takeWhole next rest else ⟨n, rest.length + 1⟩

/-- Takes in digits behind the point, up to the first one that does not fit. -/
def takeFraction (s : Significand) : List Char → Significand
  | [] => s
  | c :: rest =>
      let next := s.digits * 10 + (c.toNat - '0'.toNat)
      if next < limit then takeFraction ⟨next, s.exponent - 1⟩ rest else s

/-- Divides by 10^308 the given number of times, or until nothing is left. -/
def sink : Nat → Magnitude → Magnitude
  | 0, m => m
  | count + 1, m => if m = .zero then m else sink count (m.div (.ofDecimal 1 308))

/-- The digits scaled by the power of ten, one rounding for each step.  `none` is overflow. -/
def scaled (s : Significand) : Option Magnitude :=
  let m := Magnitude.ofNat s.digits
  match s.exponent with
  | .ofNat e =>
      if e ≤ 308 then
        let product := m.mul (.ofDecimal 1 e)
        if product = .infinity then none else some product
      else if m = .zero then some m
      else none
  | .negSucc e => some ((sink (e / 308) m).div (.ofDecimal 1 (e % 308 + 1 : Nat)))

end Significand

namespace Literal

def significand (l : Literal) : Significand :=
  (Significand.takeWhole 0 l.whole).takeFraction (l.fraction.getD [])

/-- The magnitude of a literal read as a real.  An exponent of more than 31 bits is an overflow if
it is positive, unless all digits kept are zero, and gives zero otherwise. -/
def magnitude? (l : Literal) : Option Magnitude :=
  let s := l.significand
  match l.exponent with
  | none => s.scaled
  | some e =>
      match e.value? with
      | some n => { s with exponent := s.exponent + n }.scaled
      | none => if s.digits = 0 ∨ e.negative then some .zero else none

/-- A literal without point and exponent. -/
def isWhole (l : Literal) : Bool := l.fraction.isNone && l.exponent.isNone

/-- The whole number that the literal is written as, if 64 bits hold it. -/
def whole? (l : Literal) : Option Number :=
  if l.isWhole then Number.ofWhole? l.negative (Number.ofDigits l.whole) else none

def number? (l : Literal) : Option Number :=
  l.whole?.or (l.magnitude?.map fun m => .real (.signed l.negative m))

end Literal

end Json
end InputDeck
