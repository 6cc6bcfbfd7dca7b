/-
Numbers as JSON values hold them.

Whole numbers of 64 bits are kept as they are, those without a minus sign below 2^64 and those with
one down to -2^63.  All others are reals, and so is minus zero.
-/
import InputDeck.Number.Binary64

namespace InputDeck
namespace Json

inductive Number where
  | natural (n : UInt64)
  | negative (n : Int64) (neg : n.toInt < 0)
  | real (x : Binary64)
deriving DecidableEq

namespace Number

theorem toInt_ofInt_neg_lt {n : Nat} (hpos : 0 < n) (hle : n ≤ 0x8000000000000000) :
    (Int64.ofInt (-n)).toInt < 0 := by
  rw [Int64.toInt_ofInt_of_le (by omega) (by omega)]
  omega

/-- A whole number that is written with or without a minus sign, if 64 bits hold it. -/
def ofWhole? (negative : Bool) (n : Nat) : Option Number :=
  if negative then
    if h : 0 < n ∧ n ≤ 0x8000000000000000 then
      some (.negative (.ofInt (-n)) (toInt_ofInt_neg_lt h.1 h.2))
    else none
  else if n < 0x10000000000000000 then some (.natural (.ofNat n))
  else none

/-- The number as a whole one of 64 bits with a sign, if it is one. -/
def toInt64? : Number → Option Int64
  | .natural n => if n.toNat < 0x8000000000000000 then some (.ofNat n.toNat) else none
  | .negative n _ => some n
  | .real _ => none

/-- The real nearest to the number. -/
def toBinary64 : Number → Binary64
  | .natural n => .signed false (.ofNat n.toNat)
  | .negative n _ => .ofInt64 n
  | .real x => x

end Number

end Json
end InputDeck
