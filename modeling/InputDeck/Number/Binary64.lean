/-
Binary64 numbers: a sign and a magnitude, or no number at all.

What is no number has a sign and bits of its own, too, and keeps them, so that every pattern of 64
bits is one value here.  Nothing that is written tells one of these patterns from another.
-/
import InputDeck.Number.Magnitude

namespace InputDeck

/-- The fraction of a pattern that stands for no number: 52 bits, of which one is set. -/
structure Payload where
  bits : Nat
  bits_pos : 0 < bits
  bits_lt : bits < 0x10000000000000
deriving DecidableEq

inductive Binary64 where
  | signed (negative : Bool) (magnitude : Magnitude)
  | unordered (negative : Bool) (payload : Payload)
deriving DecidableEq

namespace Binary64

/-- What the word `nan` stands for behind a sign: only the highest bit of the fraction is set. -/
@[match_pattern]
def quiet (negative : Bool) : Binary64 :=
  .unordered negative ⟨0x8000000000000, by decide, by decide⟩

@[match_pattern]
def nan : Binary64 := quiet false

/-- The number with the given 64 bits, as an unsigned whole number. -/
def ofBits (bits : Nat) : Binary64 :=
  if h : bits % 0x8000000000000000 ≤ 0x7FF0000000000000 then
    .signed (0x8000000000000000 ≤ bits) ⟨bits % 0x8000000000000000, h⟩
  else
    .unordered (0x8000000000000000 ≤ bits)
      ⟨bits % 0x8000000000000000 - 0x7FF0000000000000, by omega, by omega⟩

/-- The bits below the sign. -/
def lowBits : Binary64 → Nat
  | .signed _ m => m.rank
  | .unordered _ payload => 0x7FF0000000000000 + payload.bits

def isNegative : Binary64 → Bool
  | .signed negative _ => negative
  | .unordered negative _ => negative

def toBits (x : Binary64) : Nat := (if x.isNegative then 0x8000000000000000 else 0) + x.lowBits

def isFinite : Binary64 → Bool
  | .signed _ m => m.isFinite
  | .unordered _ _ => false

/-- Where a number stands in the order of numbers.  Both zeros stand at zero, and what is no number
stands nowhere. -/
def place? : Binary64 → Option Int
  | .signed negative m => some (if negative then -(m.rank : Int) else m.rank)
  | .unordered _ _ => none

/-- Whether a number stands before another one or at its place. -/
def le (x y : Binary64) : Bool :=
  match x.place?, y.place? with
  | some a, some b => a ≤ b
  | _, _ => false

def lt (x y : Binary64) : Bool :=
  match x.place?, y.place? with
  | some a, some b => a < b
  | _, _ => false

/-- Whether a finite number has nothing behind the point. -/
def isWhole : Binary64 → Bool
  | .signed _ m => m.units % Magnitude.oneUnits = 0
  | .unordered _ _ => false

/-- The number nearest to a whole one. -/
def ofInt64 (n : Int64) : Binary64 := .signed (n.toInt < 0) (.ofNat n.toInt.natAbs)

/-- The whole number before the point, or the end of the range that it is beyond.  For what is no
number it is zero. -/
def toInt64 : Binary64 → Int64
  | .signed negative m =>
      let n : Int := (m.units / Magnitude.oneUnits : Nat)
      .ofInt (max Int64.minValue.toInt (min Int64.maxValue.toInt (if negative then -n else n)))
  | .unordered _ _ => 0

end Binary64

end InputDeck
