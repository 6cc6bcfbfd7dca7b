/-
Non-negative binary64 numbers, infinity included, as places on one scale.

Counted from zero upwards, the number with count `rank` is also the one whose low 63 bits read as
`rank`.  The first 2^52 numbers, 0x10000000000000 of them, are zero and the subnormal ones; every
further run of as many has twice the spacing of the run before, and the count of infinity is
0x7FF0000000000000.  All finite ones are whole multiples of 2^-1074, so every operation here is
exact arithmetic on natural numbers followed by one rounding, `nearest`.
-/

namespace InputDeck

structure Magnitude where
  rank : Nat
  rank_le : rank ≤ 0x7FF0000000000000
deriving DecidableEq

namespace Magnitude

def zero : Magnitude := ⟨0, by decide⟩

def infinity : Magnitude := ⟨0x7FF0000000000000, Nat.le_refl _⟩

def isFinite (m : Magnitude) : Bool := m.rank < 0x7FF0000000000000

instance : LE Magnitude := ⟨fun a b => a.rank ≤ b.rank⟩

instance : LT Magnitude := ⟨fun a b => a.rank < b.rank⟩

instance (a b : Magnitude) : Decidable (a ≤ b) := Nat.decLe a.rank b.rank

instance (a b : Magnitude) : Decidable (a < b) := Nat.decLt a.rank b.rank

/-- The number with the given count; all counts past the last finite number give infinity. -/
def ofRank (rank : Nat) : Magnitude :=
  ⟨min rank 0x7FF0000000000000, Nat.min_le_right ..⟩

/-- How many units of 2^-1074 make up the number one. -/
def oneUnits : Nat := Nat.pow 2 1074

/-- How many units of 2^-1074 make up a finite number. -/
def units (m : Magnitude) : Nat :=
  if m.rank < 0x10000000000000 then m.rank
  else
    (0x10000000000000 + m.rank % 0x10000000000000) * Nat.pow 2 (m.rank / 0x10000000000000 - 1)

/-- The whole number nearest to `num / den`; a half goes to the even neighbour. -/
def roundDiv (num den : Nat) : Nat :=
  let quotient := num / den
  let rest := num % den
  if den < 2 * rest ∨ (2 * rest = den ∧ quotient % 2 = 1) then quotient + 1 else quotient

/-- The number nearest to `num / den` units, a tie going to the even rank.  Where the spacing is
2^`shift` units, rounding to that spacing may reach the next run, and then the sum is the first
rank of that one. -/
def nearest (num den : Nat) : Magnitude :=
  let shift := (num / den).log2 - 52
  ofRank (shift * 0x10000000000000 + roundDiv num (den * Nat.pow 2 shift))

def ofNat (n : Nat) : Magnitude := nearest (n * oneUnits) 1

/-- The number nearest to `coefficient` times ten to the `exponent`.

No finite number reaches 10^309, and what lies below 10^-400 is nearest to zero, so powers of ten
of any other size are never formed. -/
def ofDecimal (coefficient : Nat) (exponent : Int) : Magnitude :=
  if coefficient = 0 then zero
  else if 309 ≤ exponent then infinity
  else if (Nat.toDigits 10 coefficient).length + exponent < -400 then zero
  else
    match exponent with
    | .ofNat e => nearest (coefficient * Nat.pow 10 e * oneUnits) 1
    | .negSucc e => nearest (coefficient * oneUnits) (Nat.pow 10 (e + 1))

/-- The product of two finite numbers, rounded once. -/
def mul (a b : Magnitude) : Magnitude := nearest (a.units * b.units) oneUnits

/-- The quotient of a finite number by a finite one other than zero, rounded once. -/
def div (a b : Magnitude) : Magnitude := nearest (a.units * oneUnits) b.units

end Magnitude

end InputDeck
