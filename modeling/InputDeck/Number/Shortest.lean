/-
The shortest decimal which reads back as a given binary64 number.

Each finite number is a whole multiple of 10^-1074.  The multiples of 10^-1074, 10^-1073, … form
ever coarser grids, and the search takes the coarsest one with a multiple that reads back as the
number.  Numbers that read alike lie next to each other, so on each grid only the two neighbours
of the exact value need to be tried, the nearer one first; of two equally near the upper one.  A
coarser grid is the same as fewer digits, and on the finest grid the exact value itself is found.
-/
import InputDeck.Number.Decimal
import InputDeck.Number.Magnitude

namespace InputDeck

namespace Magnitude

/-- A finite number as a multiple of 10^-1074. -/
def finest (m : Magnitude) : Nat := m.units * Nat.pow 5 1074

/-- The number nearest to `d * 10 ^ (grid - 1074)`. -/
def ofGrid (d grid : Nat) : Magnitude := nearest (d * Nat.pow 10 grid) (Nat.pow 5 1074)

/-- The neighbours of a finite number on a grid, the nearer one first. -/
def neighbours (m : Magnitude) (grid : Nat) : List Nat :=
  let step := Nat.pow 10 grid
  let lower := m.finest / step
  if 2 * (m.finest % step) < step then [lower, lower + 1] else [lower + 1, lower]

/-- The multiple on a grid that reads back as the given finite number, if there is one. -/
def onGrid? (m : Magnitude) (grid : Nat) : Option Nat :=
  (m.neighbours grid).find? fun d => ofGrid d grid == m

/-- What a search finds on the coarsest grid up to the given one, with that grid.  On the finest
grid there is no need to search.  The search is a parameter, so that the steps from grid to grid
can be followed without evaluating it. -/
def coarsest (finest : Nat) (search : Nat → Option Nat) : Nat → Nat × Nat
  | 0 => (finest, 0)
  | grid + 1 =>
      match search (grid + 1) with
      | some d => (d, grid + 1)
      | none => coarsest finest search grid

/-- The shortest decimal which reads back as the given finite number other than zero.  On grids
whose step exceeds ten times the number nothing reads back as it, so the search starts below
those. -/
def shortest (m : Magnitude) : Decimal :=
  let found := coarsest m.finest m.onGrid? (Nat.toDigits 10 m.finest).length
  Decimal.ofScaled found.1 (found.2 - 1074)

end Magnitude

end InputDeck
