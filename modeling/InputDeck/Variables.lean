/-
Design variables: none at all, numbered from one, or named.
-/
import InputDeck.Table
import InputDeck.Value

namespace InputDeck

inductive Variables where
  | absent
  | positional (values : List Scalar)
  | named (values : Table String Value)

namespace Variables

/-- The number of variables. -/
def size : Variables → Nat
  | .absent => 0
  | .positional values => values.length
  | .named values => values.size

end Variables

end InputDeck
