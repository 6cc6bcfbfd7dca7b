/-
JSON values, with the numbers that literals stand for and strings as text.
-/
import InputDeck.Json.Escape
import InputDeck.Json.Tree

namespace InputDeck
namespace Json

inductive Value where
  | null
  | boolean (b : Bool)
  | number (n : Number)
  | string (s : String)
  | array (items : List Value)
  | object (members : List (String × Value))

/-- What a value is, for telling a reader what was found. -/
inductive Kind where
  | null
  | boolean
  | number
  | string
  | array
  | object
deriving DecidableEq

def Kind.description : Kind → String
  | .null => "null"
  | .boolean => "a boolean"
  | .number => "a number"
  | .string => "a string"
  | .array => "an array"
  | .object => "an object"

namespace Value

def kind : Value → Kind
  | .null => .null
  | .boolean _ => .boolean
  | .number _ => .number
  | .string _ => .string
  | .array _ => .array
  | .object _ => .object

/-- How deep arrays and objects may lie in each other. -/
def depthLimit : Nat := 127

mutual

/-- The value of a tree that goes at most `depth` arrays and objects deep, if the tree is complete
and its numbers and strings stand for something. -/
def ofTree? : Nat → Tree → Option Value
  | _, .null => some .null
  | _, .boolean b => some (.boolean b)
  | _, .number l => l.number?.map .number
  | _, .string raw => (Escape.decode raw).map fun cs => .string (String.ofList cs)
  | 0, .array _ _ => none
  | depth + 1, .array items closed =>
      if closed then (ofItems? depth items).map .array else none
  | 0, .object _ _ => none
  | depth + 1, .object members closed =>
      if closed then (ofMembers? depth members).map .object else none
  | _, .broken => none

def ofItems? : Nat → List Tree → Option (List Value)
  | _, [] => some []
  | depth, t :: rest => do return (← ofTree? depth t) :: (← ofItems? depth rest)

def ofMembers? : Nat → List (List Char × Tree) → Option (List (String × Value))
  | _, [] => some []
  | depth, (key, t) :: rest => do
      return (String.ofList (← Escape.decode key), ← ofTree? depth t) :: (← ofMembers? depth rest)

end

/-- The value that a whole text stands for. -/
def ofText? (cs : List Char) : Option Value :=
  let (t, ended) := Tree.ofText cs
  if ended then ofTree? depthLimit t else none

end Value

end Json
end InputDeck
