/-
The tokens of a JSON text.

`next` reads one token, after any white space, and `tokens` reads on until the text ends or goes on
in a way no token does; that place is the last token, `fault`.  String tokens hold what stands
between the quotes as it is written, escapes included.
-/
import InputDeck.Json.Literal

namespace InputDeck
namespace Json

inductive Token where
  | openArray
  | closeArray
  | openObject
  | closeObject
  | comma
  | colon
  | null
  | boolean (b : Bool)
  | number (l : Literal)
  | string (raw : List Char)
  | fault
deriving DecidableEq

namespace Token

def isSpace (c : Char) : Bool := c == ' ' || c == '\t' || c == '\n' || c == '\r'

def isHexDigit (c : Char) : Bool :=
  c.isDigit || ('a'.toNat ≤ c.toNat && c.toNat ≤ 'f'.toNat) ||
    ('A'.toNat ≤ c.toNat && c.toNat ≤ 'F'.toNat)

/-- The characters which stand behind a backslash on their own. -/
def isEscape (c : Char) : Bool :=
  c == '"' || c == '\\' || c == '/' || c == 'b' || c == 'f' || c == 'n' || c == 'r' || c == 't'

/-- Splits the text behind an opening quote at the closing one.  Control characters may not stand
in a string, and neither may a backslash that begins no escape. -/
def splitString : List Char → Option (List Char × List Char)
  | [] => none
  | '"' :: rest => some ([], rest)
  | '\\' :: 'u' :: a :: b :: c :: d :: rest =>
      if isHexDigit a && isHexDigit b && isHexDigit c && isHexDigit d then
        (splitString rest).map fun (raw, rest) => ('\\' :: 'u' :: a :: b :: c :: d :: raw, rest)
      else none
  | '\\' :: c :: rest =>
      if isEscape c then (splitString rest).map fun (raw, rest) => ('\\' :: c :: raw, rest)
      else none
  | c :: rest =>
      if c.toNat < 0x20 || c == '\\' then none
      else (splitString rest).map fun (raw, rest) => (c :: raw, rest)

/-- The digits before the point: a zero, or digits that do not begin with one. -/
def splitWhole (cs : List Char) : Option (List Char × List Char) :=
  match cs.takeWhile Char.isDigit, cs.dropWhile Char.isDigit with
  | [], _ => none
  | ['0'], rest => some (['0'], rest)
  | '0' :: _, _ => none
  | digits, rest => some (digits, rest)

/-- A point with digits behind it, if there is a point. -/
def splitFraction : List Char → Option (Option (List Char) × List Char)
  | '.' :: rest =>
      match rest.takeWhile Char.isDigit with
      | [] => none
      | digits => some (some digits, rest.dropWhile Char.isDigit)
  | rest => some (none, rest)

/-- An exponent mark with an optional sign and digits behind it, if there is a mark. -/
def splitExponent : List Char → Option (Option ExponentPart × List Char)
  | [] => some (none, [])
  | c :: rest =>
      if c = 'e' ∨ c = 'E' then
        let (negative, rest) := Number.splitSign rest
        match rest.takeWhile Char.isDigit with
        | [] => none
        | digits => some (some ⟨negative, digits⟩, rest.dropWhile Char.isDigit)
      else some (none, c :: rest)

def splitUnsigned (negative : Bool) (cs : List Char) : Option (Literal × List Char) := do
  let (whole, rest) ← splitWhole cs
  let (fraction, rest) ← splitFraction rest
  let (exponent, rest) ← splitExponent rest
  return (⟨negative, whole, fraction, exponent⟩, rest)

/-- The longest number literal at the start of the text. -/
def splitLiteral : List Char → Option (Literal × List Char)
  | '-' :: rest => splitUnsigned true rest
  | cs => splitUnsigned false cs

/-- The token at the start of a text that begins with no white space. -/
def first : List Char → Option (Token × List Char)
  | [] => none
  | '[' :: rest => some (openArray, rest)
  | ']' :: rest => some (closeArray, rest)
  | '{' :: rest => some (openObject, rest)
  | '}' :: rest => some (closeObject, rest)
  | ',' :: rest => some (comma, rest)
  | ':' :: rest => some (colon, rest)
  | 'n' :: 'u' :: 'l' :: 'l' :: rest => some (null, rest)
  | 't' :: 'r' :: 'u' :: 'e' :: rest => some (boolean true, rest)
  | 'f' :: 'a' :: 'l' :: 's' :: 'e' :: rest => some (boolean false, rest)
  | '"' :: rest =>
      match splitString rest with
      | some (raw, rest) => some (string raw, rest)
      | none => some (fault, [])
  | cs =>
      match splitLiteral cs with
      | some (l, rest) => some (number l, rest)
      | none => some (fault, [])

def next (cs : List Char) : Option (Token × List Char) := first (cs.dropWhile isSpace)

/-- At most the given number of tokens. -/
def take : Nat → List Char → List Token
  | 0, _ => []
  | count + 1, cs =>
      match next cs with
      | none => []
      | some (t, rest) => t :: take count rest

end Token

/-- The tokens of a text.  Each has a character of its own, so the length of the text bounds
their number. -/
def tokens (cs : List Char) : List Token := Token.take cs.length cs

end Json
end InputDeck
