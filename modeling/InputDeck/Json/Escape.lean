/-
The characters of a JSON string and the escapes they are written with.

Writing escapes quotes, backslashes and control characters and nothing else.  Reading knows every
escape; a surrogate stands for a character only as half of a pair.
-/
import InputDeck.Json.Token

namespace InputDeck
namespace Json
namespace Escape

def hexDigits : List Char :=
  ['0', '1', '2', '3', '4', '5', '6', '7', '8', '9', 'a', 'b', 'c', 'd', 'e', 'f']

def hexValue (c : Char) : Nat :=
  if c.isDigit then c.toNat - '0'.toNat
  else if 'a'.toNat ≤ c.toNat then c.toNat - 'a'.toNat + 10
  else c.toNat - 'A'.toNat + 10

def unit (a b c d : Char) : Nat :=
  ((hexValue a * 16 + hexValue b) * 16 + hexValue c) * 16 + hexValue d

def isLeading (n : Nat) : Bool := 0xD800 ≤ n && n ≤ 0xDBFF

def isTrailing (n : Nat) : Bool := 0xDC00 ≤ n && n ≤ 0xDFFF

/-- The character that a letter stands for behind a backslash. -/
def ofLetter (c : Char) : Char :=
  match c with
  | 'b' => '\x08'
  | 'f' => '\x0c'
  | 'n' => '\n'
  | 'r' => '\r'
  | 't' => '\t'
  | c => c

/-- The text of a string token; none if a surrogate in it is no half of a pair. -/
def decode : List Char → Option (List Char)
  | [] => some []
  | '\\' :: 'u' :: a :: b :: c :: d :: rest =>
      let n := unit a b c d
      if isTrailing n then none
      else if isLeading n then
        match rest with
        | '\\' :: 'u' :: e :: f :: g :: h :: rest =>
            let m := unit e f g h
            if isTrailing m then
              (decode rest).map
                (Char.ofNat (0x10000 + (n - 0xD800) * 0x400 + (m - 0xDC00)) :: ·)
            else none
        | _ => none
      else (decode rest).map (Char.ofNat n :: ·)
  | '\\' :: c :: rest => (decode rest).map (ofLetter c :: ·)
  | c :: rest => (decode rest).map (c :: ·)

def encodeChar (c : Char) : List Char :=
  match c with
  | '"' => ['\\', '"']
  | '\\' => ['\\', '\\']
  | '\x08' => ['\\', 'b']
  | '\x0c' => ['\\', 'f']
  | '\n' => ['\\', 'n']
  | '\r' => ['\\', 'r']
  | '\t' => ['\\', 't']
  | c =>
      if c.toNat < 0x20 then
        ['\\', 'u', '0', '0', hexDigits.getD (c.toNat / 16) '0', hexDigits.getD (c.toNat % 16) '0']
      else [c]

/-- What a string token holds for the given text. -/
def encode (cs : List Char) : List Char := cs.flatMap encodeChar

/-- The text as a string token with its quotes. -/
def quoted (cs : List Char) : List Char := '"' :: (encode cs ++ ['"'])

end Escape
end Json
end InputDeck
