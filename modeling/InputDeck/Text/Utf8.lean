/-
Text as UTF-8 bytes, and the characters shown for bytes that may not be UTF-8.

For display each longest run of bytes which begins a character but does not complete it is one
replacement character, and so is every byte which can begin none.  The ranges are those of the
Unicode standard's table of well-formed byte sequences.
-/

namespace InputDeck
namespace Text

def utf8 (s : String) : List UInt8 := s.toUTF8.data.toList

def replacement : Char := '\uFFFD'

/-- A character of which some bytes are still to come: how many, the range of the next one, and
the bits read so far. -/
structure Pending where
  left : Nat
  low : UInt8
  high : UInt8
  bits : Nat

/-- What a byte at the start of a character tells. -/
inductive Lead where
  | single (c : Char)
  | first (pending : Pending)
  | none

def lead (b : UInt8) : Lead :=
  if b < 0x80 then .single (Char.ofNat b.toNat)
  else if b < 0xC2 then .none
  else if b < 0xE0 then .first ⟨1, 0x80, 0xBF, b.toNat - 0xC0⟩
  else if b < 0xF0 then
    .first ⟨2, if b = 0xE0 then 0xA0 else 0x80, if b = 0xED then 0x9F else 0xBF, b.toNat - 0xE0⟩
  else if b < 0xF5 then
    .first ⟨3, if b = 0xF0 then 0x90 else 0x80, if b = 0xF4 then 0x8F else 0xBF, b.toNat - 0xF0⟩
  else .none

def displayFrom : Option Pending → List UInt8 → List Char
  | none, [] => []
  | some _, [] => [replacement]
  | none, b :: rest =>
      match lead b with
      | .single c => c :: displayFrom none rest
      | .first p => displayFrom (some p) rest
      | .none => replacement :: displayFrom none rest
  | some p, b :: rest =>
      if p.low ≤ b ∧ b ≤ p.high then
        let bits := p.bits * 64 + (b.toNat - 0x80)
        if p.left = 1 then Char.ofNat bits :: displayFrom none rest
        else displayFrom (some ⟨p.left - 1, 0x80, 0xBF, bits⟩) rest
      else
        match lead b with
        | .single c => replacement :: c :: displayFrom none rest
        | .first q => replacement :: displayFrom (some q) rest
        | .none => replacement :: replacement :: displayFrom none rest

def display (bytes : List UInt8) : List Char := displayFrom none bytes

example : display [0x61, 0xC3, 0xA9, 0xF0, 0x9F, 0x98, 0x80] = ['a', 'é', '😀'] := by decide

example : display [0xE2, 0x82, 0x41, 0xFF, 0xC0, 0xE0, 0x80, 0xF0, 0x90] =
    [replacement, 'A', replacement, replacement, replacement, replacement, replacement] := by
  decide

end Text
end InputDeck
