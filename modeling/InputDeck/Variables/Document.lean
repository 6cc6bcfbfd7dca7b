/-
Variables described by a JSON document.

`null` is no variables, an array of numbers numbered variables, and an object named ones, each of
them a number, an array of numbers or an array of equally long arrays of numbers.  Of a repeated
name the last value counts, and of several bad ones the smallest name is reported.
-/
import InputDeck.Fault
import InputDeck.Variables

namespace InputDeck
namespace Variables

/-- A number of a document as a scalar.  Whole numbers beyond 64 bits with a sign become the reals
nearest to them. -/
def scalarOf (n : Json.Number) : Scalar :=
  match n.toInt64? with
  | some i => .integer i
  | none => .real n.toBinary64

theorem scalarOf_natural (n : UInt64) :
    scalarOf (.natural n) =
      if n.toNat < 0x8000000000000000 then .integer (.ofNat n.toNat)
      else .real (.signed false (.ofNat n.toNat)) := by
  rw [scalarOf, Json.Number.toInt64?]
  by_cases h : n.toNat < 0x8000000000000000
  · rw [if_pos h, if_pos h]
  · rw [if_neg h, if_neg h, Json.Number.toBinary64]

def number? : Json.Value → Option Scalar
  | .number n => some (scalarOf n)
  | _ => none

/-- The numbers of a row of a named variable. -/
def readNumbers (key : String) : List Json.Value → Except Fault (List Scalar)
  | [] => .ok []
  | item :: rest =>
      match number? item with
      | none => .error (.mismatch (.element key item.kind))
      | some s => (readNumbers key rest).map (s :: ·)

def readRows (key : String) : List Json.Value → Except Fault (List (List Scalar))
  | [] => .ok []
  | .array items :: rest => do
      let row ← readNumbers key items
      let rows ← readRows key rest
      return row :: rows
  | item :: _ => .error (.mismatch (.element key item.kind))

def sameLengths (rows : List (List Scalar)) : Bool :=
  match rows with
  | [] => true
  | row :: rest => rest.all fun other => other.length == row.length

/-- The rows of a matrix, provided that they are equally long. -/
def matrixOfRows (key : String) (rows : List (List Scalar)) : Except Fault Value :=
  if sameLengths rows then .ok (.matrix rows) else .error (.mismatch (.rowLengths key))

/-- One array among the items makes all of them rows of a matrix. -/
def readValue (key : String) : Json.Value → Except Fault Value
  | .number n => .ok (.scalar (scalarOf n))
  | .array items =>
      if items.any fun item => item.kind == .array then
        (readRows key items).bind (matrixOfRows key)
      else (readNumbers key items).map .vector
  | v => .error (.mismatch (.element key v.kind))

/-- Numbered variables from `index` on. -/
def readPositional : Nat → List Json.Value → Except Fault (List Scalar)
  | _, [] => .ok []
  | index, item :: rest =>
      match number? item with
      | none => .error (.mismatch (.positional index item.kind))
      | some s => (readPositional (index + 1) rest).map (s :: ·)

def ofDocument : Json.Value → Except Fault Variables
  | .null => .ok .absent
  | .array items => (readPositional 1 items).map .positional
  | .object members => ((Table.ofList members).mapM readValue).map .named
  | v => .error (.mismatch (.document v.kind))

def ofJsonText (cs : List Char) : Except Fault Variables :=
  match Json.Value.ofText? cs with
  | none => .error (.json .malformed)
  | some v => ofDocument v

end Variables
end InputDeck
