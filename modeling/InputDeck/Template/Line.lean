/-
Substitution in one line of a template.

A token is the text between two markers.  `step` puts the value of the first token in its place,
markers and all, and `substitute` takes such steps until no marker is left.  No value is written
with a marker, so each step leaves two markers fewer and half their number bounds the steps.
-/
import InputDeck.Fault
import InputDeck.Text.Blank
import InputDeck.Variables

namespace InputDeck
namespace Template

def marker : Char := '?'

def hasMarker (line : List Char) : Bool := line.contains marker

/-- The number that a token stands for among numbered variables.  Blanks around the index do not
count. -/
def resolveIndex (values : List Scalar) (place : Place) (token : List Char) :
    Except Fault Scalar :=
  match Number.readInt64 (Text.trim token) with
  | none => .error (.notAnIndex (String.ofList token) place)
  | some n =>
      match if 1 ≤ n.toInt then values[(n.toInt - 1).toNat]? else none with
      | none => .error (.indexOutOfRange n.toInt values.length place)
      | some s => .ok s

/-- The value that a token stands for among named variables. -/
def resolveKey (values : Table String Value) (place : Place) (token : List Char) :
    Except Fault Value :=
  match values.get? (String.ofList token) with
  | none => .error (.missingKey (String.ofList token) place)
  | some v => .ok v

/-- The text that takes the place of a token; none if there are no variables to look in. -/
def resolve (vars : Variables) (place : Place) (token : List Char) :
    Except Fault (Option (List Char)) :=
  match vars with
  | .absent => .ok none
  | .positional values => (resolveIndex values place token).map fun s => some s.text
  | .named values => (resolveKey values place token).map fun v => some v.text

/-- The line after its first token has given way to its value; none if the line is to stay. -/
def step (vars : Variables) (place : Place) (line : List Char) :
    Except Fault (Option (List Char)) :=
  match line.splitOn marker with
  | before :: token :: rest =>
      if rest.length % 2 = 0 then .error (.unbalanced place)
      else (resolve vars place token).map fun text =>
        text.map fun text => before ++ text ++ [marker].intercalate rest
  | _ => .ok none

/-- At most the given number of steps. -/
def takeSteps (vars : Variables) (place : Place) : Nat → List Char → Except Fault (List Char)
  | 0, line => .ok line
  | count + 1, line =>
      match step vars place line with
      | .error fault => .error fault
      | .ok none => .ok line
      | .ok (some line) => takeSteps vars place count line

def substitute (vars : Variables) (place : Place) (line : List Char) :
    Except Fault (List Char) :=
  takeSteps vars place (line.count marker / 2 + 1) line

end Template
end InputDeck
