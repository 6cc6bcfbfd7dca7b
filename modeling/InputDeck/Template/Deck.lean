/-
Whole templates: a text is cut into lines, and the lines with markers are substituted one by one.
-/
import InputDeck.Template.Line

namespace InputDeck
namespace Template

/-- The lines of a text, each with the line feed that ends it. -/
def lines : List Char → List (List Char)
  | [] => []
  | c :: rest =>
      if c = '\n' then [c] :: lines rest
      else
        match lines rest with
        | [] => [[c]]
        | line :: more => (c :: line) :: more

theorem flatten_lines (cs : List Char) : (lines cs).flatten = cs := by
  induction cs with
  | nil => rfl
  | cons c rest ih =>
      unfold lines
      split
      · simp [ih]
      · split
        · rename_i h
          rw [h] at ih
          simp [← ih]
        · rename_i line more h
          rw [h] at ih
          simp [← ih]

def substituteIfMarked (vars : Variables) (place : Place) (line : List Char) :
    Except Fault (List Char) :=
  if hasMarker line then substitute vars place line else .ok line

/-- Substitutes lines numbered from `number` on; the first that fails ends the pass. -/
def substituteLines (vars : Variables) (file : String) :
    Nat → List (List Char) → Except Fault (List (List Char))
  | _, [] => .ok []
  | number, line :: rest => do
      let line ← substituteIfMarked vars ⟨file, number⟩ line
      let rest ← substituteLines vars file (number + 1) rest
      return line :: rest

end Template

/-- The lines of a template and what they become, under the template's file name. -/
structure Deck where
  fileName : FileName
  template : List (List Char)
  substituted : List (List Char)
deriving DecidableEq

namespace Deck

def contents (d : Deck) : List Char := d.substituted.flatten

/-- The deck made from the text of a template.  Faults name the template by its path; so does the
deck itself if the path ends in no file name. -/
def ofTemplate (vars : Variables) (path : Path) (text : List Char) : Except Fault Deck := do
  let shown := path.display
  let template := Template.lines text
  let substituted ← Template.substituteLines vars shown 1 template
  return ⟨path.fileName.getD (Text.utf8 shown), template, substituted⟩

end Deck

end InputDeck
