/-
Settings written as JSON: every member in its place, without spaces.
-/
import InputDeck.Settings.Reader

namespace InputDeck
namespace Settings

open Json

def bracketed (left right : Char) (items : List (List Char)) : List Char :=
  left :: ([','].intercalate items ++ [right])

/-- A member of an object. -/
def member (key value : List Char) : List Char := Escape.quoted key ++ ':' :: value

def subdirectoryText : Option String → List Char
  | none => ['n', 'u', 'l', 'l']
  | some s => Escape.quoted s.toList

def layoutText (subdirectory : Option String) : List Char :=
  bracketed '{' '}' [member subdirectoryKey (subdirectoryText subdirectory)]

def text (s : Settings) : List Char :=
  let extensions := s.extensions.map fun e => Escape.quoted e.toList
  let types := s.analysisTypes.entries.map fun e => member e.1.toList (layoutText e.2)
  bracketed '{' '}'
    [member extensionsKey (bracketed '[' ']' extensions),
      member analysisTypesKey (bracketed '{' '}' types)]

end Settings
end InputDeck
