/-
Settings read from JSON.

A reader asks for what it needs in the order of the text, and the first thing that does not suit
it decides: a fault of grammar, or a value of a type it cannot use, even if the text is broken
further on.  Members that are missing keep their standard values, members of other names are
skipped, and either structure may also be written as an array of its members' values in order.
-/
import InputDeck.Settings.Basic

namespace InputDeck
namespace Settings

open Json

abbrev AnalysisTypes := Table String (Option String)

def extensionsKey : List Char := "extensions".toList

def analysisTypesKey : List Char := "analysis_types".toList

def subdirectoryKey : List Char := "bem_subdirectory".toList

/-- Why a value of no suitable type is refused.  Numbers and strings are read first, and must
stand for something; arrays and objects are not looked into. -/
def refusal : Tree → JsonFault
  | .broken => .malformed
  | .number l => if l.number?.isSome then .unexpectedType else .malformed
  | .string raw => if (Escape.decode raw).isSome then .unexpectedType else .malformed
  | _ => .unexpectedType

def readKey (raw : List Char) : Except JsonFault (List Char) :=
  match Escape.decode raw with
  | some cs => .ok cs
  | none => .error .malformed

def readString : Tree → Except JsonFault String
  | .string raw => (readKey raw).map String.ofList
  | t => .error (refusal t)

/-- The end of an array or object, which has to be there. -/
def expectEnd (closed : Bool) : Except JsonFault Unit :=
  if closed then .ok () else .error .malformed

/-- A value nobody asks for. -/
def skip (t : Tree) : Except JsonFault Unit := expectEnd t.isWhole

def readStrings : Tree → Except JsonFault (List String)
  | .array items closed => do
      let strings ← items.mapM readString
      expectEnd closed
      return strings
  | t => .error (refusal t)

def readSubdirectory : Tree → Except JsonFault (Option String)
  | .null => .ok none
  | t => (readString t).map some

/-- A member that may be given once. -/
def readOnce {α : Type} (seen : Option α) (read : Tree → Except JsonFault α) (t : Tree) :
    Except JsonFault (Option α) :=
  match seen with
  | some _ => .error .unexpectedType
  | none => (read t).map some

/-- The first item of an array, if there is one. -/
def readFirst {α : Type} (read : Tree → Except JsonFault α) :
    List Tree → Except JsonFault (Option α)
  | [] => .ok none
  | t :: _ => (read t).map some

def readLayoutMembers (seen : Option (Option String)) :
    List (List Char × Tree) → Except JsonFault (Option (Option String))
  | [] => .ok seen
  | (raw, t) :: rest => do
      let key ← readKey raw
      if key = subdirectoryKey then
        readLayoutMembers (← readOnce seen readSubdirectory t) rest
      else
        skip t
        readLayoutMembers seen rest

/-- What is set for one analysis type: its subdirectory. -/
def readLayout : Tree → Except JsonFault (Option String)
  | .object members closed => do
      let subdirectory ← readLayoutMembers none members
      expectEnd closed
      return subdirectory.getD none
  | .array items closed => do
      let subdirectory ← readFirst readSubdirectory items
      expectEnd (closed && items.length ≤ 1)
      return subdirectory.getD none
  | t => .error (refusal t)

def readTypeMembers (types : AnalysisTypes) :
    List (List Char × Tree) → Except JsonFault AnalysisTypes
  | [] => .ok types
  | (raw, t) :: rest => do
      let key ← readKey raw
      let subdirectory ← readLayout t
      readTypeMembers (types.insert (String.ofList key) subdirectory) rest

def readTypes : Tree → Except JsonFault AnalysisTypes
  | .object members closed => do
      let types ← readTypeMembers ∅ members
      expectEnd closed
      return types
  | t => .error (refusal t)

def ofParts (extensions : Option (List String)) (types : Option AnalysisTypes) : Settings :=
  ⟨extensions.getD standard.extensions, types.getD standard.analysisTypes⟩

def readMembers (extensions : Option (List String)) (types : Option AnalysisTypes) :
    List (List Char × Tree) → Except JsonFault Settings
  | [] => .ok (ofParts extensions types)
  | (raw, t) :: rest => do
      let key ← readKey raw
      if key = extensionsKey then
        readMembers (← readOnce extensions readStrings t) types rest
      else if key = analysisTypesKey then
        readMembers extensions (← readOnce types readTypes t) rest
      else
        skip t
        readMembers extensions types rest

def ofTree : Tree → Except JsonFault Settings
  | .object members closed => do
      let settings ← readMembers none none members
      expectEnd closed
      return settings
  | .array items closed => do
      let extensions ← readFirst readStrings items
      let types ← readFirst readTypes (items.drop 1)
      expectEnd (closed && items.length ≤ 2)
      return ofParts extensions types
  | t => .error (refusal t)

/-- The settings that a whole text describes. -/
def ofJsonText (cs : List Char) : Except Fault Settings :=
  let (t, ended) := Tree.ofText cs
  match (do let settings ← ofTree t; expectEnd ended; return settings : Except JsonFault Settings) with
  | .ok settings => .ok settings
  | .error fault => .error (.json fault)

end Settings
end InputDeck
