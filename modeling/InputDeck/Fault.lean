/-
What can go wrong, as causes, and the one place where they are put into words.
-/
import InputDeck.Json.Value
import InputDeck.Path

namespace InputDeck

/-- A line of a template, for telling where a fault lies. -/
structure Place where
  file : String
  line : Nat
deriving DecidableEq

/-- Refusals of the file system. -/
inductive FileFault where
  | notFound
  | notADirectory
  | isADirectory
  | alreadyExists
  | invalidText
  | invalidPath
  | nameTooLong
  | tooManyLinks
  | other (description : String)
deriving DecidableEq

/-- Why a document or a sheet does not describe variables. -/
inductive Mismatch where
  | document (found : Json.Kind)
  | positional (index : Nat) (found : Json.Kind)
  | element (key : String) (found : Json.Kind)
  | cell (key : String) (row : Nat) (shown : String)
  | rowLengths (key : String)
deriving DecidableEq

inductive WorkbookFault where
  | missingSheet (name : String)
  | noValue (key : String) (row : Nat)
deriving DecidableEq

inductive JsonFault where
  | malformed
  | unexpectedType
deriving DecidableEq

inductive Fault where
  | file (fault : FileFault)
  | json (fault : JsonFault)
  | unreadableWorkbook
  | unbalanced (place : Place)
  | missingKey (key : String) (place : Place)
  | indexOutOfRange (index : Int) (size : Nat) (place : Place)
  | notAnIndex (token : String) (place : Place)
  | mismatch (cause : Mismatch)
  | unknownAnalysis (name : String)
  | unknownFormat (path : Path)
  | workbook (fault : WorkbookFault)
  | noSuchInput (path : Path)
deriving DecidableEq

namespace FileFault

def message : FileFault → String
  | .notFound => "No such file or directory (os error 2)"
  | .notADirectory => "Not a directory (os error 20)"
  | .isADirectory => "Is a directory (os error 21)"
  | .alreadyExists => "File exists (os error 17)"
  | .invalidText => "stream did not contain valid UTF-8"
  | .invalidPath => "file name contained an unexpected NUL byte"
  | .nameTooLong => "File name too long (os error 36)"
  | .tooManyLinks => "Too many levels of symbolic links (os error 40)"
  | .other description => description

end FileFault

namespace Mismatch

def message : Mismatch → String
  | .document found =>
      s!"variable source is {found.description}, expected an array or an object"
  | .positional index found =>
      s!"positional variable {index} is {found.description}, expected a number"
  | .element key found => s!"variable '{key}' contains {found.description}, expected numbers"
  | .cell key row shown =>
      s!"variable '{key}' on sheet row {row} contains '{shown}', expected a number"
  | .rowLengths key => s!"variable '{key}' has rows of different lengths"

end Mismatch

namespace WorkbookFault

def message : WorkbookFault → String
  | .missingSheet name => s!"missing sheet '{name}'"
  | .noValue key row => s!"variable '{key}' on sheet row {row} has no value"

end WorkbookFault

namespace JsonFault

def message : JsonFault → String
  | .malformed => "malformed document"
  | .unexpectedType => "a value of another type was expected"

end JsonFault

namespace Place

def message (p : Place) : String := s!"on line number {p.line} in input file {p.file}"

end Place

namespace Fault

def message : Fault → String
  | .file fault => s!"I/O error: {fault.message}"
  | .json fault => s!"JSON error: {fault.message}"
  | .unreadableWorkbook => "Excel read error: the file is no readable workbook"
  | .unbalanced place =>
      s!"check line number {place.line} in file {place.file} for proper substitution formatting"
  | .missingKey key place => s!"missing key '{key}' {place.message}"
  | .indexOutOfRange index size place =>
      s!"variable index {index} is out of range (1..={size}) {place.message}"
  | .notAnIndex token place => s!"'{token}' is not a variable index {place.message}"
  | .mismatch cause => s!"variable source type mismatch: {cause.message}"
  | .unknownAnalysis name => s!"unknown analysis type '{name}'"
  | .unknownFormat path => s!"unsupported variable file format: {path.display}"
  | .workbook fault => s!"invalid workbook structure: {fault.message}"
  | .noSuchInput path => s!"input not found: {path.display}"

end Fault

end InputDeck
