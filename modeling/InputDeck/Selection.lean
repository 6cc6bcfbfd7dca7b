/-
Which files of a directory are templates, told by their extensions.
-/
import InputDeck.Path

namespace InputDeck

/-- The extensions of templates, as bytes and without leading dots. -/
structure Selection where
  extensions : List (List UInt8)
deriving DecidableEq

namespace Selection

/-- The extensions of the solver's input files. -/
def solverExtensions : List String :=
  ["pot", "gdf", "frc", "spl", "wam", "cfg", "ms2", "csf", "bpi", "rao", "dmp", "txt"]

/-- Extensions may be written with leading dots.  Nothing but dots is no extension. -/
def ofExtensions (extensions : List String) : Selection :=
  ⟨(extensions.map fun e => (Text.utf8 e).dropWhile (· == Path.dot)).filter (· ≠ [])⟩

def standard : Selection := ofExtensions solverExtensions

/-- Whether the path has one of the extensions.  Letter case matters. -/
def admits (s : Selection) (p : Path) : Bool :=
  match p.extension with
  | some e => s.extensions.contains e
  | none => false

end Selection

end InputDeck
