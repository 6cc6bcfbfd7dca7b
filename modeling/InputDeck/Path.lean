/-
Paths of files, as bytes.

A path is kept as it was written; only what it names is worked out from its parts.  Slashes
separate parts, empty parts count for nothing, and neither does the part `.` unless it stands
first in a relative path.
-/
import InputDeck.Text.Utf8

namespace InputDeck

abbrev FileName := List UInt8

structure Path where
  bytes : List UInt8
deriving DecidableEq

namespace Path

def slash : UInt8 := 0x2F

def dot : UInt8 := 0x2E

def here : FileName := [dot]

def up : FileName := [dot, dot]

inductive Component where
  | root
  | current
  | parent
  | name (n : FileName)
deriving DecidableEq

def ofString (s : String) : Path := ⟨Text.utf8 s⟩

/-- The text shown for the path. -/
def display (p : Path) : String := String.ofList (Text.display p.bytes)

def isAbsolute (p : Path) : Bool := p.bytes.head? == some slash

def endsInSlash (p : Path) : Bool := p.bytes.getLast? == some slash

/-- What stands between the slashes, empty parts included. -/
def parts (p : Path) : List FileName := p.bytes.splitOn slash

def componentOfPart (part : FileName) : Option Component :=
  if part = [] ∨ part = here then none
  else if part = up then some .parent
  else some (.name part)

def components (p : Path) : List Component :=
  let first :=
    if p.isAbsolute then [.root] else if p.parts.head? = some here then [.current] else []
  first ++ p.parts.filterMap componentOfPart

/-- The last component, if it is a name. -/
def fileName (p : Path) : Option FileName :=
  match p.components.getLast? with
  | some (.name n) => some n
  | _ => none

def componentPart : Component → FileName
  | .root => []
  | .current => here
  | .parent => up
  | .name n => n

/-- The path with the given components. -/
def ofComponents (components : List Component) : Path :=
  if components = [.root] then ⟨[slash]⟩
  else ⟨[slash].intercalate (components.map componentPart)⟩

/-- The path without its last component; the root and the empty path have none to drop. -/
def parent (p : Path) : Option Path :=
  match p.components.getLast? with
  | none | some .root => none
  | some _ => some (ofComponents p.components.dropLast)

/-- The parents of a path, the nearest first, without the root and the empty path. -/
def ancestors (p : Path) : List Path :=
  let names := p.components
  ((List.range names.length).reverse.map fun n => ofComponents (names.take n)).filter fun q =>
    q.components ≠ [] ∧ q.components ≠ [.root]

/-- The parts to follow one after another from where the path starts.  A slash at the end leaves an
empty part, which asks for a directory. -/
def steps (p : Path) : List FileName :=
  (p.parts.filter (· ≠ [])) ++ if p.endsInSlash then [[]] else []

/-- The path without the slashes at its end. -/
def withoutFinalSlashes (p : Path) : Path := ⟨(p.bytes.reverse.dropWhile (· == slash)).reverse⟩

/-- An absolute path stands for itself.  A relative one continues the path on the left, with a
slash between them where it needs one. -/
def join (p q : Path) : Path :=
  if q.isAbsolute then q
  else if p.bytes = [] ∨ p.endsInSlash then ⟨p.bytes ++ q.bytes⟩
  else ⟨p.bytes ++ slash :: q.bytes⟩

/-- What follows the last dot of a file name, unless that dot is its first byte or there is
none. -/
def extensionOfName (n : FileName) : Option (List UInt8) :=
  match (n.splitOn dot).reverse with
  | last :: before :: more => if before = [] ∧ more = [] then none else some last
  | _ => none

def extension (p : Path) : Option (List UInt8) := p.fileName.bind extensionOfName

end Path

end InputDeck
