/-
Trees of files and directories with symbolic links, and what a path leads to in them.

A location is the names on the way from a node up to the root, the nearest first, so the location
of a directory is the tail of the locations in it.  Following a path goes name by name, and every
directory on the way has to be there; links on the way are followed, but only so many of them.
A last name with a slash behind it cannot be written, be it that of the path or of a link at its
end, and is refused without a look at what stands there.  Names and paths have a greatest length in
bytes; a path that is too long is refused as a whole, a name only where it is looked up.
-/
import InputDeck.Fault
import InputDeck.Table
import InputDeck.Workbook.Sheet

namespace InputDeck

abbrev Location := List FileName

/-- Files hold bytes.  Of a workbook the sheets are kept instead of the bytes that pack them. -/
inductive Contents where
  | bytes (data : ByteArray)
  | workbook (book : Workbook)

inductive Node where
  | file (contents : Contents)
  | directory
  | link (target : Path)

/-- The nodes below the root, and the directory which relative paths start from. -/
structure FileSystem where
  nodes : Table Location Node
  workingDirectory : Location

namespace FileSystem

def linkLimit : Nat := 40

def nameLimit : Nat := 255

def pathLimit : Nat := 4095

def node? (fs : FileSystem) : Location → Option Node
  | [] => some .directory
  | name :: dir => fs.nodes.get? (name :: dir)

def insert (fs : FileSystem) (location : Location) (node : Node) : FileSystem :=
  { fs with nodes := fs.nodes.insert location node }

/-- The names of the nodes in a directory. -/
def children (fs : FileSystem) (dir : Location) : List FileName :=
  fs.nodes.keys.filterMap fun location =>
    match location with
    | [] => none
    | name :: above => if above = dir then some name else none

/-- What a path leads to: a node, or a name that is free in a directory. -/
inductive Arrival where
  | file (location : Location) (contents : Contents)
  | directory (location : Location)
  | absent (dir : Location) (name : FileName)

/-- What a path is followed for. -/
inductive Purpose where
  | visit
  | write
deriving DecidableEq

/-- How far a path leads without following a link. -/
inductive Stretch where
  | arrived (arrival : Arrival)
  | link (dir : Location) (target : Path) (rest : List FileName)

def advance (fs : FileSystem) (purpose : Purpose) :
    Location → List FileName → Except FileFault Stretch
  | location, [] =>
      match fs.node? location with
      | none => .error .notFound
      | some (.file contents) => .ok (.arrived (.file location contents))
      | some .directory => .ok (.arrived (.directory location))
      | some (.link target) => .ok (.link location.tail target [])
  | location, step :: rest =>
      match fs.node? location with
      | none => .error .notFound
      | some (.file _) => .error .notADirectory
      | some (.link target) => .ok (.link location.tail target (step :: rest))
      | some .directory =>
          if step = [] ∨ step = Path.here then fs.advance purpose location rest
          else if step = Path.up then fs.advance purpose location.tail rest
          else if purpose = .write ∧ rest = [[]] then .error .isADirectory
          else if nameLimit < step.length then .error .nameTooLong
          else if rest.isEmpty && (fs.node? (step :: location)).isNone then
            .ok (.arrived (.absent location step))
          else fs.advance purpose (step :: location) rest

/-- Where the steps of a path start that stands in the given directory. -/
def start (dir : Location) (p : Path) : Location := if p.isAbsolute then [] else dir

def follow (fs : FileSystem) (purpose : Purpose) :
    Nat → Location → List FileName → Except FileFault Arrival
  | links, location, steps =>
      match fs.advance purpose location steps with
      | .error fault => .error fault
      | .ok (.arrived arrival) => .ok arrival
      | .ok (.link dir target rest) =>
          match links with
          | 0 => .error .tooManyLinks
          | links + 1 => fs.follow purpose links (start dir target) (target.steps ++ rest)

/-- Why a path is refused whatever there is in the file system.  The empty path leads nowhere. -/
def refusal (p : Path) : Option FileFault :=
  if p.bytes.contains 0 then some .invalidPath
  else if p.bytes = [] then some .notFound
  else if pathLimit < p.bytes.length then some .nameTooLong
  else none

/-- Follows a path to its end. -/
def resolve (fs : FileSystem) (purpose : Purpose) (p : Path) : Except FileFault Arrival :=
  match refusal p with
  | some fault => .error fault
  | none => fs.follow purpose linkLimit (start fs.workingDirectory p) p.steps

/-- The directory that a path's last name stands in, and that name.  A link of that name is not
followed.  The root stands in no directory and is refused as a node that is there. -/
def lastName (fs : FileSystem) (p : Path) : Except FileFault (Location × FileName) :=
  match refusal p with
  | some fault => .error fault
  | none =>
      let steps := p.withoutFinalSlashes.steps
      match steps.getLast? with
      | none => .error .alreadyExists
      | some name =>
          match fs.follow .visit linkLimit (start fs.workingDirectory p) steps.dropLast with
          | .error fault => .error fault
          | .ok (.absent ..) => .error .notFound
          | .ok (.file ..) => .error .notADirectory
          | .ok (.directory dir) =>
              if nameLimit < name.length then .error .nameTooLong else .ok (dir, name)

/-- Where a new node of the given path would stand.  The name must be free; `.` and `..` never
are. -/
def vacancy (fs : FileSystem) (p : Path) : Except FileFault Location :=
  match fs.lastName p with
  | .error fault => .error fault
  | .ok (dir, name) =>
      if name = Path.here ∨ name = Path.up then .error .alreadyExists
      else if (fs.node? (name :: dir)).isNone then .ok (name :: dir)
      else .error .alreadyExists

end FileSystem

end InputDeck
