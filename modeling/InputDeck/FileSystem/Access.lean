/-
Reading and changing a file system through paths.
-/
import InputDeck.FileSystem.Basic

namespace InputDeck
namespace FileSystem

/-- Whether the path leads to a node. -/
def contains (fs : FileSystem) (p : Path) : Bool :=
  match fs.resolve .visit p with
  | .ok (.file ..) | .ok (.directory _) => true
  | _ => false

def isFile (fs : FileSystem) (p : Path) : Bool :=
  match fs.resolve .visit p with
  | .ok (.file ..) => true
  | _ => false

def isDirectory (fs : FileSystem) (p : Path) : Bool :=
  match fs.resolve .visit p with
  | .ok (.directory _) => true
  | _ => false

def read (fs : FileSystem) (p : Path) : Except FileFault Contents :=
  match fs.resolve .visit p with
  | .error fault => .error fault
  | .ok (.absent ..) => .error .notFound
  | .ok (.directory _) => .error .isADirectory
  | .ok (.file _ contents) => .ok contents

/-- The names in a directory. -/
def names (fs : FileSystem) (p : Path) : Except FileFault (List FileName) :=
  match fs.resolve .visit p with
  | .error fault => .error fault
  | .ok (.absent ..) => .error .notFound
  | .ok (.file ..) => .error .notADirectory
  | .ok (.directory location) => .ok (fs.children location)

/-- Replaces the contents of a file, which is made if its directory is there. -/
def write (fs : FileSystem) (p : Path) (contents : Contents) : Except FileFault FileSystem :=
  match fs.resolve .write p with
  | .error fault => .error fault
  | .ok (.absent dir name) => .ok (fs.insert (name :: dir) (.file contents))
  | .ok (.directory _) => .error .isADirectory
  | .ok (.file location _) => .ok (fs.insert location (.file contents))

/-- Makes a directory in one that is there. -/
def makeDirectory (fs : FileSystem) (p : Path) : Except FileFault FileSystem :=
  (fs.vacancy p).map fun location => fs.insert location .directory

def makeLink (fs : FileSystem) (p target : Path) : Except FileFault FileSystem :=
  (fs.vacancy p).map fun location => fs.insert location (.link target)

/-- Takes away what stands at a location and below it. -/
def removeAt (fs : FileSystem) (location : Location) : FileSystem :=
  { fs with nodes := fs.nodes.filter fun l _ => !location.isSuffixOf l }

/-- Takes away the node of the given path, and all below it.  A link is taken away itself. -/
def remove (fs : FileSystem) (p : Path) : Except FileFault FileSystem :=
  match fs.lastName p with
  | .error fault => .error fault
  | .ok (dir, name) =>
      if (fs.node? (name :: dir)).isNone then .error .notFound else .ok (fs.removeAt (name :: dir))

end FileSystem
end InputDeck
