/-
What writing decks asks of the place where files are kept.

The rest of the library speaks to files only through this class.  `FileSystem` is one such place,
a value that theorems can be stated about; the disk is another.
-/
import InputDeck.FileSystem.Access

namespace InputDeck

class FileStore (m : Type → Type) where
  workingDirectory : m (Except FileFault Path)
  contains : Path → m Bool
  isFile : Path → m Bool
  isDirectory : Path → m Bool
  names : Path → m (Except FileFault (List FileName))
  read : Path → m (Except FileFault Contents)
  write : Path → ByteArray → m (Except FileFault Unit)
  makeDirectory : Path → m (Except FileFault Unit)

namespace FileSystem

/-- The absolute path of a location. -/
def pathOf (location : Location) : Path :=
  .ofComponents (.root :: location.reverse.map .name)

/-- A refused change leaves the file system as it is. -/
def change (next : Except FileFault FileSystem) : StateM FileSystem (Except FileFault Unit) :=
  fun fs =>
    match next with
    | .ok fs => (.ok (), fs)
    | .error fault => (.error fault, fs)

instance : FileStore (StateM FileSystem) where
  workingDirectory fs := (.ok (pathOf fs.workingDirectory), fs)
  contains p fs := (fs.contains p, fs)
  isFile p fs := (fs.isFile p, fs)
  isDirectory p fs := (fs.isDirectory p, fs)
  names p fs := (fs.names p, fs)
  read p fs := (fs.read p, fs)
  write p data fs := change (fs.write p (.bytes data)) fs
  makeDirectory p fs := change (fs.makeDirectory p) fs

end FileSystem

namespace FileStore

variable {m : Type → Type} [Monad m] [FileStore m]

/-- A directory that cannot be made will do if it is there already. -/
def settle (p : Path) (fault : FileFault) : m (Except FileFault Unit) := do
  if ← isDirectory p then return .ok () else return .error fault

/-- Makes the first of the paths a directory.  The others are its parents, the nearest first, and
are made only if something on the way is missing. -/
def makeChain : List Path → m (Except FileFault Unit)
  | [] => return .ok ()
  | p :: parents => do
      match ← makeDirectory p with
      | .ok () => return .ok ()
      | .error .notFound =>
          match ← makeChain parents with
          | .error fault => return .error fault
          | .ok () =>
              match ← makeDirectory p with
              | .ok () => return .ok ()
              | .error fault => settle p fault
      | .error fault => settle p fault

/-- Makes a directory and those above it.  The empty path stands for the working directory, which
needs no making. -/
def makeDirectories (p : Path) : m (Except FileFault Unit) :=
  if p.bytes = [] then return .ok () else makeChain (p :: p.ancestors)

end FileStore

/-- A piece of work on files that may fail.  What it did before it failed stays done. -/
abbrev Job (m : Type → Type) := ExceptT Fault m

namespace Job

variable {m : Type → Type} [Monad m]

def check {α : Type} (result : Except Fault α) : Job m α := ExceptT.mk (pure result)

/-- Asks a file store what it cannot refuse to tell. -/
def look {α : Type} (request : m α) : Job m α := ExceptT.lift request

/-- Asks a file store, whose refusal is a fault of the job. -/
def ask {α : Type} (request : m (Except FileFault α)) : Job m α :=
  ExceptT.mk do
    match ← request with
    | .ok a => return .ok a
    | .error fault => return .error (.file fault)

variable [FileStore m]

/-- The characters of a text file. -/
def readText (p : Path) : Job m (List Char) := do
  match ← ask (FileStore.read p) with
  | .workbook _ => check (.error (.file .invalidText))
  | .bytes data =>
      match String.fromUTF8? data with
      | some s => return s.toList
      | none => check (.error (.file .invalidText))

def writeText (p : Path) (text : List Char) : Job m Unit :=
  ask (FileStore.write p (String.ofList text).toUTF8)

/-- Fails unless the path leads to something. -/
def require (p : Path) : Job m Unit := do
  if ← look (FileStore.contains p) then return ()
  else check (.error (.noSuchInput p))

end Job

end InputDeck
