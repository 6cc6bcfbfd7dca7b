/-
The program: the command line on the files of the disk.

Paths reach the disk as text, so bytes in them that are not UTF-8 cannot be told to it.  Workbooks
are not unpacked here, and reading one from the disk is refused.
-/
import InputDeck.CommandLine.Run

namespace InputDeck
namespace Disk

/-- The refusal that an error of the disk stands for. -/
def refusal : IO.Error → FileFault
  | .noFileOrDirectory .. | .noSuchThing .. => .notFound
  | .alreadyExists .. => .alreadyExists
  | .inappropriateType _ 20 _ => .notADirectory
  | .inappropriateType _ 21 _ => .isADirectory
  | .invalidArgument _ 36 _ => .nameTooLong
  | e => .other (toString e)

/-- Asks the disk about a path, unless no file system takes it. -/
def ask {α : Type} (p : Path) (request : String → IO α) : IO (Except FileFault α) := do
  match FileSystem.refusal p with
  | some fault => return .error fault
  | none =>
      try
        return .ok (← request p.display)
      catch e =>
        return .error (refusal e)

/-- What holds of a path, and of none that the disk cannot tell about. -/
def holds (p : Path) (request : String → IO Bool) : IO Bool := do
  match ← ask p request with
  | .ok b => return b
  | .error _ => return false

def typeOf (shown : String) : IO IO.FS.FileType := do
  return (← ((← IO.currentDir) / shown).metadata).type

/-- Tells a file or a directory where the other kind was asked for. -/
def expect (wanted : IO.FS.FileType) (fault : FileFault) (p : Path) :
    IO (Except FileFault Unit) := do
  match ← ask p typeOf with
  | .ok found => return if found == wanted then .ok () else .error fault
  | .error fault => return .error fault

instance : FileStore IO where
  workingDirectory := do
    try
      return .ok (.ofString (toString (← IO.currentDir)))
    catch e =>
      return .error (refusal e)
  contains p := holds p fun shown => do
    let _ ← typeOf shown
    return true
  isFile p := holds p fun shown => return (← typeOf shown) == .file
  isDirectory p := holds p fun shown => return (← typeOf shown) == .dir
  names p := do
    match ← expect .dir .notADirectory p with
    | .error fault => return .error fault
    | .ok () =>
        ask p fun shown => do
          let entries ← ((← IO.currentDir) / shown).readDir
          return entries.toList.map fun e => Text.utf8 e.fileName
  read p := do
    match ← expect .file .isADirectory p with
    | .error fault => return .error fault
    | .ok () => ask p fun shown => return .bytes (← IO.FS.readBinFile shown)
  write p data := do
    if ← holds p fun shown => return (← typeOf shown) == .dir then
      return .error .isADirectory
    else ask p fun shown => IO.FS.writeBinFile shown data
  makeDirectory p := ask p fun shown => IO.FS.createDir shown

end Disk
end InputDeck

def main (arguments : List String) : IO UInt32 := do
  let outcome ← InputDeck.CommandLine.run (arguments.map InputDeck.Text.utf8)
  IO.print (String.ofList outcome.printed)
  if let some fault := outcome.fault then
    IO.eprintln s!"error: {fault.message}"
  return outcome.exitCode.toUInt32
