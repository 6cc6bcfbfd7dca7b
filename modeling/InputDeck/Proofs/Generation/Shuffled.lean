/-
Passes over directories that are listed in any order.

The names in a directory of a file system come in increasing order, which no disk promises.
`Shuffled` is the same place for files with the names in another order.  Only listing a directory
tells the two apart, so every job that lists none is the same job at both, and a pass is the pass
over the listing it finds (`Shuffled.on_generate`).  If nothing is done to the names but to order
them, that is one of `Passes` (`Shuffled.generate_cases`).  With the names left as they come the two
are the same place.
-/
import InputDeck.Proofs.Generation.Listing

namespace InputDeck

/-- Jobs on a file system whose directories are listed in the order that `shuffle` brings their
names in. -/
def Shuffled (_ : List FileName → List FileName) : Type → Type := StateM FileSystem

namespace Shuffled

variable {shuffle : List FileName → List FileName}

instance : Monad (Shuffled shuffle) := inferInstanceAs (Monad (StateM FileSystem))

instance : FileStore (Shuffled shuffle) where
  workingDirectory := (FileStore.workingDirectory : StateM FileSystem _)
  contains p := (FileStore.contains p : StateM FileSystem _)
  isFile p := (FileStore.isFile p : StateM FileSystem _)
  isDirectory p := (FileStore.isDirectory p : StateM FileSystem _)
  names p := fun fs : FileSystem => ((fs.names p).map shuffle, fs)
  read p := (FileStore.read p : StateM FileSystem _)
  write p data := (FileStore.write p data : StateM FileSystem _)
  makeDirectory p := (FileStore.makeDirectory p : StateM FileSystem _)

variable (shuffle)

/-- The job as one of the file system itself. -/
def toJob {α : Type} (job : Job (Shuffled shuffle) α) : Job (StateM FileSystem) α := job

theorem makeChain_eq (chain : List Path) :
    (FileStore.makeChain chain : Shuffled shuffle _) =
      (FileStore.makeChain chain : StateM FileSystem _) := by
  induction chain with
  | nil => rfl
  | cons p parents ih =>
      rw [FileStore.makeChain, FileStore.makeChain, ih]
      rfl

theorem makeDirectories_eq (p : Path) :
    (FileStore.makeDirectories p : Shuffled shuffle _) =
      (FileStore.makeDirectories p : StateM FileSystem _) := by
  rw [FileStore.makeDirectories, FileStore.makeDirectories, makeChain_eq]
  rfl

theorem writeEach_eq (vars : Variables) (target : Path) (templates : List Path) :
    (Deck.writeEach vars target templates : Job (Shuffled shuffle) _) =
      (Deck.writeEach vars target templates : Job (StateM FileSystem) _) := by
  induction templates with
  | nil => rfl
  | cons template rest ih =>
      rw [Deck.writeEach, Deck.writeEach, ih]
      rfl

theorem templateNames_eq (selection : Selection) (directory : Path) (listing : List FileName) :
    (Generation.templateNames selection directory listing : Job (Shuffled shuffle) _) =
      (Generation.templateNames selection directory listing : Job (StateM FileSystem) _) := by
  induction listing with
  | nil => rfl
  | cons name rest ih =>
      rw [Generation.templateNames, Generation.templateNames, ih]
      rfl

theorem writeListed_eq (templates target : Path) (vars : Variables) (selection : Selection)
    (listing : List FileName) :
    (Generation.writeListed templates target vars selection listing : Job (Shuffled shuffle) _) =
      (Generation.writeListed templates target vars selection listing :
        Job (StateM FileSystem) _) := by
  rw [Generation.writeListed, Generation.writeListed, templateNames_eq, makeDirectories_eq]
  simp only [writeEach_eq]
  rfl

theorem on_generate (g : Generator) (templates base : Path) (vars : Variables) (type : String)
    (fs : FileSystem) :
    Job.on (toJob shuffle (g.generate templates base vars type)) fs =
      match g.catalog.target base type with
      | .error fault => (.error fault, fs)
      | .ok target =>
          match fs.names templates with
          | .error refusal => (.error (.file refusal), fs)
          | .ok listing => Job.on
              (Generation.writeListed templates target vars g.selection (shuffle listing)) fs := by
  rw [Generator.generate]
  simp only [Generation.writeDecks, writeListed_eq]
  cases g.catalog.target base type with
  | error fault => rfl
  | ok target =>
    show Job.on ((Job.ask fun fs : FileSystem => ((fs.names templates).map shuffle, fs)) >>=
      Generation.writeListed templates target vars g.selection) fs = _
    rw [Job.on_bind, Job.on_ask, StateT.run]
    cases fs.names templates <;> rfl

/-- A run of a generator has no target, or it is a pass. -/
theorem generate_cases (order : ∀ names, (shuffle names).Perm names) (g : Generator)
    (templates base : Path) (vars : Variables) (type : String) (fs : FileSystem) :
    (∃ fault, g.catalog.target base type = .error fault ∧
      Job.on (toJob shuffle (g.generate templates base vars type)) fs = (.error fault, fs)) ∨
    ∃ target, g.catalog.target base type = .ok target ∧
      Generation.Passes fs templates target vars g.selection
        (Job.on (toJob shuffle (g.generate templates base vars type)) fs).1
        (Job.on (toJob shuffle (g.generate templates base vars type)) fs).2 := by
  rw [on_generate]
  cases g.catalog.target base type with
  | error fault => exact Or.inl ⟨fault, rfl, rfl⟩
  | ok target =>
      refine Or.inr ⟨target, rfl, ?_⟩
      dsimp only
      cases h : fs.names templates with
      | error refusal => exact .unlisted h rfl rfl
      | ok names => exact .listed h (order names) rfl

/-! ## The order of the file system -/

theorem names_id (p : Path) :
    (FileStore.names p : Shuffled id _) = (FileStore.names p : StateM FileSystem _) := by
  funext fs
  show ((fs.names p).map id, fs) = (fs.names p, fs)
  cases fs.names p <;> rfl

theorem toJob_generate_id (g : Generator) (templates base : Path) (vars : Variables)
    (type : String) :
    toJob id (g.generate templates base vars type) = g.generate templates base vars type := by
  rw [toJob, Generator.generate, Generator.generate]
  simp only [Generation.writeDecks, writeListed_eq, names_id]
  rfl

end Shuffled
end InputDeck
