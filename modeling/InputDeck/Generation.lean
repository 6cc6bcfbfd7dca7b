/-
Decks written from a directory of templates.

The templates are the files of the directory with an extension that is let through, in the order
of their names.  The target directory is made once the templates are known, and then each template
is read, substituted and written before the next one is read.  The first fault ends the pass; what
is written by then stays.
-/
import InputDeck.Settings.Reader
import InputDeck.Template.Deck
import InputDeck.Variables.File

namespace InputDeck

variable {m : Type → Type} [Monad m] [FileStore m]

namespace Deck

def read (vars : Variables) (template : Path) : Job m Deck := do
  let text ← Job.readText template
  Job.check (ofTemplate vars template text)

/-- The contents of the deck made from one template. -/
def render (vars : Variables) (template : Path) : Job m (List Char) := do
  return (← read vars template).contents

/-- Writes the deck made from one template into a directory, and tells its path. -/
def write (vars : Variables) (target template : Path) : Job m Path := do
  let deck ← read vars template
  let path := target.join ⟨deck.fileName⟩
  Job.writeText path deck.contents
  return path

def writeEach (vars : Variables) (target : Path) : List Path → Job m (List Path)
  | [] => return []
  | template :: rest => do
      let path ← write vars target template
      return path :: (← writeEach vars target rest)

end Deck

namespace Generation

/-- The names among those listed in a directory that belong to templates. -/
def templateNames (selection : Selection) (directory : Path) :
    List FileName → Job m (List FileName)
  | [] => return []
  | name :: rest => do
      let path := directory.join ⟨name⟩
      let isTemplate := (← Job.look (FileStore.isFile path)) && selection.admits path
      let more ← templateNames selection directory rest
      return if isTemplate then name :: more else more

def sortNames (names : List FileName) : List FileName :=
  names.mergeSort fun a b => (compare a b).isLE

/-- Writes the decks of a template directory whose names have been listed, in any order. -/
def writeListed (templates target : Path) (vars : Variables) (selection : Selection)
    (listing : List FileName) : Job m (List Path) := do
  let names ← templateNames selection templates listing
  Job.ask (FileStore.makeDirectories target)
  Deck.writeEach vars target ((sortNames names).map fun name => templates.join ⟨name⟩)

/-- Writes the decks of a template directory and tells their paths. -/
def writeDecks (templates target : Path) (vars : Variables) (selection : Selection) :
    Job m (List Path) := do
  let listing ← Job.ask (FileStore.names templates)
  writeListed templates target vars selection listing

end Generation

/-- Knows where the decks of an analysis go and which templates make them. -/
structure Generator where
  catalog : Catalog
  selection : Selection

namespace Generator

def ofSettings (s : Settings) : Generator := ⟨s.catalog, s.selection⟩

/-- Writes the decks for one type of analysis. -/
def generate (g : Generator) (templates base : Path) (vars : Variables) (type : String) :
    Job m (List Path) := do
  let target ← Job.check (g.catalog.target base type)
  Generation.writeDecks templates target vars g.selection

end Generator

namespace Settings

def load (p : Path) : Job m Settings := do
  let text ← Job.readText p
  Job.check (ofJsonText text)

end Settings

end InputDeck
