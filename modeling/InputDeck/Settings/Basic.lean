/-
Settings of a deck writer: which templates it takes and where the decks of an analysis go.
-/
import InputDeck.Catalog
import InputDeck.Selection

namespace InputDeck

structure Settings where
  extensions : List String
  analysisTypes : Table String (Option String)

namespace Settings

/-- What holds where nothing is set. -/
def standard : Settings := ⟨Selection.solverExtensions, ∅⟩

def selection (s : Settings) : Selection := .ofExtensions s.extensions

def catalog (s : Settings) : Catalog :=
  .ofList (s.analysisTypes.entries.map fun e => (e.1, e.2.map Path.ofString))

end Settings

end InputDeck
