/-
Variables described by a file.
-/
import InputDeck.FileStore
import InputDeck.Variables.Format
import InputDeck.Variables.Worksheet

namespace InputDeck
namespace Variables

variable {m : Type → Type} [Monad m] [FileStore m]

/-- A file that cannot be opened at all is an unreadable workbook like any other. -/
def readWorkbookFile (p : Path) : Job m Variables := ExceptT.mk do
  match ← FileStore.read p with
  | .ok (.workbook book) => return ofWorkbook book
  | _ => return .error .unreadableWorkbook

/-- Reads a file in the given format, or else in the one that its extension tells. -/
def load (p : Path) (format : Option DocumentFormat) : Job m Variables :=
  match format.or (DocumentFormat.ofPath? p) with
  | none => Job.check (.error (.unknownFormat p))
  | some .json => do
      let text ← Job.readText p
      Job.check (ofJsonText text)
  | some .workbook => readWorkbookFile p

end Variables
end InputDeck
