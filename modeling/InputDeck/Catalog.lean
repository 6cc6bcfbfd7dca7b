/-
Where the decks of an analysis go.
-/
import InputDeck.Fault
import InputDeck.Table

namespace InputDeck

/-- Analysis types with the subdirectory of the run directory that their decks go to; none stands
for the run directory itself. -/
structure Catalog where
  entries : Table String (Option Path)

namespace Catalog

def ofList (entries : List (String × Option Path)) : Catalog := ⟨.ofList entries⟩

def insert (c : Catalog) (type : String) (subdirectory : Option Path) : Catalog :=
  ⟨c.entries.insert type subdirectory⟩

/-- The subdirectory of an analysis type.  The empty type need not be listed. -/
def subdirectory (c : Catalog) (type : String) : Except Fault (Option Path) :=
  match c.entries.get? type with
  | some subdirectory => .ok subdirectory
  | none => if type = "" then .ok none else .error (.unknownAnalysis type)

/-- The directory that the decks of an analysis go to. -/
def target (c : Catalog) (base : Path) (type : String) : Except Fault Path :=
  (c.subdirectory type).map fun
    | some subdirectory => base.join subdirectory
    | none => base

end Catalog

end InputDeck
