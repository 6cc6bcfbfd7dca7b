/-
Running a command: what it prints, and how it ends.

All checks of what a command was given come before the first file is written, in a fixed order:
the templates, the settings, the variables.  Nothing is printed by a command that fails.
-/
import InputDeck.CommandLine.Arguments
import InputDeck.Generation

namespace InputDeck
namespace CommandLine

variable {m : Type → Type} [Monad m] [FileStore m]

def loadSettings : Option Path → Job m Settings
  | none => return .standard
  | some p => do
      Job.require p
      Settings.load p

def loadVariables : Option Path → Job m Variables
  | none => return .absent
  | some p => do
      Job.require p
      Variables.load p none

/-- The directory that decks go to if none is named is the working directory. -/
def baseDirectory : Option Path → Job m Path
  | none => Job.ask FileStore.workingDirectory
  | some p => return p

/-- The paths of the decks written, one on each line. -/
def report (paths : List Path) : List Char :=
  paths.flatMap fun p => p.display.toList ++ ['\n']

/-- What a command prints. -/
def Command.perform : Command → Job m (List Char)
  | .generate templates vars output analysisType config => do
      Job.require templates
      let settings ← loadSettings config
      let vars ← loadVariables vars
      let base ← baseDirectory output
      let paths ←
        (Generator.ofSettings settings).generate templates base vars analysisType
      return report paths
  | .render input vars => do
      Job.require input
      let vars ← loadVariables vars
      Deck.render vars input

structure Outcome where
  exitCode : Nat
  printed : List Char
  fault : Option Fault
deriving DecidableEq

def versionText : List Char := "flexwec-casegen 0.1.0\n".toList

/-- How a command line ends that holds no command.  Asking for help or the version is no error. -/
def Stop.outcome : Stop → Outcome
  | .help => ⟨0, [], none⟩
  | .version => ⟨0, versionText, none⟩
  | .usage => ⟨2, [], none⟩

def Outcome.ofResult : Except Fault (List Char) → Outcome
  | .ok printed => ⟨0, printed, none⟩
  | .error fault => ⟨1, [], some fault⟩

def run (arguments : List Argument) : m Outcome :=
  match read arguments with
  | .error stop => return stop.outcome
  | .ok command => do return .ofResult (← command.perform.run)

end CommandLine
end InputDeck
