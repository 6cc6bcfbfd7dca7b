/-
What a command is given, and the checks that it makes of it.

Settings and variables are told here by what stands in the file system, and the checks of a command
are the list of what each finds, so the first fault in the list is what a command ends with that
does not get past them.  Loading leaves the file system as it is and comes to just this.
-/
import InputDeck.CommandLine.Run
import InputDeck.Proofs.Generation.Jobs

namespace InputDeck

/-! ## What a command is given -/

namespace FileSystem

variable (fs : FileSystem)

def missing (p : Path) : Option Fault := if fs.contains p then none else some (.noSuchInput p)

def settingsOf : Option Path → Except Fault Settings
  | none => .ok .standard
  | some p => (fs.text p).bind Settings.ofJsonText

/-- The variables that the file of a path describes, in the format that its extension tells. -/
def described (p : Path) : Except Fault Variables :=
  match DocumentFormat.ofPath? p with
  | none => .error (.unknownFormat p)
  | some .json => (fs.text p).bind Variables.ofJsonText
  | some .workbook =>
      match fs.read p with
      | .ok (.workbook book) => Variables.ofWorkbook book
      | _ => .error .unreadableWorkbook

def variablesOf : Option Path → Except Fault Variables
  | none => .ok .absent
  | some p => fs.described p

/-- The directory that a path names, the working directory if there is none. -/
def base (output : Option Path) : Path := output.getD (pathOf fs.workingDirectory)

end FileSystem

def faultOf {α : Type} : Except Fault α → Option Fault
  | .ok _ => none
  | .error fault => some fault

namespace CommandLine

/-- The checks that a command makes of what it is given, in their order, each with the fault that it
finds. -/
def Command.checks (fs : FileSystem) : Command → List (Option Fault)
  | .generate templates vars _ type config =>
      [fs.missing templates,
        config.bind fs.missing,
        faultOf (fs.settingsOf config),
        vars.bind fs.missing,
        faultOf (fs.variablesOf vars),
        faultOf ((fs.settingsOf config).bind fun settings => settings.catalog.subdirectory type)]
  | .render input vars =>
      [fs.missing input,
        vars.bind fs.missing,
        faultOf (fs.variablesOf vars),
        faultOf ((fs.variablesOf vars).bind fun vars => fs.deck vars input)]

def Command.firstFault (fs : FileSystem) (command : Command) : Option Fault :=
  (command.checks fs).findSome? id

/-! ## Loading -/

theorem on_require (p : Path) (fs : FileSystem) :
    Job.on (Job.require p) fs =
      (match fs.missing p with
      | some fault => .error fault
      | none => .ok (), fs) := by
  have hrun : (FileStore.contains p : StateM FileSystem _).run fs = (fs.contains p, fs) := rfl
  rw [Job.require, Job.on_bind, Job.on_look, hrun, FileSystem.missing]
  cases fs.contains p <;> rfl

theorem on_loadSettings (config : Option Path) (fs : FileSystem) :
    Job.on (loadSettings config) fs =
      (match config.bind fs.missing with
      | some fault => .error fault
      | none => fs.settingsOf config, fs) := by
  cases config with
  | none => rfl
  | some p =>
      rw [loadSettings, Job.on_bind, on_require, Option.bind_some]
      cases fs.missing p with
      | some fault => rfl
      | none =>
          exact Settings.on_load p fs

theorem on_loadVariables (vars : Option Path) (fs : FileSystem) :
    Job.on (loadVariables vars) fs =
      (match vars.bind fs.missing with
      | some fault => .error fault
      | none => fs.variablesOf vars, fs) := by
  cases vars with
  | none => rfl
  | some p =>
      rw [loadVariables, Job.on_bind, on_require, Option.bind_some]
      cases fs.missing p with
      | some fault => rfl
      | none => exact Variables.on_load p none fs

theorem faultOf_target (c : Catalog) (base : Path) (type : String) :
    faultOf (c.target base type) = faultOf (c.subdirectory type) := by
  rw [Catalog.target]
  cases c.subdirectory type <;> rfl

theorem on_baseDirectory (output : Option Path) (fs : FileSystem) :
    Job.on (baseDirectory output) fs = (.ok (fs.base output), fs) := by
  cases output <;> rfl

end CommandLine
end InputDeck
