/-
How a command line ends, on any file system and in whatever order its directories are listed.

`Ends` tells it by the checks that a command makes of what it is given.  The first that fails is
what the command ends with, before it has changed anything.  If none fails, `render` has all it
prints, and `generate` goes on to write: it then ends with paths to print or with a fault which is
not one of its input, and in that case prints nothing, whatever is written by then.
-/
import Mathlib
import InputDeck.Proofs.CommandLine.Checks
import InputDeck.Proofs.Generation.Linked
import InputDeck.Proofs.Generation.Shuffled

namespace InputDeck
namespace CommandLine

open Generation (deckNode)

/-- How a command line ends, what it prints, and the file system it leaves.  A fault of the input is
that of the first check to fail, and then nothing has changed; a fault that comes later is none of
the input. -/
inductive Ends (fs : FileSystem) : Except Stop Command → Outcome → FileSystem → Prop
  | stopped (stop : Stop) : Ends fs (.error stop) stop.outcome fs
  | refused {command : Command} {fault : Fault} (h : command.firstFault fs = some fault) :
      Ends fs (.ok command) ⟨1, [], some fault⟩ fs
  | rendered {input : Path} {vars : Option Path} {loaded : Variables} {deck : Deck}
      (hchecks : (Command.render input vars).firstFault fs = none)
      (hvars : fs.variablesOf vars = .ok loaded) (hdeck : fs.deck loaded input = .ok deck) :
      Ends fs (.ok (.render input vars)) ⟨0, deck.contents, none⟩ fs
  | failed {templates : Path} {vars output : Option Path} {type : String} {config : Option Path}
      {fault : Fault} {fs' : FileSystem}
      (hchecks : (Command.generate templates vars output type config).firstFault fs = none)
      (hfault : fault.ofInput = false) :
      Ends fs (.ok (.generate templates vars output type config)) ⟨1, [], some fault⟩ fs'
  | generated {templates : Path} {vars output : Option Path} {type : String}
      {config : Option Path} {settings : Settings} {target : Path} {listing names : List FileName}
      {fs' : FileSystem}
      (hchecks : (Command.generate templates vars output type config).firstFault fs = none)
      (hsettings : fs.settingsOf config = .ok settings)
      (htarget : settings.catalog.target (fs.base output) type = .ok target)
      (hlisting : fs.names templates = .ok listing)
      (hfills : Generation.Fills fs templates target settings.selection listing names fs') :
      Ends fs (.ok (.generate templates vars output type config))
        ⟨0, names.flatMap fun n => (target.join ⟨n⟩).display.toList ++ ['\n'], none⟩ fs'

/-! ## Commands -/

section Commands

variable (shuffle : List FileName → List FileName) {fs : FileSystem}

/-- What a command does if directories are listed in the order that `shuffle` brings. -/
def Command.performIn (command : Command) : Job (StateM FileSystem) (List Char) :=
  Shuffled.toJob shuffle command.perform

theorem performIn_generate (templates : Path) (vars output : Option Path) (type : String)
    (config : Option Path) :
    (Command.generate templates vars output type config).performIn shuffle =
      (do
        Job.require templates
        let settings ← loadSettings config
        let vars ← loadVariables vars
        let base ← baseDirectory output
        let paths ← Shuffled.toJob shuffle
          ((Generator.ofSettings settings).generate templates base vars type)
        return report paths) :=
  rfl

theorem performIn_render (input : Path) (vars : Option Path) :
    (Command.render input vars).performIn shuffle =
      (do
        Job.require input
        let vars ← loadVariables vars
        Deck.render vars input) :=
  rfl

/-- A command to generate does not get past its checks, or it comes to the pass that they found. -/
theorem on_perform_generate (templates : Path) (vars output : Option Path) (type : String)
    (config : Option Path) (fs : FileSystem) :
    (∃ fault, (Command.generate templates vars output type config).firstFault fs = some fault ∧
      Job.on ((Command.generate templates vars output type config).performIn shuffle) fs =
        (.error fault, fs)) ∨
    (Command.generate templates vars output type config).firstFault fs = none ∧
      ∃ settings loaded target, fs.settingsOf config = .ok settings ∧
        fs.variablesOf vars = .ok loaded ∧
        settings.catalog.target (fs.base output) type = .ok target ∧
        Job.on ((Command.generate templates vars output type config).performIn shuffle) fs =
          match fs.names templates with
          | .error refusal => (.error (.file refusal), fs)
          | .ok listing =>
              match Job.on (Generation.writeListed templates target loaded settings.selection
                (shuffle listing)) fs with
              | (.error fault, fs') => (.error fault, fs')
              | (.ok paths, fs') => (.ok (report paths), fs') := by
  rw [performIn_generate, Job.on_bind, on_require, Command.firstFault, Command.checks]
  cases fs.missing templates
  case some fault => exact Or.inl ⟨fault, rfl, rfl⟩
  dsimp only
  rw [Job.on_bind, on_loadSettings]
  cases config.bind fs.missing
  case some fault => exact Or.inl ⟨fault, rfl, rfl⟩
  dsimp only
  cases fs.settingsOf config
  case error fault => exact Or.inl ⟨fault, rfl, rfl⟩
  rename_i settings
  dsimp only
  rw [Job.on_bind, on_loadVariables]
  cases vars.bind fs.missing
  case some fault => exact Or.inl ⟨fault, rfl, rfl⟩
  dsimp only
  cases fs.variablesOf vars
  case error fault => exact Or.inl ⟨fault, rfl, rfl⟩
  rename_i loaded
  dsimp only
  rw [Job.on_bind, on_baseDirectory]
  dsimp only
  have hcatalog : (Generator.ofSettings settings).catalog = settings.catalog := rfl
  have hselection : (Generator.ofSettings settings).selection = settings.selection := rfl
  have hlast : faultOf ((Except.ok settings : Except Fault Settings).bind fun settings =>
      settings.catalog.subdirectory type) =
        faultOf (settings.catalog.target (fs.base output) type) :=
    (faultOf_target settings.catalog (fs.base output) type).symm
  rw [Job.on_bind, Shuffled.on_generate, hcatalog, hselection, hlast]
  cases htarget : settings.catalog.target (fs.base output) type with
  | error fault => exact Or.inl ⟨fault, rfl, rfl⟩
  | ok target =>
      refine Or.inr ⟨rfl, settings, loaded, target, rfl, rfl, htarget, ?_⟩
      cases fs.names templates with
      | error refusal => rfl
      | ok listing =>
          dsimp only
          cases Job.on (Generation.writeListed templates target loaded settings.selection
            (shuffle listing)) fs with
          | mk result fs' => cases result <;> rfl

theorem on_perform_render (input : Path) (vars : Option Path) (fs : FileSystem) :
    (∃ fault, (Command.render input vars).firstFault fs = some fault ∧
      Job.on ((Command.render input vars).performIn shuffle) fs = (.error fault, fs)) ∨
    (Command.render input vars).firstFault fs = none ∧
      ∃ loaded deck, fs.variablesOf vars = .ok loaded ∧ fs.deck loaded input = .ok deck ∧
        Job.on ((Command.render input vars).performIn shuffle) fs = (.ok deck.contents, fs) := by
  rw [performIn_render, Job.on_bind, on_require, Command.firstFault, Command.checks]
  cases fs.missing input
  case some fault => exact Or.inl ⟨fault, rfl, rfl⟩
  dsimp only
  rw [Job.on_bind, on_loadVariables]
  cases vars.bind fs.missing
  case some fault => exact Or.inl ⟨fault, rfl, rfl⟩
  dsimp only
  cases fs.variablesOf vars
  case error fault => exact Or.inl ⟨fault, rfl, rfl⟩
  rename_i loaded
  dsimp only
  have hlast : faultOf ((Except.ok loaded : Except Fault Variables).bind fun vars =>
      fs.deck vars input) = faultOf (fs.deck loaded input) := rfl
  rw [Deck.on_render, hlast]
  cases hdeck : fs.deck loaded input with
  | error fault => exact Or.inl ⟨fault, rfl, rfl⟩
  | ok deck => exact Or.inr ⟨rfl, loaded, deck, rfl, hdeck, rfl⟩

/-- A run on a file system, with its directories listed in the order that `shuffle` brings. -/
def runIn (arguments : List Argument) (fs : FileSystem) : Outcome × FileSystem :=
  StateT.run (run arguments : Shuffled shuffle Outcome) fs

theorem runIn_of_stop {arguments : List Argument} {stop : Stop} (h : read arguments = .error stop)
    (fs : FileSystem) : runIn shuffle arguments fs = (stop.outcome, fs) := by
  rw [runIn, run, h]
  rfl

theorem runIn_of_command {arguments : List Argument} {command : Command}
    (h : read arguments = .ok command) (fs : FileSystem) :
    runIn shuffle arguments fs =
      (.ofResult (Job.on (command.performIn shuffle) fs).1,
        (Job.on (command.performIn shuffle) fs).2) := by
  rw [runIn, run, h]
  rfl

theorem performIn_id (command : Command) :
    command.performIn id = (command.perform : Job (StateM FileSystem) _) := by
  cases command with
  | render input vars => rfl
  | generate templates vars output type config =>
      rw [performIn_generate, Command.perform]
      simp only [Shuffled.toJob_generate_id]

theorem runIn_id (arguments : List Argument) (fs : FileSystem) :
    runIn id arguments fs = StateT.run (run arguments : StateM FileSystem Outcome) fs := by
  rw [run]
  match hread : read arguments with
  | .error stop =>
      rw [runIn_of_stop id hread]
      rfl
  | .ok command =>
      rw [runIn_of_command id hread, performIn_id]
      rfl

/-! ## How commands end -/

theorem report_join (target : Path) (names : List FileName) :
    report (names.map fun n => target.join ⟨n⟩) =
      names.flatMap fun n => (target.join ⟨n⟩).display.toList ++ ['\n'] := by
  rw [report, List.flatMap_map]

theorem ends_performIn {fs : FileSystem} (hnamed : fs.Named)
    (hshuffle : ∀ names, (shuffle names).Perm names) (command : Command) :
    Ends fs (.ok command) (.ofResult (Job.on (command.performIn shuffle) fs).1)
      (Job.on (command.performIn shuffle) fs).2 := by
  cases command with
  | render input vars =>
      rcases on_perform_render shuffle input vars fs with
        ⟨fault, hchecks, hrun⟩ | ⟨hchecks, loaded, deck, hvars, hdeck, hrun⟩
      · rw [hrun]
        exact .refused hchecks
      · rw [hrun]
        exact .rendered hchecks hvars hdeck
  | generate templates vars output type config =>
      rcases on_perform_generate shuffle templates vars output type config fs with
        ⟨fault, hchecks, hrun⟩ | ⟨hchecks, settings, loaded, target, hsettings, -, htarget, hrun⟩
      · rw [hrun]
        exact .refused hchecks
      · rw [hrun]
        cases hlisting : fs.names templates with
        | error refusal => exact .failed hchecks rfl
        | ok listing =>
            dsimp only
            rcases Generation.on_writeListed_linked target loaded settings.selection hnamed
              hlisting (hshuffle listing) with
              ⟨names, fs', hpass, hfills⟩ | ⟨fault, fs', hpass, hfault⟩
            · rw [hpass]
              dsimp only
              rw [report_join]
              exact .generated hchecks hsettings htarget hlisting hfills
            · rw [hpass]
              exact .failed hchecks hfault

/-- Every command line ends in one of these ways, in whatever order directories are listed. -/
theorem ends_run (fs : FileSystem) (hnamed : fs.Named)
    (hshuffle : ∀ names, (shuffle names).Perm names) (arguments : List Argument) :
    Ends fs (read arguments) (runIn shuffle arguments fs).1 (runIn shuffle arguments fs).2 := by
  cases hread : read arguments with
  | error stop =>
      rw [runIn_of_stop shuffle hread]
      exact .stopped stop
  | ok command =>
      rw [runIn_of_command shuffle hread]
      exact ends_performIn shuffle hnamed hshuffle command

end Commands

/-! A directory with two templates. -/

def gridFiles : FileSystem :=
  ((FileSystem.root.insert [Text.utf8 "t"] .directory).insert
    [Text.utf8 "a.gdf", Text.utf8 "t"] (deckNode [])).insert
      [Text.utf8 "b.gdf", Text.utf8 "t"] (deckNode [])

theorem named_gridFiles : gridFiles.Named := by
  have ht : IsName (Text.utf8 "t") := by constructor <;> decide
  have ha : IsName (Text.utf8 "a.gdf") := by constructor <;> decide
  have hb : IsName (Text.utf8 "b.gdf") := by constructor <;> decide
  have hdir : (FileSystem.root.insert [Text.utf8 "t"] .directory).Plain :=
    FileSystem.plain_root.insert_free ht rfl rfl (by simp)
  have hfirst : ((FileSystem.root.insert [Text.utf8 "t"] .directory).insert
      [Text.utf8 "a.gdf", Text.utf8 "t"] (deckNode [])).Plain :=
    hdir.insert_free ha rfl rfl (by simp [deckNode])
  have hplain : gridFiles.Plain := hfirst.insert_free hb rfl rfl (by simp [deckNode])
  intro name dir node h
  exact hplain.isName h

theorem ends_gridFiles : ∃ fs',
    Ends gridFiles (.ok (.generate (.ofString "t") none (some (.ofString "o")) "" none))
      ⟨0, "o/a.gdf\no/b.gdf\n".toList, none⟩ fs' := by
  have hread : read (["generate", "--templates", "t", "--output", "o"].map Text.utf8) =
      .ok (.generate (.ofString "t") none (some (.ofString "o")) "" none) := by cbv
  have hrun : (runIn List.reverse
      (["generate", "--templates", "t", "--output", "o"].map Text.utf8) gridFiles).1 =
        ⟨0, "o/a.gdf\no/b.gdf\n".toList, none⟩ := by cbv
  have hends := ends_run List.reverse gridFiles named_gridFiles List.reverse_perm
    (["generate", "--templates", "t", "--output", "o"].map Text.utf8)
  rw [hread, hrun] at hends
  exact ⟨_, hends⟩

end CommandLine
end InputDeck
