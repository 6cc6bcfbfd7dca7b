/-
What the pieces of a pass do to a file system.

A job of `StateM FileSystem` is run by `Job.on`, which ends in a result and the file system left.
Reading, rendering and picking templates leave the file system as it is; writing a deck puts one
file at its destination or nothing at all.
-/
import InputDeck.Generation
import InputDeck.Proofs.FileSystem.Walk
import InputDeck.Variables.File

namespace InputDeck

/-- What a job comes to on a file system, and the file system it leaves. -/
def Job.on {α : Type} (job : Job (StateM FileSystem) α) (fs : FileSystem) :
    Except Fault α × FileSystem :=
  StateT.run (ExceptT.run job) fs

namespace Job

variable {α β : Type}

theorem on_pure (a : α) (fs : FileSystem) :
    on (pure a) fs = (.ok a, fs) := rfl

theorem on_bind (job : Job (StateM FileSystem) α) (next : α → Job (StateM FileSystem) β)
    (fs : FileSystem) :
    on (job >>= next) fs =
      match on job fs with
      | (.ok a, fs') => on (next a) fs'
      | (.error fault, fs') => (.error fault, fs') := by
  unfold on
  rw [ExceptT.run_bind, StateT.run_bind]
  obtain ⟨result, fs'⟩ := StateT.run (ExceptT.run job) fs
  cases result <;> rfl

theorem on_look (request : StateM FileSystem α) (fs : FileSystem) :
    on (look request) fs = (.ok (request.run fs).1, (request.run fs).2) := rfl

theorem on_ask (request : StateM FileSystem (Except FileFault α)) (fs : FileSystem) :
    on (ask request) fs =
      match request.run fs with
      | (.ok a, fs') => (.ok a, fs')
      | (.error fault, fs') => (.error (.file fault), fs') := by
  show StateT.run (request >>= _) fs = _
  rw [StateT.run_bind]
  obtain ⟨result, fs'⟩ := request.run fs
  cases result <;> rfl

end Job

/-! ## Reading -/

namespace FileSystem

/-- The characters of the text file that a path leads to. -/
def text (fs : FileSystem) (p : Path) : Except Fault (List Char) :=
  match fs.read p with
  | .error fault => .error (.file fault)
  | .ok (.workbook _) => .error (.file .invalidText)
  | .ok (.bytes data) =>
      match String.fromUTF8? data with
      | some s => .ok s.toList
      | none => .error (.file .invalidText)

theorem text_of_read {fs : FileSystem} {p : Path} {text : List Char}
    (h : fs.read p = .ok (.bytes (String.ofList text).toUTF8)) : fs.text p = .ok text := by
  have hvalid : (String.ofList text).toUTF8.IsValidUTF8 := (String.ofList text).isValidUTF8
  rw [FileSystem.text, h]
  dsimp only
  rw [String.fromUTF8?, dif_pos hvalid]
  show Except.ok (String.ofList text).toList = _
  rw [String.toList_ofList]

/-- The variables that the file which a path leads to describes in a format, if there is one. -/
def variablesAs (fs : FileSystem) (p : Path) : Option DocumentFormat → Except Fault Variables
  | none => .error (.unknownFormat p)
  | some .json => (fs.text p).bind Variables.ofJsonText
  | some .workbook =>
      match fs.read p with
      | .ok (.workbook book) => Variables.ofWorkbook book
      | _ => .error .unreadableWorkbook

/-- The deck made from the template that a path leads to. -/
def deck (fs : FileSystem) (vars : Variables) (template : Path) : Except Fault Deck :=
  (fs.text template).bind (Deck.ofTemplate vars template)

end FileSystem

theorem Job.on_readText (p : Path) (fs : FileSystem) :
    Job.on (Job.readText p) fs = (fs.text p, fs) := by
  have hrun : (FileStore.read p : StateM FileSystem _).run fs = (fs.read p, fs) := rfl
  rw [Job.readText, Job.on_bind, Job.on_ask, hrun, FileSystem.text]
  cases fs.read p with
  | error fault => rfl
  | ok contents =>
      cases contents with
      | workbook book => rfl
      | bytes data =>
          dsimp only
          cases String.fromUTF8? data <;> rfl

theorem Settings.on_load (p : Path) (fs : FileSystem) :
    Job.on (Settings.load p) fs = ((fs.text p).bind Settings.ofJsonText, fs) := by
  rw [Settings.load, Job.on_bind, Job.on_readText]
  cases fs.text p <;> rfl

namespace Variables

theorem on_readWorkbookFile (p : Path) (fs : FileSystem) :
    Job.on (readWorkbookFile p) fs = (fs.variablesAs p (some .workbook), fs) := by
  have hrun : (FileStore.read p : StateM FileSystem _).run fs = (fs.read p, fs) := rfl
  show StateT.run (FileStore.read p >>= _) fs = _
  rw [StateT.run_bind, hrun, FileSystem.variablesAs]
  match fs.read p with
  | .ok (.workbook book) => rfl
  | .ok (.bytes data) => rfl
  | .error refusal => rfl

theorem on_load (p : Path) (format : Option DocumentFormat) (fs : FileSystem) :
    Job.on (load p format) fs = (fs.variablesAs p (format.or (DocumentFormat.ofPath? p)), fs) := by
  rw [load]
  match format.or (DocumentFormat.ofPath? p) with
  | none => rfl
  | some .json =>
      dsimp only
      rw [Job.on_bind, Job.on_readText, FileSystem.variablesAs]
      cases fs.text p <;> rfl
  | some .workbook => exact on_readWorkbookFile p fs

end Variables

theorem Job.on_writeText (p : Path) (text : List Char) (fs : FileSystem) :
    Job.on (Job.writeText p text) fs =
      match fs.write p (.bytes (String.ofList text).toUTF8) with
      | .ok fs' => (.ok (), fs')
      | .error fault => (.error (.file fault), fs) := by
  have hrun : (FileStore.write p (String.ofList text).toUTF8 : StateM FileSystem _).run fs =
      FileSystem.change (fs.write p (.bytes (String.ofList text).toUTF8)) fs := rfl
  rw [Job.writeText, Job.on_ask, hrun]
  cases fs.write p (.bytes (String.ofList text).toUTF8) <;> rfl

namespace Deck

variable (vars : Variables)

theorem on_read (template : Path) (fs : FileSystem) :
    Job.on (read vars template) fs = (fs.deck vars template, fs) := by
  rw [read, Job.on_bind, Job.on_readText, FileSystem.deck]
  cases fs.text template <;> rfl

theorem on_render (template : Path) (fs : FileSystem) :
    Job.on (render vars template) fs = ((fs.deck vars template).map contents, fs) := by
  rw [render, Job.on_bind, on_read]
  cases fs.deck vars template <;> rfl

theorem fileName_ofTemplate {path : Path} {n : FileName} (hname : path.fileName = some n)
    {text : List Char} {deck : Deck} (h : ofTemplate vars path text = .ok deck) :
    deck.fileName = n := by
  unfold ofTemplate at h
  dsimp only at h
  cases hs : Template.substituteLines vars path.display 1 (Template.lines text) with
  | error fault =>
      rw [hs] at h
      exact absurd h (by simp [bind, Except.bind])
  | ok substituted =>
      rw [hs] at h
      obtain rfl := Except.ok.inj h
      simp [hname]

theorem fileName_deck {fs : FileSystem} {path : Path} {n : FileName}
    (hname : path.fileName = some n) {deck : Deck} (h : fs.deck vars path = .ok deck) :
    deck.fileName = n := by
  unfold FileSystem.deck at h
  cases htext : fs.text path with
  | error fault => simp [htext, Except.bind] at h
  | ok text =>
      rw [htext] at h
      exact fileName_ofTemplate vars hname h

/-! ## Writing -/

theorem on_write (target template : Path) (fs : FileSystem) :
    Job.on (write vars target template) fs =
      match fs.deck vars template with
      | .error fault => (.error fault, fs)
      | .ok deck =>
          match fs.write (target.join ⟨deck.fileName⟩)
              (.bytes (String.ofList deck.contents).toUTF8) with
          | .error fault => (.error (.file fault), fs)
          | .ok fs' => (.ok (target.join ⟨deck.fileName⟩), fs') := by
  rw [write, Job.on_bind, on_read]
  cases fs.deck vars template with
  | error fault => rfl
  | ok deck =>
      dsimp only
      rw [Job.on_bind, Job.on_writeText]
      cases fs.write (target.join ⟨deck.fileName⟩)
        (.bytes (String.ofList deck.contents).toUTF8) <;> rfl

end Deck

namespace Generation

theorem on_templateNames (selection : Selection) (directory : Path) (listing : List FileName)
    (fs : FileSystem) :
    Job.on (templateNames selection directory listing) fs =
      (.ok (listing.filter fun n =>
        fs.isFile (directory.join ⟨n⟩) && selection.admits (directory.join ⟨n⟩)), fs) := by
  induction listing with
  | nil => rfl
  | cons name rest ih =>
      rw [templateNames, Job.on_bind, Job.on_look]
      show Job.on (templateNames selection directory rest >>= _) fs = _
      rw [Job.on_bind, ih, List.filter_cons]
      show Job.on (pure _) fs = _
      rw [Job.on_pure]
      show (Except.ok (if fs.isFile (directory.join ⟨name⟩) && _ then _ else _), fs) = _
      split <;> rfl

theorem on_writeListed (templates target : Path) (vars : Variables) (selection : Selection)
    (listing : List FileName) (fs : FileSystem) :
    Job.on (writeListed templates target vars selection listing) fs =
      match (FileStore.makeDirectories target : StateM FileSystem _).run fs with
      | (.error fault, made) => (.error (.file fault), made)
      | (.ok (), made) =>
          Job.on (Deck.writeEach vars target
            ((sortNames (listing.filter fun n =>
              fs.isFile (templates.join ⟨n⟩) && selection.admits (templates.join ⟨n⟩))).map
                fun n => templates.join ⟨n⟩)) made := by
  rw [writeListed, Job.on_bind, on_templateNames]
  dsimp only
  rw [Job.on_bind, Job.on_ask]
  obtain ⟨result, made⟩ := (FileStore.makeDirectories target : StateM FileSystem _).run fs
  cases result <;> rfl

end Generation

end InputDeck
