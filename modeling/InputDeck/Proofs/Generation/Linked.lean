/-
Passes over any file system, with links in it or without.

With links two destinations may be one file, or the destination of one deck the template of the
next, so what a pass leaves is not told by the names and their texts alone.  What still holds is
which paths are written and in which order (`Fills`), and that a pass which cannot go on ends in a
fault of the file system or of a template, never in one of the input it was given.
-/
import InputDeck.Proofs.Generation.Listing
import InputDeck.Proofs.Template.Settling

namespace InputDeck

/-- The faults of what a command is given besides templates: inputs that are not there, and settings
and variables that cannot be made out. -/
def Fault.ofInput : Fault → Bool
  | .noSuchInput _ | .json _ | .unknownFormat _ | .mismatch _ | .workbook _ | .unreadableWorkbook
  | .unknownAnalysis _ => true
  | _ => false

/-! ## Faults of templates -/

namespace Template

variable {vars : Variables} {place : Place} {fault : Fault}

theorem ofInput_of_resolveIndex {values : List Scalar} {token : List Char}
    (h : resolveIndex values place token = .error fault) : fault.ofInput = false := by
  unfold resolveIndex at h
  split at h
  · obtain rfl := Except.error.inj h
    rfl
  · split at h
    · obtain rfl := Except.error.inj h
      rfl
    · simp at h

theorem ofInput_of_resolveKey {values : Table String Value} {token : List Char}
    (h : resolveKey values place token = .error fault) : fault.ofInput = false := by
  unfold resolveKey at h
  split at h
  · obtain rfl := Except.error.inj h
    rfl
  · simp at h

theorem ofInput_of_resolve {token : List Char} (h : resolve vars place token = .error fault) :
    fault.ofInput = false := by
  cases vars with
  | absent => simp [resolve] at h
  | positional values => exact ofInput_of_resolveIndex (Result.map_eq_error_iff.1 h)
  | named values => exact ofInput_of_resolveKey (Result.map_eq_error_iff.1 h)

theorem ofInput_of_step {line : List Char} (h : step vars place line = .error fault) :
    fault.ofInput = false := by
  unfold step at h
  split at h
  · split at h
    · obtain rfl := Except.error.inj h
      rfl
    · exact ofInput_of_resolve (Result.map_eq_error_iff.1 h)
  · simp at h

theorem ofInput_of_takeSteps {count : Nat} {line : List Char}
    (h : takeSteps vars place count line = .error fault) : fault.ofInput = false := by
  induction count generalizing line with
  | zero => simp [takeSteps] at h
  | succ count ih =>
      rw [takeSteps] at h
      split at h
      · rename_i hstep
        obtain rfl := Except.error.inj h
        exact ofInput_of_step hstep
      · simp at h
      · exact ih h

theorem ofInput_of_substituteIfMarked {line : List Char}
    (h : substituteIfMarked vars place line = .error fault) : fault.ofInput = false := by
  unfold substituteIfMarked at h
  split at h
  · exact ofInput_of_takeSteps h
  · simp at h

theorem ofInput_of_substituteLines {file : String} {number : Nat} {lines : List (List Char)}
    (h : substituteLines vars file number lines = .error fault) : fault.ofInput = false := by
  induction lines generalizing number with
  | nil => simp [substituteLines] at h
  | cons line rest ih =>
      rw [substituteLines_cons] at h
      rcases Result.bind_eq_error_iff.1 h with hline | ⟨out, -, hrest⟩
      · exact ofInput_of_substituteIfMarked hline
      · exact ih (Result.map_eq_error_iff.1 hrest)

end Template

theorem FileSystem.ofInput_of_text {fs : FileSystem} {p : Path} {fault : Fault}
    (h : fs.text p = .error fault) : fault.ofInput = false := by
  unfold FileSystem.text at h
  split at h
  · obtain rfl := Except.error.inj h
    rfl
  · obtain rfl := Except.error.inj h
    rfl
  · split at h
    · simp at h
    · obtain rfl := Except.error.inj h
      rfl

theorem FileSystem.ofInput_of_deck {fs : FileSystem} {vars : Variables} {template : Path}
    {fault : Fault} (h : fs.deck vars template = .error fault) : fault.ofInput = false := by
  unfold FileSystem.deck at h
  rcases Result.bind_eq_error_iff.1 h with htext | ⟨text, -, hdeck⟩
  · exact ofInput_of_text htext
  · rw [Deck.ofTemplate_eq] at hdeck
    exact Template.ofInput_of_substituteLines (Result.map_eq_error_iff.1 hdeck)

/-! ## Paths written -/

/-- That the nodes below the root have names that a path can spell. -/
def FileSystem.Named (fs : FileSystem) : Prop :=
  ∀ {name dir node}, fs.node? (name :: dir) = some node → IsName name

/-- That files are written under these paths, one after another. -/
inductive Writes : List Path → FileSystem → FileSystem → Prop
  | nil (fs : FileSystem) : Writes [] fs fs
  | cons {p : Path} {paths : List Path} {data : ByteArray} {fs next fs' : FileSystem}
      (h : fs.write p (.bytes data) = .ok next) (hrest : Writes paths next fs') :
      Writes (p :: paths) fs fs'

namespace Generation

/-- That the decks of a template directory are written in the order of their names, once the target
is made. -/
structure Fills (fs : FileSystem) (templates target : Path) (selection : Selection)
    (listing names : List FileName) (fs' : FileSystem) : Prop where
  mem_iff : ∀ n, n ∈ names ↔ n ∈ listing ∧ fs.isFile (templates.join ⟨n⟩) = true ∧
    selection.admits (templates.join ⟨n⟩) = true
  increasing : names.Pairwise fun a b => compare a b = .lt
  writes : ∃ made, (FileStore.makeDirectories target : StateM FileSystem _).run fs =
    (.ok (), made) ∧ Writes (names.map fun n => target.join ⟨n⟩) made fs'

variable {templates target : Path} {vars : Variables} {selection : Selection}

theorem on_write_linked {n : FileName} (hn : IsName n) (fs : FileSystem) :
    (∃ data next, Job.on (Deck.write vars target (templates.join ⟨n⟩)) fs =
        (.ok (target.join ⟨n⟩), next) ∧ fs.write (target.join ⟨n⟩) (.bytes data) = .ok next) ∨
    ∃ fault, Job.on (Deck.write vars target (templates.join ⟨n⟩)) fs = (.error fault, fs) ∧
      fault.ofInput = false := by
  rw [Deck.on_write]
  cases hdeck : fs.deck vars (templates.join ⟨n⟩) with
  | error fault => exact Or.inr ⟨fault, rfl, FileSystem.ofInput_of_deck hdeck⟩
  | ok deck =>
      have hname := Deck.fileName_deck vars (Path.fileName_join hn templates) hdeck
      dsimp only
      rw [hname]
      cases hwrite : fs.write (target.join ⟨n⟩) (.bytes (String.ofList deck.contents).toUTF8) with
      | error refusal => exact Or.inr ⟨.file refusal, rfl, rfl⟩
      | ok next => exact Or.inl ⟨_, next, rfl, hwrite⟩

/-- By induction on the names, with the state that the decks before them leave. -/
theorem on_writeEach_linked {names : List FileName} (hnames : ∀ n ∈ names, IsName n)
    (fs : FileSystem) :
    (∃ fs', Job.on (Deck.writeEach vars target (names.map fun n => templates.join ⟨n⟩)) fs =
        (.ok (names.map fun n => target.join ⟨n⟩), fs') ∧
        Writes (names.map fun n => target.join ⟨n⟩) fs fs') ∨
    ∃ fault fs', Job.on (Deck.writeEach vars target (names.map fun n => templates.join ⟨n⟩)) fs =
        (.error fault, fs') ∧ fault.ofInput = false := by
  induction names generalizing fs with
  | nil => exact Or.inl ⟨fs, rfl, .nil fs⟩
  | cons n rest ih =>
      rw [List.map_cons, List.map_cons, Deck.writeEach, Job.on_bind]
      rcases on_write_linked (hnames n List.mem_cons_self) fs with
        ⟨data, next, hwrite, hdata⟩ | ⟨fault, hwrite, hfault⟩
      · rw [hwrite]
        dsimp only
        rw [Job.on_bind]
        rcases ih (fun n' hn' => hnames n' (List.mem_cons_of_mem _ hn')) next with
          ⟨fs', hrest, hwrites⟩ | ⟨fault, fs', hrest, hfault⟩
        · rw [hrest]
          exact Or.inl ⟨fs', rfl, .cons hdata hwrites⟩
        · rw [hrest]
          exact Or.inr ⟨fault, fs', rfl, hfault⟩
      · rw [hwrite]
        exact Or.inr ⟨fault, fs, rfl, hfault⟩

theorem nodup_and_isName_of_names {fs : FileSystem} (hnamed : fs.Named) {listing : List FileName}
    (h : fs.names templates = .ok listing) : listing.Nodup ∧ ∀ n ∈ listing, IsName n := by
  obtain ⟨source, -, rfl⟩ := resolve_of_names h
  refine ⟨FileSystem.nodup_children source, ?_⟩
  intro n hn
  obtain ⟨node, hnode⟩ := FileSystem.mem_children.1 hn
  exact hnamed hnode

theorem on_writeListed_linked (target : Path) (vars : Variables) (selection : Selection)
    {fs : FileSystem} (hnamed : fs.Named) {listing order : List FileName}
    (hlisting : fs.names templates = .ok listing) (horder : order.Perm listing) :
    (∃ names fs', Job.on (writeListed templates target vars selection order) fs =
        (.ok (names.map fun n => target.join ⟨n⟩), fs') ∧
        Fills fs templates target selection listing names fs') ∨
    ∃ fault fs', Job.on (writeListed templates target vars selection order) fs =
        (.error fault, fs') ∧ fault.ofInput = false := by
  obtain ⟨hnodup, hnames⟩ := nodup_and_isName_of_names hnamed hlisting
  rw [on_writeListed]
  cases hmake : (FileStore.makeDirectories target : StateM FileSystem _).run fs with
  | mk result made =>
      cases result with
      | error refusal => exact Or.inr ⟨.file refusal, made, rfl, rfl⟩
      | ok done =>
          dsimp only
          generalize hsorted : sortNames (order.filter fun n =>
            fs.isFile (templates.join ⟨n⟩) && selection.admits (templates.join ⟨n⟩)) = names
          have hmem : ∀ n, n ∈ names ↔ n ∈ listing ∧ fs.isFile (templates.join ⟨n⟩) = true ∧
              selection.admits (templates.join ⟨n⟩) = true := by
            intro n
            rw [← hsorted, sortNames, List.mem_mergeSort, List.mem_filter, horder.mem_iff,
              Bool.and_eq_true]
          have hincreasing : names.Pairwise fun a b => compare a b = .lt :=
            hsorted ▸ pairwise_sortNames ((horder.nodup_iff.2 hnodup).filter _)
          rcases on_writeEach_linked (fun n hn => hnames n ((hmem n).1 hn).1) made with
            ⟨fs', hrun, hwrites⟩ | ⟨fault, fs', hrun, hfault⟩
          · exact Or.inl ⟨names, fs', hrun, hmem, hincreasing, made, hmake, hwrites⟩
          · exact Or.inr ⟨fault, fs', hrun, hfault⟩

end Generation
end InputDeck
