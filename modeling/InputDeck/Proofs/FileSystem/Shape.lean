/-
File systems of one shape, and runs that do the same to both.

Two file systems have one shape if they differ at most in what their files hold.  Paths lead to the
same places in both, and directories can be made in both or in neither.  What a run does is told by
the nodes it puts into a file system one after another; two runs are parallel if they come to the
same result and put the same nodes at the same places, and at none where the file systems differ.

The theorem this file exists for is `parallel_makeDirectories`.  Links may be there as well.
-/
import InputDeck.Proofs.FileSystem.Directories

namespace InputDeck
namespace FileSystem

variable {fs fs' : FileSystem}

/-- That two file systems differ at most in what their files hold. -/
structure SameShape (fs fs' : FileSystem) : Prop where
  workingDirectory_eq : fs'.workingDirectory = fs.workingDirectory
  node? : ∀ location, fs'.node? location = fs.node? location ∨ ∃ contents contents',
    fs.node? location = some (.file contents) ∧ fs'.node? location = some (.file contents')

/-! ## Where paths lead -/

section Walk

variable (h : SameShape fs fs') (purpose : Purpose)
include h

theorem SameShape.isNone_node? (location : Location) :
    (fs'.node? location).isNone = (fs.node? location).isNone := by
  rcases h.node? location with heq | ⟨contents, contents', hfile, hfile'⟩
  · rw [heq]
  · rw [hfile, hfile']
    rfl

theorem SameShape.advance (location : Location) (steps : List FileName) :
    fs'.advance purpose location steps = fs.advance purpose location steps ∨
    ∃ found contents contents',
      fs.advance purpose location steps = .ok (.arrived (.file found contents)) ∧
      fs'.advance purpose location steps = .ok (.arrived (.file found contents')) := by
  induction steps generalizing location with
  | nil =>
      rcases h.node? location with heq | ⟨contents, contents', hfile, hfile'⟩
      · left
        rw [FileSystem.advance, FileSystem.advance, heq]
      · right
        refine ⟨location, contents, contents', ?_, ?_⟩
        · rw [FileSystem.advance, hfile]
        · rw [FileSystem.advance, hfile']
  | cons step rest ih =>
      rcases h.node? location with heq | ⟨contents, contents', hfile, hfile'⟩
      · cases hnode : fs.node? location with
        | none =>
            left
            rw [FileSystem.advance, FileSystem.advance, heq, hnode]
        | some node =>
            cases node with
            | file contents =>
                left
                rw [FileSystem.advance, FileSystem.advance, heq, hnode]
            | link target =>
                left
                rw [FileSystem.advance, FileSystem.advance, heq, hnode]
            | directory =>
                rw [advance_step hnode, advance_step (heq.trans hnode), h.isNone_node?]
                split
                · exact ih location
                split
                · exact ih location.tail
                split
                · exact Or.inl rfl
                split
                · exact Or.inl rfl
                split
                · exact Or.inl rfl
                · exact ih (step :: location)
      · left
        rw [FileSystem.advance, FileSystem.advance, hfile, hfile']

/-- By induction on the links that may still be followed. -/
theorem SameShape.follow (links : Nat) (location : Location) (steps : List FileName) :
    fs'.follow purpose links location steps = fs.follow purpose links location steps ∨
    ∃ found contents contents',
      fs.follow purpose links location steps = .ok (.file found contents) ∧
      fs'.follow purpose links location steps = .ok (.file found contents') := by
  induction links generalizing location steps with
  | zero =>
      unfold FileSystem.follow
      rcases h.advance purpose location steps with heq | ⟨found, contents, contents', hfile, hfile'⟩
      · rw [heq]
        exact Or.inl rfl
      · rw [hfile, hfile']
        exact Or.inr ⟨found, contents, contents', rfl, rfl⟩
  | succ links ih =>
      unfold FileSystem.follow
      rcases h.advance purpose location steps with heq | ⟨found, contents, contents', hfile, hfile'⟩
      · rw [heq]
        cases fs.advance purpose location steps with
        | error fault => exact Or.inl rfl
        | ok stretch =>
            cases stretch with
            | arrived arrival => exact Or.inl rfl
            | link dir target rest => exact ih (start dir target) (target.steps ++ rest)
      · rw [hfile, hfile']
        exact Or.inr ⟨found, contents, contents', rfl, rfl⟩

theorem SameShape.resolve (p : Path) :
    fs'.resolve purpose p = fs.resolve purpose p ∨ ∃ found contents contents',
      fs.resolve purpose p = .ok (.file found contents) ∧
      fs'.resolve purpose p = .ok (.file found contents') := by
  unfold FileSystem.resolve
  rw [h.workingDirectory_eq]
  cases refusal p with
  | some fault => exact Or.inl rfl
  | none => exact h.follow purpose linkLimit (start fs.workingDirectory p) p.steps

omit purpose

theorem SameShape.isDirectory_eq (p : Path) : fs'.isDirectory p = fs.isDirectory p := by
  unfold isDirectory
  rcases h.resolve .visit p with heq | ⟨found, contents, contents', hfile, hfile'⟩
  · rw [heq]
  · rw [hfile, hfile']

theorem SameShape.resolve_directory {p : Path} {dir : Location}
    (hr : fs.resolve .visit p = .ok (.directory dir)) :
    fs'.resolve .visit p = .ok (.directory dir) := by
  rcases h.resolve .visit p with heq | ⟨found, contents, contents', hfile, -⟩
  · rw [heq, hr]
  · rw [hr] at hfile
    simp at hfile

theorem SameShape.opens {p : Path} {dir : Location} (ho : fs.Opens p dir) : fs'.Opens p dir := by
  unfold Opens at ho ⊢
  split
  · rename_i hnil
    rw [if_pos hnil] at ho
    rw [ho, h.workingDirectory_eq]
  · rename_i hnil
    rw [if_neg hnil] at ho
    exact h.resolve_directory ho

theorem SameShape.names_cases (p : Path) :
    (∃ fault, fs.names p = .error fault ∧ fs'.names p = .error fault) ∨
    ∃ source, fs.resolve .visit p = .ok (.directory source) ∧
      fs.names p = .ok (fs.children source) ∧ fs'.names p = .ok (fs'.children source) := by
  unfold names
  rcases h.resolve .visit p with heq | ⟨found, contents, contents', hfile, hfile'⟩
  · rw [heq]
    cases hr : fs.resolve .visit p with
    | error fault => exact Or.inl ⟨fault, rfl, rfl⟩
    | ok arrival =>
        cases arrival with
        | file location contents => exact Or.inl ⟨_, rfl, rfl⟩
        | absent dir name => exact Or.inl ⟨_, rfl, rfl⟩
        | directory source => exact Or.inr ⟨source, rfl, rfl, rfl⟩
  · rw [hfile, hfile']
    exact Or.inl ⟨_, rfl, rfl⟩

theorem SameShape.lastName_eq (p : Path) : fs'.lastName p = fs.lastName p := by
  unfold lastName
  rw [h.workingDirectory_eq]
  cases refusal p with
  | some fault => rfl
  | none =>
      dsimp only
      cases p.withoutFinalSlashes.steps.getLast? with
      | none => rfl
      | some name =>
          rcases h.follow .visit linkLimit (start fs.workingDirectory p)
              p.withoutFinalSlashes.steps.dropLast with
            heq | ⟨found, contents, contents', hfile, hfile'⟩
          · rw [heq]
          · rw [hfile, hfile']

theorem SameShape.vacancy_eq (p : Path) : fs'.vacancy p = fs.vacancy p := by
  unfold vacancy
  rw [h.lastName_eq]
  cases fs.lastName p with
  | error fault => rfl
  | ok found =>
      dsimp only
      rw [h.isNone_node?]

end Walk

theorem SameShape.node?_directory (h : SameShape fs fs') {location : Location}
    (hdirectory : fs.node? location = some .directory) :
    fs'.node? location = some .directory := by
  rcases h.node? location with heq | ⟨contents, contents', hfile, -⟩
  · rw [heq, hdirectory]
  · simp [hdirectory] at hfile

theorem SameShape.exists_node (h : SameShape fs fs') {location : Location} {node' : Node}
    (hnode' : fs'.node? location = some node') : ∃ node, fs.node? location = some node := by
  rcases h.node? location with heq | ⟨contents, contents', hfile, -⟩
  · exact ⟨node', heq ▸ hnode'⟩
  · exact ⟨_, hfile⟩

theorem SameShape.exists_file_iff (h : SameShape fs fs') (location : Location) :
    (∃ contents, fs'.node? location = some (.file contents)) ↔
      ∃ contents, fs.node? location = some (.file contents) := by
  rcases h.node? location with heq | ⟨contents, contents', hfile, hfile'⟩
  · rw [heq]
  · exact ⟨fun _ => ⟨_, hfile⟩, fun _ => ⟨_, hfile'⟩⟩

theorem SameShape.plain (h : SameShape fs fs') (hp : fs.Plain) : fs'.Plain where
  isName hnode' := by
    obtain ⟨node, hnode⟩ := h.exists_node hnode'
    exact hp.isName hnode
  parent hnode' := by
    obtain ⟨node, hnode⟩ := h.exists_node hnode'
    exact h.node?_directory (hp.parent hnode)
  working := by
    rw [h.workingDirectory_eq]
    exact h.node?_directory hp.working
  noLink := by
    intro location target hlink'
    rcases h.node? location with heq | ⟨contents, contents', -, hfile'⟩
    · exact hp.noLink (heq ▸ hlink')
    · simp [hlink'] at hfile'

theorem SameShape.insert (h : SameShape fs fs') (location : Location) (node : Node) :
    SameShape (fs.insert location node) (fs'.insert location node) where
  workingDirectory_eq := h.workingDirectory_eq
  node? := by
    intro location'
    by_cases he : location' = location
    · subst he
      left
      cases location' with
      | nil => rfl
      | cons name dir => rw [node?_insert_self, node?_insert_self]
    · rw [node?_insert_ne he, node?_insert_ne he]
      exact h.node? location'

/-! ## Parallel runs -/

/-- The file system with nodes put at their locations one after another. -/
def putAll (changes : List (Location × Node)) (fs : FileSystem) : FileSystem :=
  changes.foldl (fun fs change => fs.insert change.1 change.2) fs

theorem putAll_append (changes more : List (Location × Node)) (fs : FileSystem) :
    putAll (changes ++ more) fs = putAll more (putAll changes fs) :=
  List.foldl_append

theorem node?_insert_congr {location : Location} (node : Node) {location' : Location}
    (h : location' ≠ location → fs'.node? location' = fs.node? location') :
    (fs'.insert location node).node? location' = (fs.insert location node).node? location' := by
  by_cases he : location' = location
  · subst he
    cases location' with
    | nil => rfl
    | cons name dir => rw [node?_insert_self, node?_insert_self]
  · rw [node?_insert_ne he, node?_insert_ne he, h he]

theorem node?_putAll_congr (changes : List (Location × Node)) {location : Location}
    (h : fs'.node? location = fs.node? location) :
    (putAll changes fs').node? location = (putAll changes fs).node? location := by
  induction changes generalizing fs fs' with
  | nil => exact h
  | cons change rest ih => exact ih (node?_insert_congr change.2 fun _ => h)

theorem node?_putAll_of_not_mem {changes : List (Location × Node)} {location : Location}
    (h : ∀ change ∈ changes, change.1 ≠ location) :
    (putAll changes fs).node? location = fs.node? location := by
  induction changes generalizing fs with
  | nil => rfl
  | cons change rest ih =>
      have hrest : (putAll rest (fs.insert change.1 change.2)).node? location =
          (fs.insert change.1 change.2).node? location :=
        ih fun c hc => h c (List.mem_cons_of_mem _ hc)
      have hne : location ≠ change.1 := fun e => h change List.mem_cons_self e.symm
      exact hrest.trans (node?_insert_ne hne _)

theorem SameShape.putAll (h : SameShape fs fs') (changes : List (Location × Node)) :
    SameShape (putAll changes fs) (putAll changes fs') := by
  induction changes generalizing fs fs' with
  | nil => exact h
  | cons change rest ih => exact ih (h.insert change.1 change.2)

/-- That two runs come to the same and make the same changes, none of them where the file systems
differ to begin with. -/
structure Parallel {α : Type} (fs fs' : FileSystem) (run run' : α × FileSystem) : Prop where
  result_eq : run'.1 = run.1
  changes : ∃ changes : List (Location × Node),
    run.2 = putAll changes fs ∧ run'.2 = putAll changes fs' ∧
      ∀ change ∈ changes, fs'.node? change.1 = fs.node? change.1

variable {α β : Type}

theorem parallel_unchanged (fs fs' : FileSystem) (result : α) :
    Parallel fs fs' (result, fs) (result, fs') :=
  ⟨rfl, [], rfl, rfl, by simp⟩

theorem parallel_insert {location : Location} (h : fs'.node? location = fs.node? location)
    (node : Node) (result : α) :
    Parallel fs fs' (result, fs.insert location node) (result, fs'.insert location node) := by
  refine ⟨rfl, [(location, node)], rfl, rfl, ?_⟩
  intro change hchange
  rw [List.mem_singleton.1 hchange]
  exact h

theorem Parallel.trans {mid mid' : α × FileSystem} {run run' : β × FileSystem}
    (h : Parallel fs fs' mid mid') (h' : Parallel mid.2 mid'.2 run run') :
    Parallel fs fs' run run' := by
  obtain ⟨changes, hmid, hmid', hsame⟩ := h.changes
  obtain ⟨more, hrun, hrun', hmore⟩ := h'.changes
  refine ⟨h'.result_eq, changes ++ more, ?_, ?_, ?_⟩
  · rw [putAll_append, ← hmid, hrun]
  · rw [putAll_append, ← hmid', hrun']
  · intro change hchange
    by_cases hearlier : ∃ earlier ∈ changes, earlier.1 = change.1
    · obtain ⟨earlier, hmem, he⟩ := hearlier
      rw [← he]
      exact hsame earlier hmem
    · have hother : ∀ earlier ∈ changes, earlier.1 ≠ change.1 := fun earlier hmem he =>
        hearlier ⟨earlier, hmem, he⟩
      rcases List.mem_append.1 hchange with hmem | hmem
      · exact absurd rfl (hother change hmem)
      · have hmade := hmore change hmem
        rw [hmid, hmid', node?_putAll_of_not_mem hother, node?_putAll_of_not_mem hother] at hmade
        exact hmade

theorem Parallel.sameShape (h : SameShape fs fs') {run run' : α × FileSystem}
    (hruns : Parallel fs fs' run run') : SameShape run.2 run'.2 := by
  obtain ⟨changes, hrun, hrun', -⟩ := hruns.changes
  rw [hrun, hrun']
  exact h.putAll changes

theorem Parallel.node?_eq {run run' : α × FileSystem} (h : Parallel fs fs' run run')
    {location : Location} (hsame : fs'.node? location = fs.node? location) :
    run'.2.node? location = run.2.node? location := by
  obtain ⟨changes, hrun, hrun', -⟩ := h.changes
  rw [hrun, hrun']
  exact node?_putAll_congr changes hsame

/-! ## Directories made in both -/

/-- A directory is made in both file systems at one place, or refused by both. -/
theorem makeDirectory_cases_of_sameShape (h : SameShape fs fs') (p : Path) :
    (∃ location, fs.node? location = none ∧ fs'.node? location = none ∧
      fs.makeDirectory p = .ok (fs.insert location .directory) ∧
      fs'.makeDirectory p = .ok (fs'.insert location .directory)) ∨
    ∃ fault, fs.makeDirectory p = .error fault ∧ fs'.makeDirectory p = .error fault := by
  unfold makeDirectory
  rw [h.vacancy_eq]
  cases hv : fs.vacancy p with
  | error fault => exact Or.inr ⟨fault, rfl, rfl⟩
  | ok location =>
      obtain ⟨dir, n, -, -, -, hnone⟩ := vacancy_eq_ok.1 hv
      have hnone' := h.isNone_node? location
      rw [hnone, Option.isNone_none, Option.isNone_iff_eq_none] at hnone'
      exact Or.inl ⟨location, hnone, hnone', rfl, rfl⟩

theorem parallel_settle (h : SameShape fs fs') (p : Path) (fault : FileFault) :
    Parallel fs fs' ((FileStore.settle p fault : StateM FileSystem _).run fs)
      ((FileStore.settle p fault : StateM FileSystem _).run fs') := by
  rw [run_settle, run_settle, h.isDirectory_eq]
  exact parallel_unchanged fs fs' _

/-- By induction on the chain: what is made above the first path is the same in both. -/
theorem parallel_makeChain (h : SameShape fs fs') (paths : List Path) :
    Parallel fs fs' ((FileStore.makeChain paths : StateM FileSystem _).run fs)
      ((FileStore.makeChain paths : StateM FileSystem _).run fs') := by
  induction paths with
  | nil => exact parallel_unchanged fs fs' _
  | cons p parents ih =>
      rw [run_makeChain_cons, run_makeChain_cons]
      rcases makeDirectory_cases_of_sameShape h p with
        ⟨location, hnone, hnone', hmake, hmake'⟩ | ⟨fault, hmake, hmake'⟩
      · rw [hmake, hmake']
        exact parallel_insert (hnone'.trans hnone.symm) .directory _
      · rw [hmake, hmake']
        cases fault with
        | notFound =>
            dsimp only
            have hshape := Parallel.sameShape h ih
            generalize (FileStore.makeChain parents : StateM FileSystem _).run fs = run at ih hshape
            generalize (FileStore.makeChain parents : StateM FileSystem _).run fs' = run' at ih hshape
            obtain ⟨result, made⟩ := run
            obtain ⟨result', made'⟩ := run'
            obtain rfl : result' = result := ih.result_eq
            cases result' with
            | error fault => exact ih
            | ok done =>
                dsimp only
                refine ih.trans ?_
                rcases makeDirectory_cases_of_sameShape hshape p with
                  ⟨location, hnone, hnone', hagain, hagain'⟩ | ⟨fault, hagain, hagain'⟩
                · dsimp only at hagain hagain'
                  rw [hagain, hagain']
                  exact parallel_insert (hnone'.trans hnone.symm) .directory _
                · dsimp only at hagain hagain'
                  rw [hagain, hagain']
                  exact parallel_settle hshape p fault
        | _ => exact parallel_settle h p _

theorem parallel_makeDirectories (h : SameShape fs fs') (p : Path) :
    Parallel fs fs' ((FileStore.makeDirectories p : StateM FileSystem _).run fs)
      ((FileStore.makeDirectories p : StateM FileSystem _).run fs') := by
  unfold FileStore.makeDirectories
  split
  · exact parallel_unchanged fs fs' _
  · exact parallel_makeChain h (p :: p.ancestors)

end FileSystem
end InputDeck
