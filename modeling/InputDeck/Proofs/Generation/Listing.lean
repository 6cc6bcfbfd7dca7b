/-
The names that a pass works through, and what it does with them.

`Passes` is a pass in which the template directory is listed in any order; `writeDecks` is one of
them.  Whatever that order was, the names are those of `Lists` in increasing order, since sorting
leaves no choice among different names.  What the pass does once the target is made is told by
`Passes.eq_of_made`.
-/
import InputDeck.Proofs.FileSystem.Directories
import InputDeck.Proofs.Generation.Pass

namespace InputDeck
namespace Generation

open FileSystem (pathLimit Made)

variable {fs fs' made : FileSystem} {templates target : Path} {vars : Variables}
  {selection : Selection}

/-! ## The names of the templates -/

theorem isLE_trans_name (a b c : FileName) (hab : (compare a b).isLE = true)
    (hbc : (compare b c).isLE = true) : (compare a c).isLE = true :=
  Std.TransOrd.isLE_trans hab hbc

theorem isLE_total_name (a b : FileName) :
    ((compare a b).isLE || (compare b a).isLE) = true := by
  have hswap : compare b a = (compare a b).swap := Std.OrientedOrd.eq_swap
  rw [hswap]
  cases compare a b <;> rfl

theorem pairwise_sortNames {names : List FileName} (h : names.Nodup) :
    (sortNames names).Pairwise fun a b => compare a b = .lt := by
  have hsorted := List.pairwise_mergeSort isLE_trans_name isLE_total_name names
  have hnodup : (sortNames names).Nodup := (List.mergeSort_perm names _).nodup_iff.2 h
  refine (hsorted.and hnodup).imp ?_
  rintro a b ⟨hle, hne⟩
  cases hab : compare a b with
  | lt => rfl
  | eq => exact absurd (Std.LawfulEqOrd.eq_of_compare hab) hne
  | gt => simp [hab] at hle

/-- The names of a directory's templates in increasing order: of its files those that the
selection admits, if the path is not too long when it is continued by the name. -/
structure Lists (fs : FileSystem) (templates : Path) (source : Location) (selection : Selection)
    (names : List FileName) : Prop where
  increasing : names.Pairwise fun a b => compare a b = .lt
  mem_iff : ∀ n, n ∈ names ↔ (∃ contents, fs.node? (n :: source) = some (.file contents)) ∧
    selection.admits ⟨n⟩ = true ∧ (templates.join ⟨n⟩).bytes.length ≤ pathLimit

theorem Lists.nodup {source : Location} {names : List FileName}
    (h : Lists fs templates source selection names) : names.Nodup := by
  refine h.increasing.imp ?_
  intro a b hlt he
  rw [he, Std.ReflOrd.compare_self] at hlt
  simp at hlt

theorem Lists.isName (hp : fs.Plain) {source : Location} {names : List FileName}
    (h : Lists fs templates source selection names) : ∀ n ∈ names, IsName n := by
  intro n hn
  obtain ⟨⟨contents, hnode⟩, -⟩ := (h.mem_iff n).1 hn
  exact hp.isName hnode

/-- An increasing list is told by its members. -/
theorem Lists.eq_of_mem_iff {fs' : FileSystem} {source source' : Location}
    {names names' : List FileName} (h : Lists fs templates source selection names)
    (h' : Lists fs' templates source' selection names') (hmem : ∀ n, n ∈ names' ↔ n ∈ names) :
    names' = names := by
  have hperm : names'.Perm names := (List.perm_ext_iff_of_nodup h'.nodup h.nodup).2 hmem
  refine hperm.eq_of_pairwise ?_ h'.increasing h.increasing
  intro a b _ _ hab hba
  have hswap : compare b a = (compare a b).swap := Std.OrientedOrd.eq_swap
  simp [hab, hba] at hswap

theorem lists_sortNames (selection : Selection) (hp : fs.Plain) {source : Location}
    (ho : fs.Opens templates source) {listing : List FileName} (order : listing.Perm (fs.children source)) :
    Lists fs templates source selection (sortNames (listing.filter fun n =>
      fs.isFile (templates.join ⟨n⟩) && selection.admits (templates.join ⟨n⟩))) where
  increasing := by
    apply pairwise_sortNames
    exact (order.nodup_iff.2 (FileSystem.nodup_children source)).filter _
  mem_iff := by
    intro n
    rw [sortNames, List.mem_mergeSort, List.mem_filter, order.mem_iff, FileSystem.mem_children,
      Bool.and_eq_true]
    constructor
    · rintro ⟨⟨node, hnode⟩, hfile, hadmits⟩
      have hn := hp.isName hnode
      rw [Path.admits_join hn] at hadmits
      obtain ⟨hlength, hcontents⟩ := (FileSystem.isFile_join hp ho hn).1 hfile
      exact ⟨hcontents, hadmits, hlength⟩
    · rintro ⟨⟨contents, hnode⟩, hadmits, hlength⟩
      have hn := hp.isName hnode
      rw [Path.admits_join hn]
      exact ⟨⟨_, hnode⟩, (FileSystem.isFile_join hp ho hn).2 ⟨hlength, contents, hnode⟩, hadmits⟩

/-! ## Passes -/

/-- A pass over a template directory, whose names are listed in any order. -/
inductive Passes (fs : FileSystem) (templates target : Path) (vars : Variables)
    (selection : Selection) (result : Except Fault (List Path)) (fs' : FileSystem) : Prop
  | unlisted {refusal : FileFault} (h : fs.names templates = .error refusal)
      (hresult : result = .error (.file refusal)) (hstate : fs' = fs)
  | listed {names listing : List FileName} (h : fs.names templates = .ok names)
      (order : listing.Perm names)
      (hrun : Job.on (writeListed templates target vars selection listing) fs = (result, fs'))

theorem passes_writeDecks (fs : FileSystem) (templates target : Path) (vars : Variables)
    (selection : Selection) :
    Passes fs templates target vars selection
      (Job.on (writeDecks templates target vars selection) fs).1
      (Job.on (writeDecks templates target vars selection) fs).2 := by
  have hrun : (FileStore.names templates : StateM FileSystem _).run fs =
    (fs.names templates, fs) := rfl
  rw [writeDecks, Job.on_bind, Job.on_ask, hrun]
  cases h : fs.names templates with
  | error refusal => exact .unlisted h rfl rfl
  | ok names => exact .listed h (.refl names) rfl

theorem resolve_of_names {names : List FileName} (h : fs.names templates = .ok names) :
    ∃ source, fs.resolve .visit templates = .ok (.directory source) ∧
      names = fs.children source := by
  unfold FileSystem.names at h
  split at h
  · simp at h
  · simp at h
  · simp at h
  · rename_i source hr
    exact ⟨source, hr, (Except.ok.inj h).symm⟩

theorem Passes.eq_of_unlisted {result : Except Fault (List Path)}
    (h : Passes fs templates target vars selection result fs') {refusal : FileFault}
    (hnames : fs.names templates = .error refusal) :
    result = .error (.file refusal) ∧ fs' = fs := by
  cases h with
  | unlisted h hresult hstate =>
      rw [hnames] at h
      obtain rfl := Except.error.inj h
      exact ⟨hresult, hstate⟩
  | listed h order hrun => simp [hnames] at h

theorem Passes.eq_of_unmade {result : Except Fault (List Path)}
    (h : Passes fs templates target vars selection result fs')
    {names : List FileName} (hnames : fs.names templates = .ok names) {refusal : FileFault}
    (hmake : (FileStore.makeDirectories target : StateM FileSystem _).run fs =
      (.error refusal, made)) :
    result = .error (.file refusal) ∧ fs' = made := by
  cases h with
  | unlisted h => simp [hnames] at h
  | listed h order hrun =>
      rw [on_writeListed, hmake] at hrun
      obtain ⟨hresult, hstate⟩ := Prod.mk.inj hrun
      exact ⟨hresult.symm, hstate.symm⟩

/-- What a pass does once the target is made, in terms of the state it is made in. -/
theorem Passes.eq_of_made {result : Except Fault (List Path)} (hp : fs.Plain)
    (h : Passes fs templates target vars selection result fs')
    {names : List FileName} (hnames : fs.names templates = .ok names)
    (hmake : (FileStore.makeDirectories target : StateM FileSystem _).run fs = (.ok (), made)) :
    Made (target :: target.ancestors) fs made ∧ ∃ source dir names,
      fs.resolve .visit templates = .ok (.directory source) ∧
      Ready templates target made source dir ∧
      Lists fs templates source selection names ∧
      result = (match (upToFault (outcome templates target vars made) names).2 with
        | none => .ok (names.map fun n => target.join ⟨n⟩)
        | some fault => .error fault) ∧
      fs' = place dir (upToFault (outcome templates target vars made) names).1 made := by
  obtain ⟨hmade, hopens⟩ := FileSystem.makes_makeDirectories hp target hmake
  obtain ⟨dir, htarget⟩ := hopens rfl
  obtain ⟨source, hr, hchildren⟩ := resolve_of_names hnames
  have ho := FileSystem.opens_of_resolve hr
  have hready : Ready templates target made source dir :=
    ⟨hmade.plain, ho.keeps hp hmade.plain hmade.keeps, htarget⟩
  cases h with
  | unlisted h => simp [hnames] at h
  | listed h order hrun =>
      rw [hnames] at h
      obtain rfl := Except.ok.inj h
      have hlists := lists_sortNames selection hp ho (hchildren ▸ order)
      rw [on_writeListed, hmake] at hrun
      dsimp only at hrun
      rw [on_writeEach (hlists.isName hp) hlists.nodup hready] at hrun
      obtain ⟨hresult, hstate⟩ := Prod.mk.inj hrun
      exact ⟨hmade, source, dir, _, hr, hready, hlists, hresult.symm, hstate.symm⟩

theorem Passes.made_of_ok {paths : List Path}
    (h : Passes fs templates target vars selection (.ok paths) fs') :
    ∃ names made, fs.names templates = .ok names ∧
      (FileStore.makeDirectories target : StateM FileSystem _).run fs = (.ok (), made) := by
  cases h with
  | unlisted h hresult => simp at hresult
  | @listed names listing h order hrun =>
      rw [on_writeListed] at hrun
      cases hmake : (FileStore.makeDirectories target : StateM FileSystem _).run fs with
      | mk result made =>
          cases result with
          | ok done => exact ⟨names, made, h, rfl⟩
          | error refusal => simp [hmake] at hrun

end Generation
end InputDeck
