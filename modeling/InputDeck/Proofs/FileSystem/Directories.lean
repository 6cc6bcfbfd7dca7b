/-
Directories made together with those above them.

Whether or not it succeeds, a run of `makeDirectories` only puts directories where nothing was, and
each of them is what the path or one of its ancestors then leads to: `Made`.  If it succeeds, the
path opens a directory.  Where that is so to begin with, it succeeds and makes none.
-/
import InputDeck.FileStore
import InputDeck.Proofs.FileSystem.Walk

namespace InputDeck
namespace FileSystem

variable {fs fs' fs'' : FileSystem}

/-! ## One directory -/

theorem leads_name {dir : Location} {n : FileName} (hn : IsName n)
    (hdir : fs.node? dir = some .directory) (hnode : fs.node? (n :: dir) = some .directory) :
    fs.Leads dir [n] (n :: dir) :=
  .down hdir (fun h => h.elim hn.ne_nil hn.ne_here) hn.ne_up (Nat.not_lt.2 hn.length_le)
    (.arrived hnode)

theorem lastName_eq_ok (hp : fs.Plain) {p : Path} {dir : Location} {n : FileName} :
    fs.lastName p = .ok (dir, n) ↔ refusal p = none ∧ n.length ≤ nameLimit ∧
      ∃ before, p.solidParts = before ++ [n] ∧
        fs.Leads (start fs.workingDirectory p) before dir := by
  constructor
  · intro h
    unfold lastName at h
    cases hr : refusal p with
    | some fault => simp [hr] at h
    | none =>
        rw [hr, Path.steps_withoutFinalSlashes] at h
        dsimp only at h
        cases hlast : p.solidParts.getLast? with
        | none => simp [hlast] at h
        | some last =>
            obtain ⟨before, hparts⟩ := List.getLast?_eq_some_iff.1 hlast
            rw [hlast, hparts, List.dropLast_concat] at h
            dsimp only at h
            split at h
            · simp at h
            · simp at h
            · simp at h
            · rename_i found hfollow
              split at h
              · simp at h
              · rename_i hlength
                obtain ⟨rfl, rfl⟩ := Prod.mk.inj (Except.ok.inj h)
                exact ⟨rfl, Nat.le_of_not_lt hlength, before, hparts,
                  (follow_directory hp).1 hfollow⟩
  · rintro ⟨hr, hlength, before, hparts, hleads⟩
    rw [lastName, hr, Path.steps_withoutFinalSlashes, hparts]
    dsimp only
    rw [List.getLast?_concat, List.dropLast_concat]
    dsimp only
    rw [(follow_directory hp).2 hleads]
    dsimp only
    rw [if_neg (Nat.not_lt.2 hlength)]

theorem vacancy_eq_ok {p : Path} {location : Location} :
    fs.vacancy p = .ok location ↔ ∃ dir n, location = n :: dir ∧ fs.lastName p = .ok (dir, n) ∧
      ¬(n = Path.here ∨ n = Path.up) ∧ fs.node? location = none := by
  unfold vacancy
  constructor
  · intro h
    split at h
    · simp at h
    · rename_i dir n hlast
      split at h
      · simp at h
      · rename_i hdots
        split at h
        · rename_i hfree
          obtain rfl := Except.ok.inj h
          exact ⟨dir, n, rfl, hlast, hdots, Option.isNone_iff_eq_none.1 hfree⟩
        · simp at h
  · rintro ⟨dir, n, rfl, hlast, hdots, hfree⟩
    rw [hlast]
    dsimp only
    rw [if_neg hdots, hfree]
    rfl

/-- A name behind which a node can be made is one that a node can have. -/
theorem isName_of_lastName (hp : fs.Plain) {p : Path} {dir : Location} {n : FileName}
    (h : fs.lastName p = .ok (dir, n)) (hdots : ¬(n = Path.here ∨ n = Path.up)) : IsName n := by
  obtain ⟨hr, hlength, before, hparts, -⟩ := (lastName_eq_ok hp).1 h
  have hmem : n ∈ p.solidParts := by simp [hparts]
  have hzero := (refusal_eq_none.1 hr).1
  exact {
    ne_nil := Path.ne_nil_of_mem_solidParts hmem
    ne_here := fun e => hdots (Or.inl e)
    ne_up := fun e => hdots (Or.inr e)
    slash_not_mem := Path.slash_not_mem_of_mem_solidParts hmem
    zero_not_mem := fun hc => hzero (Path.mem_bytes_of_mem_solidParts hmem hc)
    length_le := hlength }

/-- What one new directory, at the end of the path, makes of a file system. -/
theorem makeDirectory_cases (hp : fs.Plain) {p : Path} (h : fs.makeDirectory p = .ok fs') :
    ∃ location, fs.node? location = none ∧ fs' = fs.insert location .directory ∧ fs'.Plain ∧
      fs'.resolve .visit p = .ok (.directory location) := by
  unfold makeDirectory at h
  cases hv : fs.vacancy p with
  | error fault => simp [hv, Except.map] at h
  | ok location =>
      rw [hv] at h
      obtain rfl : fs.insert location .directory = fs' := Except.ok.inj h
      obtain ⟨dir, n, rfl, hlast, hdots, hnone⟩ := vacancy_eq_ok.1 hv
      obtain ⟨hr, -, before, hparts, hleads⟩ := (lastName_eq_ok hp).1 hlast
      have hname := isName_of_lastName hp hlast hdots
      have hfree : fs.node? (n :: dir) ≠ some .directory := by simp [hnone]
      have hkeeps : fs.Keeps (fs.insert (n :: dir) .directory) := keeps_insert hfree
      have hplain : (fs.insert (n :: dir) .directory).Plain :=
        hp.insert_free hname hleads.end_directory hnone (by simp)
      refine ⟨n :: dir, hnone, rfl, hplain, (resolve_directory hplain).2 ⟨hr, ?_⟩⟩
      rw [hparts]
      have hbefore := hleads.keeps hkeeps
      exact hbefore.trans (leads_name hname hbefore.end_directory (node?_insert_self n dir _))

theorem makeDirectory_of_leads (hp : fs.Plain) {p : Path} (hr : refusal p = none)
    {before : List FileName} {n : FileName} {dir : Location}
    (hparts : p.solidParts = before ++ [n])
    (hleads : fs.Leads (start fs.workingDirectory p) before dir) (hn : IsName n)
    (hfree : fs.node? (n :: dir) = none) :
    fs.makeDirectory p = .ok (fs.insert (n :: dir) .directory) := by
  have hdots : ¬(n = Path.here ∨ n = Path.up) := fun h => h.elim hn.ne_here hn.ne_up
  have hlast := (lastName_eq_ok hp).2 ⟨hr, hn.length_le, before, hparts, hleads⟩
  have hvacancy := vacancy_eq_ok.2 ⟨dir, n, rfl, hlast, hdots, hfree⟩
  rw [makeDirectory, hvacancy]
  rfl

/-! ## All that are missing -/

/-- That only directories are new, each where one of the paths leads. -/
structure Made (paths : List Path) (fs fs' : FileSystem) : Prop where
  plain : fs'.Plain
  keeps : fs.Keeps fs'
  node? : ∀ location, fs'.node? location = fs.node? location ∨
    fs.node? location = none ∧ fs'.node? location = some .directory ∧
      ∃ p ∈ paths, fs'.resolve .visit p = .ok (.directory location)

theorem Made.refl (hp : fs.Plain) (paths : List Path) : Made paths fs fs :=
  ⟨hp, .refl fs, fun _ => Or.inl rfl⟩

theorem Made.trans {paths : List Path} (h : Made paths fs fs') (h' : Made paths fs' fs'') :
    Made paths fs fs'' where
  plain := h'.plain
  keeps := h.keeps.trans h'.keeps
  node? := by
    intro location
    rcases h.node? location with heq | ⟨hnone, hdir, p, hmem, hr⟩
    · rw [← heq]
      exact h'.node? location
    · exact Or.inr ⟨hnone, h'.keeps.directory hdir, p, hmem,
        resolve_of_keeps h.plain h'.plain h'.keeps hr⟩

theorem Made.mono {paths more : List Path} (h : Made paths fs fs') (hsub : ∀ p ∈ paths, p ∈ more) :
    Made more fs fs' where
  plain := h.plain
  keeps := h.keeps
  node? location := (h.node? location).imp id fun ⟨hnone, hdir, p, hmem, hr⟩ =>
    ⟨hnone, hdir, p, hsub p hmem, hr⟩

theorem made_of_makeDirectory (hp : fs.Plain) {p : Path} (h : fs.makeDirectory p = .ok fs')
    {paths : List Path} (hmem : p ∈ paths) : Made paths fs fs' := by
  obtain ⟨location, hnone, rfl, hplain, hr⟩ := makeDirectory_cases hp h
  refine ⟨hplain, keeps_insert (by simp [hnone]), ?_⟩
  intro location'
  by_cases he : location' = location
  · subst he
    have hdir := ((resolve_directory hplain).1 hr).2.end_directory
    exact Or.inr ⟨hnone, hdir, p, hmem, hr⟩
  · exact Or.inl (node?_insert_ne he _)

theorem resolve_of_isDirectory {p : Path} (h : fs.isDirectory p = true) :
    ∃ dir, fs.resolve .visit p = .ok (.directory dir) := by
  unfold isDirectory at h
  split at h
  · rename_i dir hr
    exact ⟨dir, hr⟩
  · simp at h

theorem run_makeDirectory (p : Path) (fs : FileSystem) :
    (FileStore.makeDirectory p : StateM FileSystem (Except FileFault Unit)).run fs =
      match fs.makeDirectory p with
      | .ok fs' => (.ok (), fs')
      | .error fault => (.error fault, fs) := rfl

theorem run_settle (p : Path) (fault : FileFault) (fs : FileSystem) :
    (FileStore.settle p fault : StateM FileSystem (Except FileFault Unit)).run fs =
      (if fs.isDirectory p then .ok () else .error fault, fs) := by
  rw [FileStore.settle, StateT.run_bind]
  show StateT.run (if fs.isDirectory p then _ else _) fs = _
  split <;> rfl

theorem run_makeChain_cons (p : Path) (parents : List Path) (fs : FileSystem) :
    (FileStore.makeChain (p :: parents) : StateM FileSystem _).run fs =
      match fs.makeDirectory p with
      | .ok fs' => (.ok (), fs')
      | .error .notFound =>
          match (FileStore.makeChain parents : StateM FileSystem _).run fs with
          | (.error fault, fs') => (.error fault, fs')
          | (.ok (), fs') =>
              match fs'.makeDirectory p with
              | .ok fs'' => (.ok (), fs'')
              | .error fault => (FileStore.settle p fault : StateM FileSystem _).run fs'
      | .error fault => (FileStore.settle p fault : StateM FileSystem _).run fs := by
  rw [FileStore.makeChain, StateT.run_bind, run_makeDirectory]
  cases fs.makeDirectory p with
  | ok fs' => rfl
  | error fault =>
      cases fault with
      | notFound =>
          show StateT.run (_ >>= _) fs = _
          rw [StateT.run_bind]
          obtain ⟨result, fs'⟩ := (FileStore.makeChain parents : StateM FileSystem _).run fs
          cases result with
          | error fault => rfl
          | ok made =>
              show StateT.run (_ >>= _) fs' = _
              rw [StateT.run_bind, run_makeDirectory]
              dsimp only
              cases fs'.makeDirectory p <;> rfl
      | _ => rfl

/-- What a run leaves that should make a directory of the first of the paths. -/
structure Makes (paths : List Path) (fs : FileSystem)
    (run : Except FileFault Unit × FileSystem) : Prop where
  made : Made paths fs run.2
  opens : run.1 = .ok () → ∀ p, paths.head? = some p →
    ∃ dir, run.2.resolve .visit p = .ok (.directory dir)

theorem makes_error {paths : List Path} (h : Made paths fs fs') (fault : FileFault) :
    Makes paths fs (.error fault, fs') :=
  ⟨h, by simp⟩

theorem makes_settle {paths : List Path} {p : Path} (h : Made (p :: paths) fs fs')
    (fault : FileFault) :
    Makes (p :: paths) fs ((FileStore.settle p fault : StateM FileSystem _).run fs') := by
  rw [run_settle]
  by_cases hthere : fs'.isDirectory p = true
  · rw [if_pos hthere]
    refine ⟨h, ?_⟩
    intro _ q hq
    obtain rfl : p = q := Option.some.inj hq
    exact resolve_of_isDirectory hthere
  · rw [if_neg hthere]
    exact makes_error h fault

theorem makes_makeDirectory {paths : List Path} {p : Path} (h : Made (p :: paths) fs fs')
    (hmake : fs'.makeDirectory p = .ok fs'') : Makes (p :: paths) fs (.ok (), fs'') := by
  refine ⟨h.trans (made_of_makeDirectory h.plain hmake List.mem_cons_self), ?_⟩
  intro _ q hq
  obtain rfl : p = q := Option.some.inj hq
  obtain ⟨location, -, -, -, hr⟩ := makeDirectory_cases h.plain hmake
  exact ⟨location, hr⟩

/-- By induction on the chain.  What is made above the first path stays when that is tried again. -/
theorem makes_makeChain (hp : fs.Plain) (paths : List Path) :
    Makes paths fs ((FileStore.makeChain paths : StateM FileSystem _).run fs) := by
  induction paths with
  | nil => exact ⟨.refl hp [], by simp⟩
  | cons p parents ih =>
      have hstart : Made (p :: parents) fs fs := .refl hp _
      rw [run_makeChain_cons]
      split
      · rename_i fs' hfirst
        exact makes_makeDirectory hstart hfirst
      · generalize (FileStore.makeChain parents : StateM FileSystem _).run fs = run at ih
        obtain ⟨result, fs'⟩ := run
        have habove := ih.made.mono fun q hq => List.mem_cons_of_mem p hq
        cases result with
        | error fault => exact makes_error habove fault
        | ok made =>
            dsimp only
            cases hagain : fs'.makeDirectory p with
            | ok fs'' => exact makes_makeDirectory habove hagain
            | error fault => exact makes_settle habove fault
      · exact makes_settle hstart _

/-- The directories that a run of `makeDirectories` makes, and where the path leads after it. -/
theorem makes_makeDirectories (hp : fs.Plain) (p : Path)
    {run : Except FileFault Unit × FileSystem}
    (hrun : (FileStore.makeDirectories p : StateM FileSystem _).run fs = run) :
    Made (p :: p.ancestors) fs run.2 ∧ (run.1 = .ok () → ∃ dir, run.2.Opens p dir) := by
  subst hrun
  unfold FileStore.makeDirectories
  by_cases hnil : p.bytes = []
  · rw [if_pos hnil]
    exact ⟨.refl hp _, fun _ => ⟨fs.workingDirectory, by rw [Opens, if_pos hnil]; rfl⟩⟩
  · rw [if_neg hnil]
    obtain ⟨hmade, hopens⟩ := makes_makeChain hp (p :: p.ancestors)
    refine ⟨hmade, ?_⟩
    intro hok
    obtain ⟨dir, hr⟩ := hopens hok p rfl
    exact ⟨dir, opens_of_resolve hr⟩

/-! ## What is there already -/

/-- No directory is made where one is, and that is not for want of those above it. -/
theorem makeDirectory_of_directory (hp : fs.Plain) {p : Path} {dir : Location}
    (h : fs.resolve .visit p = .ok (.directory dir)) :
    ∃ fault, fs.makeDirectory p = .error fault ∧ fault ≠ .notFound := by
  obtain ⟨hr, hleads⟩ := (resolve_directory hp).1 h
  unfold makeDirectory vacancy lastName
  rw [hr, Path.steps_withoutFinalSlashes]
  dsimp only
  cases hparts : p.solidParts.getLast? with
  | none => exact ⟨.alreadyExists, rfl, by simp⟩
  | some n =>
      obtain ⟨before, hbefore⟩ := List.getLast?_eq_some_iff.1 hparts
      have hnil : n ≠ [] := Path.ne_nil_of_mem_solidParts (p := p) (by simp [hbefore])
      rw [hbefore] at hleads ⊢
      obtain ⟨mid, hmid, hlast⟩ := hleads.split
      rw [List.dropLast_concat, (follow_directory hp).2 hmid]
      dsimp only
      by_cases hlength : nameLimit < n.length
      · rw [if_pos hlength]
        exact ⟨.nameTooLong, rfl, by simp⟩
      rw [if_neg hlength]
      dsimp only
      by_cases hdots : n = Path.here ∨ n = Path.up
      · rw [if_pos hdots]
        exact ⟨.alreadyExists, rfl, by simp⟩
      rw [if_neg hdots]
      have hthere : fs.node? (n :: mid) = some .directory := by
        cases hlast with
        | stay hstep hrest => exact absurd hstep fun h => h.elim hnil fun e => hdots (Or.inl e)
        | up hdir hrest => exact absurd (Or.inr rfl) hdots
        | down hdir hstep hup hlength hrest => exact hrest.start_directory
      rw [hthere]
      exact ⟨.alreadyExists, rfl, by simp⟩

theorem run_settle_of_directory {p : Path} {dir : Location}
    (h : fs.resolve .visit p = .ok (.directory dir)) (fault : FileFault) :
    (FileStore.settle p fault : StateM FileSystem _).run fs = (.ok (), fs) := by
  have hthere : fs.isDirectory p = true := by
    unfold isDirectory
    rw [h]
  rw [run_settle, if_pos hthere]

theorem run_makeChain_of_directory (hp : fs.Plain) {p : Path} {dir : Location}
    (h : fs.resolve .visit p = .ok (.directory dir)) (parents : List Path) :
    (FileStore.makeChain (p :: parents) : StateM FileSystem _).run fs = (.ok (), fs) := by
  obtain ⟨fault, hmake, hfault⟩ := makeDirectory_of_directory hp h
  rw [run_makeChain_cons, hmake]
  cases fault with
  | notFound => exact absurd rfl hfault
  | _ => exact run_settle_of_directory h _

theorem run_makeDirectories_of_opens (hp : fs.Plain) {p : Path} {dir : Location}
    (ho : fs.Opens p dir) :
    (FileStore.makeDirectories p : StateM FileSystem _).run fs = (.ok (), fs) := by
  unfold FileStore.makeDirectories
  unfold Opens at ho
  by_cases hnil : p.bytes = []
  · rw [if_pos hnil]
    rfl
  · rw [if_neg hnil] at ho
    rw [if_neg hnil]
    exact run_makeChain_of_directory hp ho p.ancestors

end FileSystem
end InputDeck
