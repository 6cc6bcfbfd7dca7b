/-
Ways that are made where nothing stands in them.

A path without `..` leads down by its names, so where it leads is known before anything is there:
`Path.below`.  If nothing but directories stands on the way, all of them can be made.  The one
exception is a path that ends in the part `.`, for no directory is made under that name, and making
the parents of such a path does not make the directory it leads to.  That a way can be made is
`run_makeDirectories_of_clear`, what it leaves is `paved_of_makeDirectories`, and neither depends on
anything off the way.
-/
import InputDeck.Proofs.FileSystem.Directories
import InputDeck.Proofs.Path.Ancestors
import InputDeck.Proofs.Result

namespace InputDeck
namespace FileSystem

open InputDeck.Path (below namesOf Climbs)

variable {fs fs' made : FileSystem}

/-! ## Ways down -/

theorem Plain.directory_of_suffix (hp : fs.Plain) {location dir : Location}
    (h : location <:+ dir) (hdir : fs.node? dir = some .directory) :
    fs.node? location = some .directory := by
  induction dir with
  | nil => exact List.suffix_nil.1 h ▸ hdir
  | cons n dir ih =>
      rcases List.suffix_cons_iff.1 h with rfl | h
      · exact hdir
      · exact ih h (hp.parent hdir)

theorem Plain.isName_of_mem (hp : fs.Plain) {dir : Location}
    (hdir : fs.node? dir = some .directory) {n : FileName} (hn : n ∈ dir) : IsName n := by
  obtain ⟨front, back, rfl⟩ := List.append_of_mem hn
  exact hp.isName (hp.directory_of_suffix (List.suffix_append front (n :: back)) hdir)

theorem Leads.eq_below {location dir : Location} {steps : List FileName}
    (h : fs.Leads location steps dir) (hup : Path.up ∉ steps) :
    dir = Path.below location steps := by
  induction h with
  | arrived h => rfl
  | stay h hrest ih =>
      rw [Path.below_cons_of_blank h]
      exact ih fun hmem => hup (List.mem_cons_of_mem _ hmem)
  | up h hrest ih => exact absurd List.mem_cons_self hup
  | down h hstep hup' hlength hrest ih =>
      rw [Path.below_cons hstep]
      exact ih fun hmem => hup (List.mem_cons_of_mem _ hmem)

theorem leads_below (hp : fs.Plain) {location : Location} {steps : List FileName}
    (hnames : ∀ n ∈ namesOf steps, IsName n)
    (hend : fs.node? (below location steps) = some .directory) :
    fs.Leads location steps (below location steps) := by
  have hstart := hp.directory_of_suffix (Path.suffix_below location steps) hend
  induction steps generalizing location with
  | nil => exact .arrived hstart
  | cons step rest ih =>
      by_cases hstep : step = [] ∨ step = Path.here
      · rw [Path.namesOf_cons_of_blank hstep] at hnames
        rw [Path.below_cons_of_blank hstep] at hend ⊢
        exact .stay hstep (ih hnames hend hstart)
      · rw [Path.namesOf_cons hstep] at hnames
        rw [Path.below_cons hstep] at hend ⊢
        have hname := hnames step List.mem_cons_self
        have hnext := hp.directory_of_suffix (Path.suffix_below _ rest) hend
        exact .down hstart hstep hname.ne_up (Nat.not_lt.2 hname.length_le)
          (ih (fun n hn => hnames n (List.mem_cons_of_mem _ hn)) hend hnext)

theorem Opens.eq_below (hp : fs.Plain) {p : Path} {dir : Location} (ho : fs.Opens p dir)
    (hup : Path.up ∉ p.parts) : dir = below (start fs.workingDirectory p) p.solidParts :=
  (ho.leads hp).2.eq_below fun hmem => hup (List.mem_filter.1 hmem).1

/-- A path without `..` that leads to a directory leads straight down. -/
theorem straight_of_resolve (hp : fs.Plain) {p : Path} {dir : Location}
    (h : fs.resolve .visit p = .ok (.directory dir)) (hup : Path.up ∉ p.parts) : p.Straight := by
  obtain ⟨hr, hleads⟩ := (resolve_directory hp).1 h
  obtain ⟨hzero, hnil, hlength⟩ := refusal_eq_none.1 hr
  refine ⟨hnil, hzero, hlength, ?_⟩
  intro n hn
  have hdir := (opens_of_resolve h).eq_below hp hup
  refine hp.isName_of_mem hleads.end_directory ?_
  rw [hdir, below, Path.namesOf_solidParts]
  exact List.mem_append_left _ (List.mem_reverse.2 hn)

section Straight

variable {p : Path} (hp : p.Straight)
include hp

theorem refusal_of_straight : refusal p = none :=
  refusal_eq_none.2 ⟨hp.zero_not_mem, hp.ne_nil, hp.length_le⟩

theorem isName_of_straight : ∀ n ∈ namesOf p.solidParts, IsName n :=
  Path.namesOf_solidParts p ▸ hp.isName

theorem up_not_mem_of_straight : Path.up ∉ p.solidParts := by
  intro hmem
  have hsolid : Path.up ∈ namesOf p.solidParts :=
    Path.mem_namesOf.2 ⟨hmem, by decide, by decide⟩
  exact (isName_of_straight hp _ hsolid).ne_up rfl

theorem resolve_of_straight (hplain : fs.Plain) {location : Location}
    (hlocation : below (start fs.workingDirectory p) p.solidParts = location)
    (hend : fs.node? location = some .directory) :
    fs.resolve .visit p = .ok (.directory location) := by
  subst hlocation
  exact (resolve_directory hplain).2
    ⟨refusal_of_straight hp, leads_below hplain (isName_of_straight hp) hend⟩

end Straight

/-! ## Clear ways -/

/-- That nothing but directories stands on the way down to a location. -/
def Clear (fs : FileSystem) (dir : Location) : Prop :=
  ∀ location, location <:+ dir → fs.node? location = some .directory ∨ fs.node? location = none

theorem Clear.of_suffix {location dir : Location} (h : fs.Clear dir) (hsuffix : location <:+ dir) :
    fs.Clear location :=
  fun location' h' => h location' (h'.trans hsuffix)

/-- By induction on the steps: what is missing is looked up in a directory that is there. -/
theorem advance_of_missing {location : Location} {steps : List FileName}
    (hnames : ∀ n ∈ namesOf steps, IsName n) (hclear : fs.Clear (below location steps))
    (hstart : fs.node? location = some .directory)
    (hend : fs.node? (below location steps) = none) :
    fs.advance .visit location steps = .error .notFound ∨
      ∃ dir n, fs.advance .visit location steps = .ok (.arrived (.absent dir n)) := by
  induction steps generalizing location with
  | nil => exact absurd (hstart.symm.trans hend) (by simp)
  | cons step rest ih =>
      rw [advance_step hstart]
      by_cases hstep : step = [] ∨ step = Path.here
      · rw [Path.namesOf_cons_of_blank hstep] at hnames
        rw [Path.below_cons_of_blank hstep] at hclear hend
        rw [if_pos hstep]
        exact ih hnames hclear hstart hend
      rw [Path.namesOf_cons hstep] at hnames
      rw [Path.below_cons hstep] at hclear hend
      have hname := hnames step List.mem_cons_self
      rw [if_neg hstep, if_neg hname.ne_up, if_neg (by simp),
        if_neg (Nat.not_lt.2 hname.length_le)]
      rcases hclear (step :: location) (Path.suffix_below _ rest) with hnext | hnext
      · rw [hnext, Option.isNone_some, Bool.and_false, if_neg Bool.false_ne_true]
        exact ih (fun n hn => hnames n (List.mem_cons_of_mem _ hn)) hclear hnext hend
      · rw [hnext]
        cases rest with
        | nil => exact Or.inr ⟨location, step, rfl⟩
        | cons next rest =>
            rw [List.isEmpty_cons, Bool.false_and, if_neg Bool.false_ne_true, advance, hnext]
            exact Or.inl rfl

/-! ## Making what is missing -/

section Last

variable {p : Path} (hp : p.Straight) {before : List FileName} {n : FileName}
  (hparts : p.solidParts = before ++ [n])
include hp hparts

theorem isName_of_straight_before : ∀ m ∈ namesOf before, IsName m := by
  intro m hm
  refine isName_of_straight hp m ?_
  rw [hparts, Path.namesOf_append]
  exact List.mem_append_left _ hm

theorem makeDirectory_of_missing
    (hstart : fs.node? (start fs.workingDirectory p) = some .directory)
    (hclear : fs.Clear (below (start fs.workingDirectory p) before))
    (hend : fs.node? (below (start fs.workingDirectory p) before) = none) :
    fs.makeDirectory p = .error .notFound := by
  have hnames := isName_of_straight_before hp hparts
  unfold makeDirectory vacancy lastName
  rw [refusal_of_straight hp, Path.steps_withoutFinalSlashes, hparts]
  dsimp only
  rw [List.getLast?_concat, List.dropLast_concat, follow]
  dsimp only
  rcases advance_of_missing hnames hclear hstart hend with hadvance | ⟨dir, m, hadvance⟩ <;>
    rw [hadvance] <;> rfl

theorem makeDirectory_of_free (hplain : fs.Plain) (hn : IsName n)
    (hdir : fs.node? (below (start fs.workingDirectory p) before) = some .directory)
    (hfree : fs.node? (n :: below (start fs.workingDirectory p) before) = none) :
    fs.makeDirectory p =
      .ok (fs.insert (n :: below (start fs.workingDirectory p) before) .directory) :=
  makeDirectory_of_leads hplain (refusal_of_straight hp) hparts
    (leads_below hplain (isName_of_straight_before hp hparts) hdir) hn hfree

end Last

/-- By induction on the chain.  Nothing stands in the way of its first path, so that is made once
the others are there. -/
theorem run_makeChain_of_climbs (hp : fs.Plain) {origin location : Location} {chain : List Path}
    (h : Climbs fs.workingDirectory origin chain location)
    (horigin : fs.node? origin = some .directory) (hclear : fs.Clear location) :
    ∃ made, (FileStore.makeChain chain : StateM FileSystem _).run fs = (.ok (), made) ∧
      made.node? location = some .directory := by
  induction h with
  | top => exact ⟨fs, rfl, horigin⟩
  | @here q chain hq hstart hnames hchain ih =>
      have hbelow : below (start fs.workingDirectory q) q.solidParts = origin := by
        rw [hstart, below, Path.namesOf_solidParts, hnames]
        rfl
      exact ⟨fs, run_makeChain_of_directory hp (resolve_of_straight hq hp hbelow horigin) chain,
        horigin⟩
  | @down q chain before n hq hstart hparts hn hchain ih =>
      subst hstart
      have hbelow : below (start fs.workingDirectory q) q.solidParts =
          n :: below (start fs.workingDirectory q) before := by
        rw [hparts, Path.below_append_name hn]
      rcases hclear _ (List.suffix_refl _) with hthere | hfree
      · have hr := resolve_of_straight hq hp hbelow hthere
        exact ⟨fs, run_makeChain_of_directory hp hr chain, hthere⟩
      have habove := hclear.of_suffix (List.suffix_cons n _)
      rw [run_makeChain_cons]
      rcases habove _ (List.suffix_refl _) with hdir | hmissing
      · rw [makeDirectory_of_free hq hparts hp hn hdir hfree]
        exact ⟨_, rfl, node?_insert_self n _ .directory⟩
      rw [makeDirectory_of_missing hq hparts horigin habove hmissing]
      obtain ⟨above, hrun, hdir⟩ := ih habove
      have hmade := (makes_makeChain hp chain).made
      rw [hrun] at hmade ⊢
      dsimp only
      rw [← hmade.keeps.workingDirectory_eq] at hdir hfree hbelow ⊢
      cases hnext : above.node? (n :: below (start above.workingDirectory q) before) with
      | none =>
          rw [makeDirectory_of_free hq hparts hmade.plain hn hdir hnext]
          exact ⟨_, rfl, node?_insert_self n _ .directory⟩
      | some node =>
          rcases hmade.node? (n :: below (start above.workingDirectory q) before) with
            hsame | ⟨-, hthere, -⟩
          · simp [hnext, hfree] at hsame
          · have hr := resolve_of_straight hq hmade.plain hbelow hthere
            obtain ⟨fault, hagain, -⟩ := makeDirectory_of_directory hmade.plain hr
            rw [hagain]
            dsimp only
            rw [run_settle_of_directory hr]
            exact ⟨above, rfl, hthere⟩

theorem Plain.start_directory (hp : fs.Plain) (p : Path) :
    fs.node? (start fs.workingDirectory p) = some .directory := by
  unfold start
  split
  · rfl
  · exact hp.working

theorem climbs_path {p : Path} (hp : p.Straight) (dir : Location) {before : List FileName}
    {n : FileName} (hparts : p.solidParts = before ++ [n]) (hn : IsName n) :
    Climbs dir (start dir p) (p :: p.ancestors) (below (start dir p) p.solidParts) := by
  have hchain := Path.climbs_ancestors hp dir
  have hnames : namesOf p.parts = namesOf before ++ [n] := by
    rw [← Path.namesOf_solidParts, hparts, Path.namesOf_append, Path.namesOf_cons hn.not_blank]
    rfl
  rw [hnames, List.dropLast_concat] at hchain
  rw [hparts, Path.below_append_name hn]
  exact .down hp rfl hparts hn hchain

/-! ## The root

Nothing is ever put where the root is. -/

theorem root_makeDirectory {p : Path} (h : fs.makeDirectory p = .ok fs') :
    fs'.nodes.get? [] = fs.nodes.get? [] := by
  unfold makeDirectory at h
  obtain ⟨location, hvacancy, rfl⟩ := Result.map_eq_ok_iff.1 h
  obtain ⟨dir, n, rfl, -⟩ := vacancy_eq_ok.1 hvacancy
  exact Table.get?_insert_ne (by simp) _ _

/-- What each new directory preserves, all of them do. -/
theorem makeChain_preserves {P : FileSystem → Prop}
    (hstep : ∀ {fs fs' : FileSystem} {p : Path}, P fs → fs.makeDirectory p = .ok fs' → P fs')
    (paths : List Path) (h : P fs) :
    P ((FileStore.makeChain paths : StateM FileSystem _).run fs).2 := by
  induction paths with
  | nil => exact h
  | cons p parents ih =>
      rw [run_makeChain_cons]
      split
      · rename_i fs' hfirst
        exact hstep h hfirst
      · generalize (FileStore.makeChain parents : StateM FileSystem _).run fs = run at ih
        obtain ⟨result, fs'⟩ := run
        cases result with
        | error fault => exact ih
        | ok made =>
            dsimp only
            cases hagain : fs'.makeDirectory p with
            | ok fs'' => exact hstep ih hagain
            | error fault =>
                dsimp only
                rw [run_settle]
                exact ih
      · rw [run_settle]
        exact h

theorem root_makeDirectories {p : Path} {run : Except FileFault Unit × FileSystem}
    (hrun : (FileStore.makeDirectories p : StateM FileSystem _).run fs = run) :
    run.2.nodes.get? [] = fs.nodes.get? [] := by
  subst hrun
  unfold FileStore.makeDirectories
  split
  · rfl
  · exact makeChain_preserves (P := fun fs' => fs'.nodes.get? [] = fs.nodes.get? [])
      (fun h hmake => (root_makeDirectory hmake).trans h) _ rfl

/-! ## What is made of a way -/

/-- That what was missing on the way down to a location has been made. -/
structure Paved (dir : Location) (fs made : FileSystem) : Prop where
  plain : made.Plain
  workingDirectory_eq : made.workingDirectory = fs.workingDirectory
  root_eq : made.nodes.get? [] = fs.nodes.get? []
  clear : fs.Clear dir
  directory : ∀ {location}, location <:+ dir → made.node? location = some .directory
  other : ∀ {location}, ¬location <:+ dir → made.node? location = fs.node? location

theorem Paved.file {dir location : Location} (h : Paved dir fs made) {contents : Contents}
    (hnode : fs.node? location = some (.file contents)) :
    made.node? location = some (.file contents) := by
  by_cases hsuffix : location <:+ dir
  · rcases h.clear location hsuffix with hdir | hnone
    · simp [hnode] at hdir
    · simp [hnode] at hnone
  · rw [h.other hsuffix, hnode]

theorem straight_of_opens (hp : fs.Plain) {p : Path} {dir : Location} (ho : fs.Opens p dir)
    (hnil : p.bytes ≠ []) (hup : Path.up ∉ p.parts) : p.Straight := by
  rw [Opens, if_neg hnil] at ho
  exact straight_of_resolve hp ho hup

theorem suffix_below (location : Location) (p : Path) :
    (namesOf p.parts).dropLast.reverse ++ location <:+ below location p.solidParts := by
  obtain ⟨front, hfront⟩ := (List.dropLast_prefix (namesOf p.parts)).reverse
  refine ⟨front, ?_⟩
  rw [below, Path.namesOf_solidParts, ← List.append_assoc, hfront]

/-- Above a path directories are made on the way to its directory. -/
theorem suffix_of_mem_ancestors {p q : Path} (hstraight : p.Straight) (hq : q ∈ p.ancestors)
    (hmade : made.Plain) {location : Location}
    (h : made.resolve .visit q = .ok (.directory location)) :
    location <:+ (namesOf p.parts).dropLast.reverse ++ start made.workingDirectory p := by
  obtain ⟨hq, hstart, hsuffix⟩ := (Path.climbs_ancestors hstraight made.workingDirectory).mem hq
  have hleads := ((resolve_directory hmade).1 h).2
  rw [hleads.eq_below (up_not_mem_of_straight hq), hstart]
  exact hsuffix

theorem makeDirectory_ne_ok_of_dot (hp : fs.Plain) {p : Path}
    (hdot : p.solidParts.getLast? = some Path.here) : fs.makeDirectory p ≠ .ok fs' := by
  intro h
  obtain ⟨location, hvacancy, -⟩ := Result.map_eq_ok_iff.1 h
  obtain ⟨dir, n, -, hlast, hdots, -⟩ := vacancy_eq_ok.1 hvacancy
  obtain ⟨-, -, before, hparts, -⟩ := (lastName_eq_ok hp).1 hlast
  rw [hparts, List.getLast?_concat] at hdot
  exact hdots (Or.inl (Option.some.inj hdot))

theorem eq_of_settle {p : Path} {fault : FileFault}
    (h : (FileStore.settle p fault : StateM FileSystem _).run fs = (.ok (), made)) : made = fs := by
  rw [run_settle] at h
  exact (Prod.mk.inj h).2.symm

section Run

variable {p : Path} (hp : fs.Plain) (hup : Path.up ∉ p.parts)
  (hrun : (FileStore.makeDirectories p : StateM FileSystem _).run fs = (.ok (), made))
include hp hup hrun

theorem opens_of_makeDirectories :
    made.Opens p (below (start fs.workingDirectory p) p.solidParts) := by
  obtain ⟨hmade, hopens⟩ := makes_makeDirectories hp p hrun
  obtain ⟨dir, ho⟩ := hopens rfl
  rw [← hmade.keeps.workingDirectory_eq, ← ho.eq_below hmade.plain hup]
  exact ho

theorem paved_of_makeDirectories :
    Paved (below (start fs.workingDirectory p) p.solidParts) fs made := by
  have ho := opens_of_makeDirectories hp hup hrun
  obtain ⟨hmade, -⟩ := makes_makeDirectories hp p hrun
  have hdir := (ho.leads hmade.plain).2.end_directory
  refine ⟨hmade.plain, hmade.keeps.workingDirectory_eq, root_makeDirectories hrun, ?_,
    fun h => hmade.plain.directory_of_suffix h hdir, ?_⟩
  · intro location hsuffix
    rcases hmade.node? location with hsame | ⟨hnone, -⟩
    · exact Or.inl (hsame ▸ hmade.plain.directory_of_suffix hsuffix hdir)
    · exact Or.inr hnone
  · intro location hsuffix
    rcases hmade.node? location with hsame | ⟨-, -, q, hq, hr⟩
    · exact hsame
    refine absurd ?_ hsuffix
    rcases List.mem_cons.1 hq with rfl | hq
    · exact ho.eq (opens_of_resolve hr) ▸ List.suffix_refl _
    · have hnil : p.bytes ≠ [] := by
        intro hnil
        obtain rfl : p = ⟨[]⟩ := by rw [← hnil]
        simp [Path.ancestors_empty] at hq
      have hstraight := straight_of_opens hmade.plain ho hnil hup
      have habove := suffix_of_mem_ancestors hstraight hq hmade.plain hr
      rw [hmade.keeps.workingDirectory_eq] at habove
      exact habove.trans (suffix_below _ p)

/-- No directory is made that is called `.`, nor is it made with those above it, so it has been
there. -/
theorem directory_of_dot (hdot : p.solidParts.getLast? = some Path.here) :
    fs.node? (below (start fs.workingDirectory p) p.solidParts) = some .directory := by
  have hnil : p.bytes ≠ [] := by
    intro hnil
    obtain rfl : p = ⟨[]⟩ := by rw [← hnil]
    simp [Path.solidParts_empty] at hdot
  have ho := opens_of_makeDirectories hp hup hrun
  have hmade := (makes_makeDirectories hp p hrun).1
  have hdir := (ho.leads hmade.plain).2.end_directory
  have hstraight := straight_of_opens hmade.plain ho hnil hup
  unfold FileStore.makeDirectories at hrun
  rw [if_neg hnil, run_makeChain_cons] at hrun
  split at hrun
  · rename_i hfirst
    exact absurd hfirst (makeDirectory_ne_ok_of_dot hp hdot)
  · have habove := (makes_makeChain hp p.ancestors).made
    generalize (FileStore.makeChain p.ancestors : StateM FileSystem _).run fs = run at hrun habove
    obtain ⟨result, above⟩ := run
    cases result with
    | error fault => exact absurd (Prod.mk.inj hrun).1 (by simp)
    | ok done =>
        dsimp only at hrun habove
        cases hagain : above.makeDirectory p with
        | ok fs' => exact absurd hagain (makeDirectory_ne_ok_of_dot habove.plain hdot)
        | error fault =>
            rw [hagain] at hrun
            obtain rfl := eq_of_settle hrun
            rcases habove.node? (below (start fs.workingDirectory p) p.solidParts) with
              hsame | ⟨-, -, q, hq, hr⟩
            · rw [← hsame]
              exact hdir
            · have hlength := (suffix_of_mem_ancestors hstraight hq habove.plain hr).length_le
              rw [habove.keeps.workingDirectory_eq, below, Path.namesOf_solidParts] at hlength
              simp only [List.length_append, List.length_reverse, List.length_dropLast] at hlength
              have hnames : namesOf p.parts = [] := List.eq_nil_of_length_eq_zero (by omega)
              rw [below, Path.namesOf_solidParts, hnames]
              exact hp.start_directory p
  · obtain rfl := eq_of_settle hrun
    exact hdir

/-- A way that could be made somewhere can be made wherever it is clear. -/
theorem run_makeDirectories_of_clear (hp' : fs'.Plain)
    (hclear : fs'.Clear (below (start fs'.workingDirectory p) p.solidParts))
    (hdot : p.solidParts.getLast? = some Path.here →
      fs'.node? (below (start fs'.workingDirectory p) p.solidParts) = some .directory) :
    ∃ made', (FileStore.makeDirectories p : StateM FileSystem _).run fs' = (.ok (), made') := by
  by_cases hnil : p.bytes = []
  · unfold FileStore.makeDirectories
    rw [if_pos hnil]
    exact ⟨fs', rfl⟩
  have ho := opens_of_makeDirectories hp hup hrun
  have hplain := (makes_makeDirectories hp p hrun).1.plain
  have hstraight := straight_of_opens hplain ho hnil hup
  have hthere : fs'.node? (below (start fs'.workingDirectory p) p.solidParts) = some .directory →
      ∃ made', (FileStore.makeDirectories p : StateM FileSystem _).run fs' = (.ok (), made') := by
    intro hdir
    have hr := resolve_of_straight hstraight hp' rfl hdir
    exact ⟨fs', run_makeDirectories_of_opens hp' (opens_of_resolve hr)⟩
  rcases List.eq_nil_or_concat' p.solidParts with hparts | ⟨before, n, hparts⟩
  · apply hthere
    rw [hparts]
    exact hp'.start_directory p
  by_cases hhere : n = Path.here
  · apply hthere
    apply hdot
    rw [hparts, hhere, List.getLast?_concat]
  have hmem : n ∈ p.solidParts := by simp [hparts]
  have hn : IsName n := isName_of_straight hstraight n
    (Path.mem_namesOf.2 ⟨hmem, Path.ne_nil_of_mem_solidParts hmem, hhere⟩)
  have hclimbs := climbs_path hstraight fs'.workingDirectory hparts hn
  obtain ⟨made', hmade, -⟩ := run_makeChain_of_climbs hp' hclimbs (hp'.start_directory p) hclear
  refine ⟨made', ?_⟩
  unfold FileStore.makeDirectories
  rw [if_neg hnil]
  exact hmade

end Run

end FileSystem
end InputDeck
