/-
Where the decks of a run land, seen from the run directory.

A catalog sends the decks of an analysis to a subdirectory of the run directory.  They land inside
the run directory if the subdirectory descends, and for no other subdirectory is that so from every
run directory: one that is absolute replaces the run directory, and one with too many `..` leads out
of it (`generate_inside`, `generate_outside`).  Without links the files that a run changes are in or
below the run directory itself.
-/
import InputDeck.Proofs.Generation.Exchange
import InputDeck.Proofs.Generation.Linked
import InputDeck.Proofs.Path.Lexical

namespace InputDeck

/-! ## Targets -/

namespace Catalog

variable {c : Catalog} {type : String}

/-- That the subdirectory of an analysis type, if it has one, leads down. -/
def Descends (c : Catalog) (type : String) : Prop :=
  ∀ sub, c.subdirectory type = .ok (some sub) → sub.Descends

theorem target_eq_ok_iff {base target : Path} : c.target base type = .ok target ↔
    c.subdirectory type = .ok none ∧ target = base ∨
      ∃ sub, c.subdirectory type = .ok (some sub) ∧ target = base.join sub := by
  rw [Catalog.target, Result.map_eq_ok_iff]
  constructor
  · rintro ⟨found, hfound, rfl⟩
    cases found with
    | none => exact Or.inl ⟨hfound, rfl⟩
    | some sub => exact Or.inr ⟨sub, hfound, rfl⟩
  · rintro (⟨hfound, rfl⟩ | ⟨sub, hfound, rfl⟩)
    · exact ⟨none, hfound, rfl⟩
    · exact ⟨some sub, hfound, rfl⟩

theorem Descends.inside (h : c.Descends type) {base target : Path}
    (htarget : c.target base type = .ok target) : base.Inside target := by
  rcases target_eq_ok_iff.1 htarget with ⟨-, rfl⟩ | ⟨sub, hsub, rfl⟩
  · exact Path.inside_self _
  · exact (h sub hsub).inside base

theorem descends_iff : c.Descends type ↔
    ∀ base target, c.target base type = .ok target → base.Inside target := by
  refine ⟨fun h base target htarget => h.inside htarget, ?_⟩
  intro h sub hsub
  exact Path.descends_iff.2 fun base =>
    h base _ (target_eq_ok_iff.2 (Or.inr ⟨sub, hsub, rfl⟩))

end Catalog

/-! ## Directories -/

namespace FileSystem

variable {fs : FileSystem}

/-- Steps that never go back below where they start end above that place. -/
theorem Leads.eq_append {root dir : Location} {parts names names' : List FileName}
    (h : fs.Leads (names ++ root) parts dir)
    (hleft : (parts.filterMap Path.componentOfPart).foldl Path.settle (names.map .name) =
      names'.map .name) : dir = names' ++ root := by
  generalize hstart : names ++ root = location at h
  induction h generalizing names with
  | arrived _ =>
      have hsame : names = names' :=
        List.map_injective_iff.2 (fun _ _ => Path.Component.name.inj) hleft
      rw [← hstart, hsame]
  | @stay location dir step rest hstep _ ih =>
      have hnone : Path.componentOfPart step = none := by simp [Path.componentOfPart, hstep]
      rw [List.filterMap_cons_none hnone] at hleft
      exact ih hleft hstart
  | up _ _ ih =>
      have hparent : Path.componentOfPart Path.up = some .parent := by decide
      rw [List.filterMap_cons_some hparent, List.foldl_cons] at hleft
      cases names with
      | cons n names => exact ih hleft (by rw [← hstart]; rfl)
      | nil =>
          have hstays : Path.Component.parent ∈ Path.settle [] .parent :=
            List.mem_singleton_self _
          exact absurd hstays (Path.not_mem_of_foldl_settle (by simp) hleft)
  | @down location dir step rest _ hstep hup _ _ ih =>
      have hname : Path.componentOfPart step = some (.name step) := by
        simp [Path.componentOfPart, hstep, hup]
      rw [List.filterMap_cons_some hname, List.foldl_cons, Path.settle_name] at hleft
      exact @ih (step :: names) hleft (by rw [← hstart]; rfl)

/-- A path can be followed if a longer one can be that begins with it. -/
theorem refusal_of_join {base sub : Path} (hq : sub.isAbsolute = false) (hbase : base.bytes ≠ [])
    (h : refusal (base.join sub) = none) : refusal base = none := by
  obtain ⟨hzero, -, hlength⟩ := refusal_eq_none.1 h
  obtain ⟨rest, hbytes⟩ : ∃ rest, (base.join sub).bytes = base.bytes ++ rest := by
    rw [Path.bytes_join hq]
    split
    · exact ⟨_, rfl⟩
    · exact ⟨_, rfl⟩
  rw [hbytes] at hzero hlength
  rw [List.length_append] at hlength
  exact refusal_eq_none.2 ⟨fun h => hzero (List.mem_append_left _ h), hbase, by omega⟩

/-- If a path opens a directory that continues another by one which descends, the other opens one
too, and the directory is that one or below it. -/
theorem Opens.of_join (hp : fs.Plain) {base sub : Path} (hsub : sub.Descends) {dir : Location}
    (h : fs.Opens (base.join sub) dir) : ∃ root, fs.Opens base root ∧ root <:+ dir := by
  obtain ⟨hq, names, hnames⟩ := hsub
  obtain ⟨-, hleads⟩ := h.leads hp
  have hstart : start fs.workingDirectory (base.join sub) = start fs.workingDirectory base := by
    unfold start
    rw [Path.isAbsolute_join hq]
  rw [hstart, Path.solidParts_join hq] at hleads
  obtain ⟨root, hroot, hrest⟩ := hleads.split
  have hleft : (sub.solidParts.filterMap Path.componentOfPart).foldl Path.settle [] =
      names.reverse.map .name := by
    have hsettled := Path.resolved_eq_names_iff.1 hnames
    rwa [Path.settled_eq, hq] at hsettled
  have hdir : dir = names.reverse ++ root := @Leads.eq_append _ _ _ _ [] _ hrest hleft
  refine ⟨root, ?_, hdir ▸ List.suffix_append ..⟩
  obtain ⟨bytes⟩ := base
  by_cases hbase : bytes = []
  · subst hbase
    rw [Path.solidParts_empty] at hroot
    cases hroot
    rfl
  · have hbytes : (Path.mk bytes |>.join sub).bytes ≠ [] := by
      rw [Path.bytes_join hq]
      split <;> simp [hbase]
    rw [Opens, if_neg hbytes] at h
    rw [Opens, if_neg hbase, resolve_directory hp]
    exact ⟨refusal_of_join hq hbase (refusal_eq_none_of_resolve h), hroot⟩

end FileSystem

/-! ## Runs -/

namespace Generation

variable {shuffle : List FileName → List FileName}

/-- A file that a pass has written or changed is one of those in the directory of its target. -/
theorem DiffersAt.exists_name {fs fs' : FileSystem} {target : Path} {dir location : Location}
    {names : List FileName} (h : DiffersAt target dir names fs fs') {contents : Contents}
    (hafter : fs'.node? location = some (.file contents))
    (hbefore : fs.node? location ≠ some (.file contents)) : ∃ n ∈ names, location = n :: dir := by
  by_contra hnone
  push Not at hnone
  rcases h.node? location hnone with hsame | ⟨-, hdirectory, -⟩
  · exact hbefore (hsame ▸ hafter)
  · rw [hafter] at hdirectory
    cases hdirectory

/-- The directory of a target that continues the run directory by a path which descends is the run
directory or below it, and so are the files that a pass over plain files writes and changes. -/
theorem Passes.exists_root {fs fs' : FileSystem} {templates target base : Path} {vars : Variables}
    {selection : Selection} {paths : List Path} (hp : fs.Plain)
    (htarget : target = base ∨ ∃ sub : Path, sub.Descends ∧ target = base.join sub)
    (h : Passes fs templates target vars selection (.ok paths) fs') :
    ∃ root, fs'.Opens base root ∧ ∀ location contents,
      fs'.node? location = some (.file contents) →
      fs.node? location ≠ some (.file contents) → root <:+ location := by
  obtain ⟨source, dir, names, hcompleted⟩ := completed_of_ok hp h
  have hp' : fs'.Plain := by
    obtain ⟨_, _, _, _, hsucceeds, -, rfl⟩ := h.succeeds hp
    exact hsucceeds.plain_place
  have hroot : ∃ root, fs'.Opens base root ∧ root <:+ dir := by
    rcases htarget with rfl | ⟨sub, hsub, rfl⟩
    · exact ⟨dir, hcompleted.opens_target, List.suffix_refl dir⟩
    · exact hcompleted.opens_target.of_join hp' hsub
  obtain ⟨root, hopens, hsuffix⟩ := hroot
  refine ⟨root, hopens, ?_⟩
  intro location contents hafter hbefore
  obtain ⟨n, -, rfl⟩ := hcompleted.differs.exists_name hafter hbefore
  exact hsuffix.trans (List.suffix_cons n dir)

/-- The types whose decks land inside every run directory are those whose subdirectory descends.  A
run for such a type returns paths inside the run directory and has written under just these, and in
a file system without links the files that it has written or changed stand in the run directory or
below it. -/
theorem generate_inside (order : ∀ names, (shuffle names).Perm names) (g : Generator)
    (type : String) :
    (g.catalog.Descends type ↔
      ∀ base target, g.catalog.target base type = .ok target → base.Inside target) ∧
    (g.catalog.Descends type →
      ∀ {templates base : Path} {vars : Variables} {fs fs' : FileSystem} {paths : List Path},
        fs.Named →
        Job.on (Shuffled.toJob shuffle (g.generate templates base vars type)) fs =
          (.ok paths, fs') →
        (∀ p ∈ paths, base.Inside p) ∧
        (∃ target made, g.catalog.target base type = .ok target ∧
          (FileStore.makeDirectories target : StateM FileSystem _).run fs = (.ok (), made) ∧
          Writes paths made fs') ∧
        (fs.Plain → ∃ root, fs'.Opens base root ∧ ∀ location contents,
          fs'.node? location = some (.file contents) →
          fs.node? location ≠ some (.file contents) → root <:+ location)) := by
  refine ⟨Catalog.descends_iff, ?_⟩
  intro hdescends templates base vars fs fs' paths hnamed h
  rw [Shuffled.on_generate] at h
  cases htarget : g.catalog.target base type with
  | error fault => simp [htarget] at h
  | ok target =>
      rw [htarget] at h
      dsimp only at h
      cases hlisting : fs.names templates with
      | error refusal => simp [hlisting] at h
      | ok listing =>
          rw [hlisting] at h
          dsimp only at h
          have hnames := (nodup_and_isName_of_names hnamed hlisting).2
          rcases on_writeListed_linked target vars g.selection hnamed hlisting (order listing) with
            ⟨names, written, hrun, hfills⟩ | ⟨fault, written, hrun, -⟩
          · have hsame := hrun.symm.trans h
            obtain rfl := Except.ok.inj (Prod.mk.inj hsame).1
            obtain rfl := (Prod.mk.inj hsame).2
            refine ⟨?_, ?_, ?_⟩
            · intro p hmem
              obtain ⟨n, hn, rfl⟩ := List.mem_map.1 hmem
              have hname := hnames n ((hfills.mem_iff n).1 hn).1
              exact (hdescends.inside htarget).join (Path.descends_name hname)
            · obtain ⟨made, hmake, hwrites⟩ := hfills.writes
              exact ⟨target, made, rfl, hmake, hwrites⟩
            · intro hp
              refine Passes.exists_root hp ?_ (.listed hlisting (order listing) h)
              rcases Catalog.target_eq_ok_iff.1 htarget with ⟨-, hbase⟩ | ⟨sub, hsub, hjoin⟩
              · exact Or.inl hbase
              · exact Or.inr ⟨sub, hdescends sub hsub, hjoin⟩
          · simp [hrun] at h

/-! The decks of two templates, in a subdirectory that is reached by a way round. -/

def sampleGenerator (sub : String) : Generator :=
  ⟨.ofList [("wamit", some (.ofString sub))], sampleSelection⟩

theorem generate_inside_sample : ∃ fs',
    Job.on (Shuffled.toJob List.reverse ((sampleGenerator "x/../o").generate (.ofString "t")
      (.ofString "run") .absent "wamit")) (sample []) =
        (.ok [.ofString "run/x/../o/a.g", .ofString "run/x/../o/b.g"], fs') ∧
    (Path.ofString "run").Inside (.ofString "run/x/../o/a.g") ∧
    ∃ root, fs'.Opens (.ofString "run") root ∧ ∀ location contents,
      fs'.node? location = some (.file contents) →
      (sample []).node? location ≠ some (.file contents) → root <:+ location := by
  have hrun : (Job.on (Shuffled.toJob List.reverse ((sampleGenerator "x/../o").generate
      (.ofString "t") (.ofString "run") .absent "wamit")) (sample [])).1 =
        .ok [.ofString "run/x/../o/a.g", .ofString "run/x/../o/b.g"] := by cbv
  have hdescends : (sampleGenerator "x/../o").catalog.Descends "wamit" := by
    intro sub hsub
    obtain rfl : Path.ofString "x/../o" = sub := Option.some.inj (Except.ok.inj hsub)
    exact ⟨rfl, [named "o"], by decide⟩
  obtain ⟨hpaths, -, hplain⟩ := (generate_inside List.reverse_perm _ "wamit").2 hdescends
    (plain_sample []).isName (Prod.ext hrun rfl)
  exact ⟨_, Prod.ext hrun rfl, hpaths _ List.mem_cons_self, hplain (plain_sample [])⟩

/-- The decks of a subdirectory that leads back out of the run directory land beside it, and those
of an absolute one wherever it says. -/
theorem generate_outside : ∃ fs',
    Job.on ((sampleGenerator "../o").generate (.ofString "t") (.ofString "run") .absent "wamit")
      (sample []) = (.ok [.ofString "run/../o/a.g", .ofString "run/../o/b.g"], fs') ∧
    ¬(Path.ofString "run").resolved <+: (Path.ofString "run/../o/a.g").resolved ∧
    fs'.Opens (.ofString "run") [named "run"] ∧
    (sample []).node? [named "a.g", named "o"] = none ∧
    fs'.node? [named "a.g", named "o"] = some (deckNode []) ∧
    (sampleGenerator "/o").catalog.target (.ofString "run") "wamit" = .ok (.ofString "/o") ∧
    ¬(Path.ofString "run").resolved <+: (Path.ofString "/o").resolved := by
  have hrun : (Job.on ((sampleGenerator "../o").generate (.ofString "t") (.ofString "run") .absent
      "wamit") (sample [])).1 = .ok [.ofString "run/../o/a.g", .ofString "run/../o/b.g"] := by cbv
  refine ⟨_, Prod.ext hrun rfl, by decide, ?_, rfl, by cbv, by cbv, by decide⟩
  rw [FileSystem.Opens, if_neg (by decide)]
  cbv

end Generation
end InputDeck
