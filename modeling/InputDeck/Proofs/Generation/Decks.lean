/-
What a pass over a template directory leaves.

A pass that succeeds has written the decks of all its templates: `Completed`.  Another one ends at
the first template at which it has to, and has written the decks of those before it: `Halted`.  Both
tell the decks by what the templates were when the pass began, also if the decks go to the directory
of the templates, and both say that nothing else has changed but for directories made on the way to
the target.

The greatest length of a path shows in both.  A template with a longer path is left out without a
word, and a deck with one cannot be written.
-/
import Mathlib
import InputDeck.Proofs.Generation.Listing

namespace InputDeck
namespace Generation

open FileSystem (pathLimit Made)

variable {fs fs' made : FileSystem} {templates target : Path} {vars : Variables}
  {selection : Selection}

/-! ## Templates and their decks -/

/-- Why a pass ends at a template.  Templates are read and substituted as they are in the state the
pass starts in; `made` is the state in which the target has just been made. -/
inductive Stops (fs made : FileSystem) (templates target : Path) (vars : Variables)
    (n : FileName) : Fault → Prop
  | unreadable (h : fs.text (templates.join ⟨n⟩) = .error (.file .invalidText)) :
      Stops fs made templates target vars n (.file .invalidText)
  | unsubstituted {text : List Char} {fault : Fault} (h : fs.text (templates.join ⟨n⟩) = .ok text)
      (hfault : Deck.ofTemplate vars (templates.join ⟨n⟩) text = .error fault) :
      Stops fs made templates target vars n fault
  | overlong {deck : Deck} (h : fs.deck vars (templates.join ⟨n⟩) = .ok deck)
      (hlength : pathLimit < (target.join ⟨n⟩).bytes.length) :
      Stops fs made templates target vars n (.file .nameTooLong)
  | occupied {deck : Deck} (h : fs.deck vars (templates.join ⟨n⟩) = .ok deck)
      (hlength : ¬pathLimit < (target.join ⟨n⟩).bytes.length)
      (hdirectory : made.isDirectory (target.join ⟨n⟩) = true) :
      Stops fs made templates target vars n (.file .isADirectory)

/-- That what the first state rendered from a template stands at its destination in the second. -/
def Written (templates target : Path) (vars : Variables) (fs fs' : FileSystem) (n : FileName) :
    Prop :=
  ∃ text, Job.on (Deck.render vars (templates.join ⟨n⟩)) fs = (.ok text, fs) ∧
    fs'.read (target.join ⟨n⟩) = .ok (.bytes (String.ofList text).toUTF8)

section Templates

variable {source : Location} {names : List FileName} (hp : fs.Plain) {paths : List Path}
  (hmade : Made paths fs made) (ho : fs.Opens templates source)
  (hlists : Lists fs templates source selection names) {n : FileName} (hmem : n ∈ names)
include hp ho hlists hmem

theorem text_eq_error {fault : Fault} (h : fs.text (templates.join ⟨n⟩) = .error fault) :
    fault = .file .invalidText := by
  obtain ⟨⟨contents, hnode⟩, -, hlength⟩ := (hlists.mem_iff n).1 hmem
  unfold FileSystem.text at h
  rw [FileSystem.read_join hp ho (hp.isName hnode) hlength hnode] at h
  cases contents with
  | workbook book => exact (Except.error.inj h).symm
  | bytes data =>
      dsimp only at h
      split at h
      · simp at h
      · exact (Except.error.inj h).symm

include hmade

theorem deck_made : made.deck vars (templates.join ⟨n⟩) = fs.deck vars (templates.join ⟨n⟩) := by
  obtain ⟨⟨contents, hnode⟩, -⟩ := (hlists.mem_iff n).1 hmem
  have hsame : made.node? (n :: source) = fs.node? (n :: source) := by
    rcases hmade.node? (n :: source) with h | ⟨hnone, -⟩
    · exact h
    · simp [hnone] at hnode
  have ho' := ho.keeps hp hmade.plain hmade.keeps
  unfold FileSystem.deck FileSystem.text FileSystem.read
  rw [FileSystem.resolve_join_congr hp hmade.plain ho ho' (hp.isName hnode) hsame]

theorem stops_iff {fault : Fault} : Stops fs made templates target vars n fault ↔
    outcome templates target vars made n = .error fault := by
  have hdeck : made.deck vars (templates.join ⟨n⟩) = fs.deck vars (templates.join ⟨n⟩) :=
    deck_made hp hmade ho hlists hmem
  unfold outcome
  rw [hdeck]
  constructor
  · intro h
    cases h with
    | unreadable h => simp [FileSystem.deck, h, Except.bind]
    | unsubstituted h hfault => simp [FileSystem.deck, h, Except.bind, hfault]
    | overlong h hlength => simp [h, hlength]
    | occupied h hlength hdirectory => simp [h, hlength, hdirectory]
  · intro h
    cases htext : fs.text (templates.join ⟨n⟩) with
    | error other =>
        obtain rfl := text_eq_error hp ho hlists hmem htext
        have hfault : fs.deck vars (templates.join ⟨n⟩) = .error (.file .invalidText) := by
          rw [FileSystem.deck, htext]
          rfl
        rw [hfault] at h
        obtain rfl := Except.error.inj h
        exact .unreadable htext
    | ok text =>
        have hof : fs.deck vars (templates.join ⟨n⟩) =
            Deck.ofTemplate vars (templates.join ⟨n⟩) text := by
          rw [FileSystem.deck, htext]
          rfl
        cases hsub : fs.deck vars (templates.join ⟨n⟩) with
        | error other =>
            rw [hsub] at h
            obtain rfl := Except.error.inj h
            exact .unsubstituted htext (hof ▸ hsub)
        | ok deck =>
            rw [hsub] at h
            dsimp only at h
            by_cases hlength : pathLimit < (target.join ⟨n⟩).bytes.length
            · rw [if_pos hlength] at h
              obtain rfl := Except.error.inj h
              exact .overlong hsub hlength
            · rw [if_neg hlength] at h
              by_cases hdirectory : made.isDirectory (target.join ⟨n⟩) = true
              · rw [if_pos hdirectory] at h
                obtain rfl := Except.error.inj h
                exact .occupied hsub hlength hdirectory
              · simp [hdirectory] at h

theorem render_of_outcome {text : List Char}
    (h : outcome templates target vars made n = .ok text) :
    Job.on (Deck.render vars (templates.join ⟨n⟩)) fs = (.ok text, fs) ∧
      (target.join ⟨n⟩).bytes.length ≤ pathLimit := by
  unfold outcome at h
  rw [deck_made hp hmade ho hlists hmem] at h
  rw [Deck.on_render]
  cases hdeck : fs.deck vars (templates.join ⟨n⟩) with
  | error fault => simp [hdeck] at h
  | ok deck =>
      rw [hdeck] at h
      dsimp only at h
      split at h
      · simp at h
      · rename_i hlength
        split at h
        · simp at h
        · obtain rfl := Except.ok.inj h
          exact ⟨rfl, Nat.le_of_not_lt hlength⟩

end Templates

/-- That two states differ at most in what stands at the names in a directory and in directories
made on the way to the target. -/
structure DiffersAt (target : Path) (dir : Location) (names : List FileName)
    (fs fs' : FileSystem) : Prop where
  workingDirectory_eq : fs'.workingDirectory = fs.workingDirectory
  node? : ∀ location, (∀ n ∈ names, location ≠ n :: dir) →
    fs'.node? location = fs.node? location ∨
      fs.node? location = none ∧ fs'.node? location = some .directory ∧
        ∃ p ∈ target :: target.ancestors, fs'.resolve .visit p = .ok (.directory location)

/-! ## What is written -/

section Place

variable {source dir : Location} {names : List FileName} (hp : fs.Plain)
  (hmade : Made (target :: target.ancestors) fs made) (ho : fs.Opens templates source)
  (hready : Ready templates target made source dir)
  (hlists : Lists fs templates source selection names) {decks : List (FileName × List Char)}
  (hdecks : (upToFault (outcome templates target vars made) names).1 = decks)
include hdecks

theorem mem_of_mem_decks {n : FileName} (hn : n ∈ decks.map Prod.fst) : n ∈ names := by
  subst hdecks
  exact (names_upToFault _ names).subset hn

theorem exists_text_of_mem_decks {n : FileName} (hn : n ∈ decks.map Prod.fst) :
    ∃ text, (n, text) ∈ decks ∧ outcome templates target vars made n = .ok text := by
  obtain ⟨⟨_, text⟩, hmem, rfl⟩ := List.mem_map.1 hn
  subst hdecks
  exact ⟨text, hmem, outcome_of_mem_upToFault hmem⟩

include hp hready hlists

theorem free_of_mem_decks {n : FileName} (hn : n ∈ decks.map Prod.fst) :
    IsName n ∧ made.node? (n :: dir) ≠ some .directory := by
  obtain ⟨text, -, houtcome⟩ := exists_text_of_mem_decks hdecks hn
  have hisName := hlists.isName hp n (mem_of_mem_decks hdecks hn)
  exact ⟨hisName, free_of_outcome hready hisName houtcome⟩

theorem ready_place_decks : Ready templates target (place dir decks made) source dir :=
  ready_place hready fun _ hn => free_of_mem_decks hp hready hlists hdecks hn

include hmade

theorem differsAt_place : DiffersAt target dir (decks.map Prod.fst) fs (place dir decks made) := by
  have hplace := ready_place_decks hp hready hlists hdecks
  have hkeeps : made.Keeps (place dir decks made) :=
    keeps_place fun n hn => (free_of_mem_decks hp hready hlists hdecks hn).2
  refine ⟨hkeeps.workingDirectory_eq.trans hmade.keeps.workingDirectory_eq, ?_⟩
  intro location hother
  rw [node?_place_of_ne hother]
  rcases hmade.node? location with hsame | ⟨hnone, hdirectory, p, hmem, hr⟩
  · exact Or.inl hsame
  · exact Or.inr ⟨hnone, hdirectory, p, hmem,
      FileSystem.resolve_of_keeps hmade.plain hplace.plain hkeeps hr⟩

include ho

theorem written_place {n : FileName} (hn : n ∈ decks.map Prod.fst) :
    Written templates target vars fs (place dir decks made) n := by
  have hplace := ready_place_decks hp hready hlists hdecks
  have hname := mem_of_mem_decks hdecks hn
  have hnodup : (decks.map Prod.fst).Nodup := by
    subst hdecks
    exact (names_upToFault _ names).sublist.nodup hlists.nodup
  obtain ⟨text, hmem, houtcome⟩ := exists_text_of_mem_decks hdecks hn
  obtain ⟨hrender, hlength⟩ := render_of_outcome hp hmade ho hlists hname houtcome
  exact ⟨text, hrender, FileSystem.read_join hplace.plain hplace.opens_target
    (hlists.isName hp n hname) hlength (node?_place_of_mem hnodup hmem)⟩

end Place

/-- What a pass leaves that has written the decks of all its templates. -/
structure Completed (fs : FileSystem) (templates target : Path) (vars : Variables)
    (selection : Selection) (paths : List Path) (fs' : FileSystem) (source dir : Location)
    (names : List FileName) : Prop where
  opens_source : fs.resolve .visit templates = .ok (.directory source)
  opens_target : fs'.Opens target dir
  lists : Lists fs templates source selection names
  paths_eq : paths = names.map fun n => target.join ⟨n⟩
  written : ∀ n ∈ names, Written templates target vars fs fs' n
  differs : DiffersAt target dir names fs fs'

theorem completed_of_ok {paths : List Path} (hp : fs.Plain)
    (h : Passes fs templates target vars selection (.ok paths) fs') :
    ∃ source dir names,
      Completed fs templates target vars selection paths fs' source dir names := by
  obtain ⟨listing, made, hnames, hmake⟩ := h.made_of_ok
  obtain ⟨hmade, source, dir, names, hr, hready, hlists, hresult, hstate⟩ :=
    h.eq_of_made hp hnames hmake
  have ho := FileSystem.opens_of_resolve hr
  generalize hdecks : (upToFault (outcome templates target vars made) names).1 = decks at hstate
  subst hstate
  cases hfault : (upToFault (outcome templates target vars made) names).2 with
  | some fault => simp [hfault] at hresult
  | none =>
      rw [hfault] at hresult
      have hall := upToFault_none hfault
      rw [hdecks] at hall
      have hplace := ready_place_decks hp hready hlists hdecks
      have hdiffers := differsAt_place hp hmade hready hlists hdecks
      rw [hall] at hdiffers
      refine ⟨source, dir, names, hr, hplace.opens_target, hlists, Except.ok.inj hresult, ?_,
        hdiffers⟩
      intro n hn
      apply written_place hp hmade ho hready hlists hdecks
      rw [hall]
      exact hn

/-! A directory with two templates, one of them empty. -/

def named (s : String) : FileName := Text.utf8 s

def sample (text : List Char) : FileSystem :=
  ((FileSystem.root.insert [named "t"] .directory).insert [named "a.g", named "t"]
    (deckNode [])).insert [named "b.g", named "t"] (deckNode text)

def sampleSelection : Selection := .ofExtensions ["g"]

theorem plain_sample (text : List Char) : (sample text).Plain := by
  have ht : IsName (named "t") := by constructor <;> decide
  have ha : IsName (named "a.g") := by constructor <;> decide
  have hb : IsName (named "b.g") := by constructor <;> decide
  have hdir : (FileSystem.root.insert [named "t"] .directory).Plain :=
    FileSystem.plain_root.insert_free ht rfl rfl (by simp)
  have hfirst : ((FileSystem.root.insert [named "t"] .directory).insert
      [named "a.g", named "t"] (deckNode [])).Plain :=
    hdir.insert_free ha rfl rfl (by simp [deckNode])
  exact hfirst.insert_free hb rfl rfl (by simp [deckNode])

theorem names_sample (text : List Char) :
    (sample text).names (.ofString "t") = .ok [named "a.g", named "b.g"] := rfl

theorem completed_sample : ∃ fs' source dir names,
    Completed (sample []) (.ofString "t") (.ofString "o") .absent sampleSelection
      [.ofString "o/a.g", .ofString "o/b.g"] fs' source dir names := by
  have hrun : (Job.on (writeListed (.ofString "t") (.ofString "o") .absent sampleSelection
      [named "b.g", named "a.g"]) (sample [])).1 =
        .ok [.ofString "o/a.g", .ofString "o/b.g"] := by cbv
  exact ⟨_, completed_of_ok (plain_sample [])
    (.listed (names_sample []) (.swap _ _ _) (Prod.ext hrun rfl))⟩

/-- A path that leads where the text says, but has no room for a name behind it. -/
def roundabout (s : String) : Path := Path.detour 2046 (.ofString s)

theorem length_roundabout {s : String} (hs : (Path.ofString s).bytes.length = 1) :
    (roundabout s).bytes.length = 4093 := by
  rw [roundabout, Path.length_detour, hs]

theorem overlong_join {s : String} (hs : (Path.ofString s).bytes.length = 1) {n : FileName}
    (hn : IsName n) (hlong : 3 ≤ n.length) :
    pathLimit < ((roundabout s).join ⟨n⟩).bytes.length := by
  have hpath := Path.length_join hn (roundabout s)
  rw [length_roundabout hs] at hpath
  have hlimit : pathLimit = 4095 := rfl
  omega

/-- A template is left out if its path, though not its name, is too long. -/
theorem overlong_left_out :
    (sample []).Plain ∧
    (sample []).resolve .visit (roundabout "t") = .ok (.directory [named "t"]) ∧
    (sample []).node? [named "a.g", named "t"] = some (deckNode []) ∧
    sampleSelection.admits ⟨named "a.g"⟩ = true ∧
    ∃ fs', Passes (sample []) (roundabout "t") (.ofString "o") .absent sampleSelection (.ok [])
      fs' := by
  have hp := plain_sample []
  have hlength : (roundabout "t").bytes.length ≤ pathLimit := by
    rw [length_roundabout rfl]
    decide
  have hresolve : (sample []).resolve .visit (roundabout "t") = .ok (.directory [named "t"]) :=
    FileSystem.resolve_detour hp rfl rfl hlength
  have hnames : (sample []).names (roundabout "t") = .ok [named "a.g", named "b.g"] := by
    rw [FileSystem.names, hresolve]
    rfl
  have hfile : ∀ n ∈ [named "a.g", named "b.g"],
      (sample []).isFile ((roundabout "t").join ⟨n⟩) = false := by
    intro n hmem
    have hchild : n ∈ (sample []).children [named "t"] := hmem
    obtain ⟨node, hnode⟩ := FileSystem.mem_children.1 hchild
    have hn := hp.isName hnode
    have hlong : 3 ≤ n.length := by
      simp only [List.mem_cons, List.not_mem_nil, or_false] at hmem
      rcases hmem with rfl | rfl <;> decide
    rw [← Bool.not_eq_true, FileSystem.isFile_join hp (FileSystem.opens_of_resolve hresolve) hn]
    exact fun h => Nat.not_lt.2 h.1 (overlong_join rfl hn hlong)
  have hfilter : ([named "a.g", named "b.g"].filter fun n =>
      (sample []).isFile ((roundabout "t").join ⟨n⟩) &&
        sampleSelection.admits ((roundabout "t").join ⟨n⟩)) = [] := by
    rw [List.filter_eq_nil_iff]
    intro n hmem
    simp [hfile n hmem]
  have hmake : ((FileStore.makeDirectories (.ofString "o") : StateM FileSystem _).run
      (sample [])).1 = .ok () := by cbv
  have hrun : (Job.on (writeListed (roundabout "t") (.ofString "o") .absent sampleSelection
      [named "a.g", named "b.g"]) (sample [])).1 = .ok [] := by
    rw [on_writeListed, hfilter, sortNames, List.mergeSort_nil]
    generalize (FileStore.makeDirectories (.ofString "o") : StateM FileSystem _).run
      (sample []) = run at hmake
    obtain ⟨result, made⟩ := run
    obtain rfl : result = .ok () := hmake
    rfl
  exact ⟨hp, hresolve, rfl, rfl, _, .listed hnames (.refl _) (Prod.ext hrun rfl)⟩

/-- What a pass leaves that has ended at a template. -/
structure Halted (fs made : FileSystem) (templates target : Path) (vars : Variables)
    (selection : Selection) (fault : Fault) (fs' : FileSystem) (source dir : Location)
    (before : List FileName) (k : FileName) (after : List FileName) : Prop where
  opens_source : fs.resolve .visit templates = .ok (.directory source)
  opens_target : fs'.Opens target dir
  lists : Lists fs templates source selection (before ++ k :: after)
  goes_on : ∀ n ∈ before, ∀ other, ¬Stops fs made templates target vars n other
  stops : Stops fs made templates target vars k fault
  written : ∀ n ∈ before, Written templates target vars fs fs' n
  differs : DiffersAt target dir before fs fs'

/-- A pass ends at the first template at which it has to, so what stands in the way of later ones
plays no part. -/
theorem halted_of_error {fault : Fault} (hp : fs.Plain)
    (h : Passes fs templates target vars selection (.error fault) fs') :
    (∀ refusal, fs.names templates = .error refusal → fault = .file refusal ∧ fs' = fs) ∧
    ∀ listing made, fs.names templates = .ok listing →
      (FileStore.makeDirectories target : StateM FileSystem _).run fs = (.ok (), made) →
      ∃ source dir before k after,
        Halted fs made templates target vars selection fault fs' source dir before k after := by
  constructor
  · intro refusal hnames
    obtain ⟨hfault, hstate⟩ := h.eq_of_unlisted hnames
    exact ⟨Except.error.inj hfault, hstate⟩
  · intro listing made hnames hmake
    obtain ⟨hmade, source, dir, names, hr, hready, hlists, hresult, hstate⟩ :=
      h.eq_of_made hp hnames hmake
    have ho := FileSystem.opens_of_resolve hr
    generalize hdecks : (upToFault (outcome templates target vars made) names).1 = decks at hstate
    subst hstate
    cases hend : (upToFault (outcome templates target vars made) names).2 with
    | none => simp [hend] at hresult
    | some other =>
        rw [hend] at hresult
        obtain rfl := Except.error.inj hresult
        obtain ⟨k, after, hsplit, hk⟩ := upToFault_some hend
        rw [hdecks] at hsplit
        have hkmem : k ∈ names := by
          rw [hsplit]
          simp
        have hplace := ready_place_decks hp hready hlists hdecks
        refine ⟨source, dir, decks.map Prod.fst, k, after, hr, hplace.opens_target,
          hsplit ▸ hlists, ?_, (stops_iff hp hmade ho hlists hkmem).2 hk,
          fun n hn => written_place hp hmade ho hready hlists hdecks hn,
          differsAt_place hp hmade hready hlists hdecks⟩
        intro n hn other hstops
        obtain ⟨text, -, houtcome⟩ := exists_text_of_mem_decks hdecks hn
        rw [stops_iff hp hmade ho hlists (mem_of_mem_decks hdecks hn), houtcome] at hstops
        simp at hstops

theorem halted_sample : ∃ made fs' source dir before k after,
    Halted (sample ['?']) made (.ofString "t") (.ofString "o") .absent sampleSelection
      (.unbalanced ⟨"t/b.g", 1⟩) fs' source dir before k after := by
  have hrun : (Job.on (writeListed (.ofString "t") (.ofString "o") .absent sampleSelection
      [named "b.g", named "a.g"]) (sample ['?'])).1 = .error (.unbalanced ⟨"t/b.g", 1⟩) := by cbv
  have hmake : ((FileStore.makeDirectories (.ofString "o") : StateM FileSystem _).run
      (sample ['?'])).1 = .ok () := by cbv
  have hpasses := (halted_of_error (plain_sample ['?'])
    (.listed (names_sample ['?']) (.swap _ _ _) (Prod.ext hrun rfl))).2
  exact ⟨_, _, hpasses _ _ (names_sample ['?']) (Prod.ext hmake rfl)⟩

theorem makeDirectories_roundabout (text : List Char) :
    (FileStore.makeDirectories (roundabout "o") : StateM FileSystem _).run (sample text) =
      (.ok (), (sample text).insert [named "o"] .directory) := by
  have hlength : (roundabout "o").bytes.length = 4093 := length_roundabout rfl
  have hnil : (roundabout "o").bytes ≠ [] := by
    intro he
    simp [he] at hlength
  have hzero : 0 ∉ (roundabout "o").bytes := Path.zero_not_mem_detour (by decide) 2046
  have hrefusal : FileSystem.refusal (roundabout "o") = none :=
    FileSystem.refusal_eq_none.2 ⟨hzero, hnil, by rw [hlength]; decide⟩
  have hparts : (roundabout "o").solidParts = List.replicate 2046 Path.here ++ [named "o"] :=
    Path.solidParts_detour 2046 _
  have hstart : FileSystem.start (sample text).workingDirectory (roundabout "o") = [] := by
    unfold FileSystem.start
    split <;> rfl
  have hleads : (sample text).Leads (FileSystem.start (sample text).workingDirectory
      (roundabout "o")) (List.replicate 2046 Path.here) [] := by
    rw [hstart]
    exact FileSystem.leads_here rfl 2046
  have ho : IsName (named "o") := by constructor <;> decide
  rw [FileStore.makeDirectories, if_neg hnil, FileSystem.run_makeChain_cons,
    FileSystem.makeDirectory_of_leads (plain_sample text) hrefusal hparts hleads ho rfl]

theorem refusal_destination_roundabout :
    FileSystem.refusal ((roundabout "o").join ⟨named "a.g"⟩) = some .nameTooLong := by
  have ha : IsName (named "a.g") := by constructor <;> decide
  have hzero : 0 ∉ (roundabout "o").bytes := Path.zero_not_mem_detour (by decide) 2046
  exact FileSystem.refusal_eq_nameTooLong (Path.zero_not_mem_join ha hzero)
    (overlong_join rfl ha (by decide))

theorem on_writeListed_roundabout :
    Job.on (writeListed (.ofString "t") (roundabout "o") .absent sampleSelection
      [named "a.g", named "b.g"]) (sample ['?']) =
        (.error (.file .nameTooLong), (sample ['?']).insert [named "o"] .directory) := by
  have hnames : ([named "a.g", named "b.g"].filter fun n =>
      (sample ['?']).isFile ((Path.ofString "t").join ⟨n⟩) &&
        sampleSelection.admits ((Path.ofString "t").join ⟨n⟩)) = [named "a.g", named "b.g"] := by
    decide
  have hsorted : sortNames [named "a.g", named "b.g"] = [named "a.g", named "b.g"] :=
    List.mergeSort_of_pairwise (by decide)
  have hdeck : ((sample ['?']).insert [named "o"] .directory).deck .absent
      ((Path.ofString "t").join ⟨named "a.g"⟩) = .ok ⟨named "a.g", [], []⟩ := by cbv
  rw [on_writeListed, makeDirectories_roundabout, hnames, hsorted]
  dsimp only
  rw [List.map_cons, Deck.writeEach, Job.on_bind, Deck.on_write, hdeck]
  dsimp only
  rw [FileSystem.write, FileSystem.resolve_of_refusal refusal_destination_roundabout]

/-- A pass can end at a template that is fine, since the path of its deck is too long.  And the way
to the target may lead through the destination of a deck, which is a directory then. -/
theorem overlong_or_made_destination :
    ((sample ['?']).Plain ∧
      (Job.on (Deck.render .absent (.ofString "t/a.g")) (sample ['?'])).1 = .ok [] ∧
      (Job.on (Deck.render .absent (.ofString "t/b.g")) (sample ['?'])).1 =
        .error (.unbalanced ⟨"t/b.g", 1⟩) ∧
      ∃ made, (FileStore.makeDirectories (roundabout "o") : StateM FileSystem _).run
          (sample ['?']) = (.ok (), made) ∧
        made.isDirectory ((roundabout "o").join ⟨named "a.g"⟩) = false ∧
        Passes (sample ['?']) (.ofString "t") (roundabout "o") .absent sampleSelection
          (.error (.file .nameTooLong)) made) ∧
    (sample []).Plain ∧ ∃ fs',
      Passes (sample []) (.ofString "t") (.ofString "o/a.g/..") .absent sampleSelection
        (.error (.file .isADirectory)) fs' ∧
      fs'.resolve .visit (.ofString "o/a.g/..") = .ok (.directory [named "o"]) ∧
      (sample []).node? [named "a.g", named "o"] = none ∧
      fs'.node? [named "a.g", named "o"] = some .directory := by
  constructor
  · refine ⟨plain_sample _, by cbv, by cbv, _, makeDirectories_roundabout _, ?_,
      .listed (names_sample _) (.refl _) on_writeListed_roundabout⟩
    rw [FileSystem.isDirectory, FileSystem.resolve_of_refusal refusal_destination_roundabout]
  · have hrun : (Job.on (writeListed (.ofString "t") (.ofString "o/a.g/..") .absent sampleSelection
        [named "a.g", named "b.g"]) (sample [])).1 = .error (.file .isADirectory) := by cbv
    exact ⟨plain_sample _, _, .listed (names_sample _) (.refl _) (Prod.ext hrun rfl), by cbv, rfl,
      by cbv⟩

end Generation
end InputDeck
