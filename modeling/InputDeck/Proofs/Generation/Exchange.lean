/-
Passes made in the other order.

A pass reads the files of its template directory, makes what is missing on the way to its target and
puts its decks there.  `Leaves` says what that comes to, `Succeeds` what it takes.  If neither target
is the template directory of the other pass, nothing one of them leaves is a file that the other
reads; and if the targets are different directories no node is left by both but for directories on
the way to both.  So two passes that succeed one after the other succeed in the other order too, and
leave the same: `generate_exchange`.

One condition is on the pass that comes to be the first.  It may have needed a directory that the
other one made, namely if the path of its target ends in `.` (`run_dot_first`).
-/
import InputDeck.Proofs.FileSystem.Ways
import InputDeck.Proofs.Generation.Decks
import InputDeck.Proofs.Generation.Repeated
import InputDeck.Proofs.Generation.Shuffled

namespace InputDeck

namespace FileSystem

theorem ext_node? {fs fs' : FileSystem} (hworking : fs'.workingDirectory = fs.workingDirectory)
    (hroot : fs'.nodes.get? [] = fs.nodes.get? [])
    (hnode : ∀ location, fs'.node? location = fs.node? location) : fs' = fs := by
  have hnodes : fs'.nodes = fs.nodes := by
    apply Table.ext
    intro location
    cases location with
    | nil => exact hroot
    | cons n dir => exact hnode (n :: dir)
  obtain ⟨nodes, working⟩ := fs
  obtain ⟨nodes', working'⟩ := fs'
  obtain rfl : nodes' = nodes := hnodes
  obtain rfl : working' = working := hworking
  rfl

end FileSystem

namespace Generation

open FileSystem (pathLimit start)
open InputDeck.Path (below)

/-- A call of a generator. -/
structure Request where
  generator : Generator
  templates : Path
  base : Path
  vars : Variables
  type : String

namespace Request

def target (r : Request) : Except Fault Path := r.generator.catalog.target r.base r.type

/-- What the call comes to if directories are listed in the given order. -/
def run (r : Request) (shuffle : List FileName → List FileName) (fs : FileSystem) :
    Except Fault (List Path) × FileSystem :=
  Job.on (Shuffled.toJob shuffle (r.generator.generate r.templates r.base r.vars r.type)) fs

end Request

variable {fs fs' made made' : FileSystem} {templates target : Path} {vars : Variables}
  {selection : Selection} {source dir : Location} {decks : List (FileName × List Char)}

/-! ## What a pass leaves -/

/-- The places of the decks and of the directories on the way to them. -/
def Touches (dir : Location) (decks : List (FileName × List Char)) (location : Location) : Prop :=
  (∃ deck ∈ decks, location = deck.1 :: dir) ∨ location <:+ dir

/-- That decks stand in a directory to which a way has been made, and that nothing else is new. -/
structure Leaves (dir : Location) (decks : List (FileName × List Char)) (fs fs' : FileSystem) :
    Prop where
  workingDirectory_eq : fs'.workingDirectory = fs.workingDirectory
  root_eq : fs'.nodes.get? [] = fs.nodes.get? []
  clear : fs.Clear dir
  free : ∀ deck ∈ decks, fs.node? (deck.1 :: dir) ≠ some .directory
  deck : ∀ deck ∈ decks, fs'.node? (deck.1 :: dir) = some (deckNode deck.2)
  directory : ∀ {location}, location <:+ dir → fs'.node? location = some .directory
  other : ∀ {location}, ¬Touches dir decks location → fs'.node? location = fs.node? location

theorem not_deck_of_ne {dir' : Location} (hne : dir ≠ dir') (n : FileName) :
    ¬∃ deck ∈ decks, n :: dir' = deck.1 :: dir :=
  fun ⟨_, _, he⟩ => hne (List.cons.inj he).2.symm

namespace Leaves

variable (h : Leaves dir decks fs fs') {location : Location}
include h

/-- What is there stays, unless a deck takes its place. -/
theorem stays {node : Node} (hnode : fs.node? location = some node)
    (hother : ¬∃ deck ∈ decks, location = deck.1 :: dir) : fs'.node? location = some node := by
  by_cases hsuffix : location <:+ dir
  · rcases h.clear location hsuffix with hdir | hnone
    · rw [h.directory hsuffix, ← hdir, hnode]
    · simp [hnode] at hnone
  · rw [h.other (not_or.2 ⟨hother, hsuffix⟩), hnode]

theorem keeps : fs.Keeps fs' where
  workingDirectory_eq := h.workingDirectory_eq
  directory hdir := h.stays hdir fun ⟨deck, hmem, he⟩ => h.free deck hmem (he ▸ hdir)

theorem node?_eq_none (hnone : fs'.node? location = none) : fs.node? location = none := by
  by_cases htouches : Touches dir decks location
  · rcases htouches with ⟨deck, hmem, rfl⟩ | hsuffix
    · simp [h.deck deck hmem] at hnone
    · simp [h.directory hsuffix] at hnone
  · rw [← h.other htouches, hnone]

theorem file_iff (hother : ¬∃ deck ∈ decks, location = deck.1 :: dir) {contents : Contents} :
    fs'.node? location = some (.file contents) ↔ fs.node? location = some (.file contents) := by
  by_cases hsuffix : location <:+ dir
  · rw [h.directory hsuffix]
    rcases h.clear location hsuffix with hdir | hnone
    · rw [hdir]
    · simp [hnone]
  · rw [h.other (not_or.2 ⟨hother, hsuffix⟩)]

/-- A way that is clear afterwards was so before. -/
theorem clear_before {other : Location} (hclear : fs'.Clear other) : fs.Clear other := by
  intro location hlocation
  rcases hclear location hlocation with hdir | hnone
  · by_cases htouches : Touches dir decks location
    · rcases htouches with ⟨deck, hmem, rfl⟩ | hsuffix
      · simp [h.deck deck hmem, deckNode] at hdir
      · exact h.clear location hsuffix
    · exact Or.inl (h.other htouches ▸ hdir)
  · exact Or.inr (h.node?_eq_none hnone)

/-- A way that is clear stays so if no deck is put on it. -/
theorem clear_after {other : Location} (hclear : fs.Clear other)
    (hdecks : ∀ deck ∈ decks, ¬deck.1 :: dir <:+ other) : fs'.Clear other := by
  intro location hlocation
  by_cases htouches : Touches dir decks location
  · rcases htouches with ⟨deck, hmem, rfl⟩ | hsuffix
    · exact absurd hlocation (hdecks deck hmem)
    · exact Or.inl (h.directory hsuffix)
  · rw [h.other htouches]
    exact hclear location hlocation

end Leaves

section TwoPlaces

variable {fs₁ fs₂ fs₁' fs₂' : FileSystem} {dir' : Location} {decks' : List (FileName × List Char)}
  (hne : dir ≠ dir') (h₁ : Leaves dir decks fs fs₁) (h₂ : Leaves dir' decks' fs₁ fs₂)
include hne h₁ h₂

/-- What a pass leaves does not depend on what was there, and another one lets it stand. -/
theorem node?_of_touches (h₂' : Leaves dir decks fs₁' fs₂') {location : Location}
    (htouches : Touches dir decks location) : fs₂'.node? location = fs₂.node? location := by
  rcases htouches with ⟨deck, hmem, rfl⟩ | hsuffix
  · rw [h₂'.deck deck hmem, h₂.stays (h₁.deck deck hmem) (not_deck_of_ne hne.symm _)]
  · rw [h₂'.directory hsuffix, h₂.keeps.directory (h₁.directory hsuffix)]

theorem leaves_exchange (h₁' : Leaves dir' decks' fs fs₁') (h₂' : Leaves dir decks fs₁' fs₂') :
    fs₂' = fs₂ := by
  apply FileSystem.ext_node?
  · rw [h₂'.workingDirectory_eq, h₁'.workingDirectory_eq, h₂.workingDirectory_eq,
      h₁.workingDirectory_eq]
  · rw [h₂'.root_eq, h₁'.root_eq, h₂.root_eq, h₁.root_eq]
  intro location
  by_cases htouches : Touches dir decks location
  · exact node?_of_touches hne h₁ h₂ h₂' htouches
  by_cases htouches' : Touches dir' decks' location
  · exact (node?_of_touches hne.symm h₁' h₂' h₂ htouches').symm
  rw [h₂'.other htouches, h₁'.other htouches', h₂.other htouches', h₁.other htouches]

end TwoPlaces

/-! ## What a pass takes -/

/-- A pass that comes to its end. -/
structure Succeeds (fs : FileSystem) (templates target : Path) (vars : Variables)
    (selection : Selection) (source dir : Location) (made : FileSystem)
    (decks : List (FileName × List Char)) : Prop where
  plain : fs.Plain
  resolve : fs.resolve .visit templates = .ok (.directory source)
  make : (FileStore.makeDirectories target : StateM FileSystem _).run fs = (.ok (), made)
  ready : Ready templates target made source dir
  lists : Lists fs templates source selection (decks.map Prod.fst)
  outcome : ∀ deck ∈ decks, outcome templates target vars made deck.1 = .ok deck.2

theorem upToFault_of_ok {f : FileName → Except Fault (List Char)}
    (h : ∀ deck ∈ decks, f deck.1 = .ok deck.2) :
    upToFault f (decks.map Prod.fst) = (decks, none) := by
  induction decks with
  | nil => rfl
  | cons deck rest ih =>
      rw [List.map_cons, upToFault, h deck List.mem_cons_self,
        ih fun d hd => h d (List.mem_cons_of_mem _ hd)]

theorem Passes.succeeds (hp : fs.Plain) {paths : List Path}
    (h : Passes fs templates target vars selection (.ok paths) fs') :
    ∃ source dir made decks, Succeeds fs templates target vars selection source dir made decks ∧
      paths = (decks.map Prod.fst).map (fun n => target.join ⟨n⟩) ∧ fs' = place dir decks made := by
  obtain ⟨names, made, hnames, hmake⟩ := h.made_of_ok
  obtain ⟨-, source, dir, names, hr, hready, hlists, hresult, hstate⟩ :=
    h.eq_of_made hp hnames hmake
  cases hend : (upToFault (Generation.outcome templates target vars made) names).2 with
  | some fault => simp [hend] at hresult
  | none =>
      have hall := upToFault_none hend
      rw [hend] at hresult
      refine ⟨source, dir, made, _, ⟨hp, hr, hmake, hready, hall.symm ▸ hlists, ?_⟩, ?_, hstate⟩
      · exact fun deck hdeck => outcome_of_mem_upToFault hdeck
      · rw [hall]
        exact Except.ok.inj hresult

theorem Succeeds.eq_of_passes (h : Succeeds fs templates target vars selection source dir made decks)
    {result : Except Fault (List Path)}
    (hpasses : Passes fs templates target vars selection result fs') :
    result = .ok ((decks.map Prod.fst).map fun n => target.join ⟨n⟩) ∧
      fs' = place dir decks made := by
  have hnames : fs.names templates = .ok (fs.children source) := by
    unfold FileSystem.names
    rw [h.resolve]
  obtain ⟨-, source', dir', names', hr, hready, hlists, hresult, hstate⟩ :=
    hpasses.eq_of_made h.plain hnames h.make
  obtain rfl : source' = source :=
    (FileSystem.opens_of_resolve h.resolve).eq (FileSystem.opens_of_resolve hr)
  obtain rfl := hready.opens_target.eq h.ready.opens_target
  obtain rfl : names' = decks.map Prod.fst := h.lists.eq_of_mem_iff hlists fun n => by
    rw [hlists.mem_iff, h.lists.mem_iff]
  rw [upToFault_of_ok h.outcome] at hresult hstate
  exact ⟨hresult, hstate⟩

theorem root_place (dir : Location) (decks : List (FileName × List Char)) (fs : FileSystem) :
    (place dir decks fs).nodes.get? [] = fs.nodes.get? [] := by
  induction decks generalizing fs with
  | nil => rfl
  | cons deck rest ih =>
      rw [place, ih]
      exact Table.get?_insert_ne (by simp) _ _

theorem not_suffix_self (n : FileName) (dir : Location) : ¬n :: dir <:+ dir := by
  intro hsuffix
  have hlength := hsuffix.length_le
  rw [List.length_cons] at hlength
  omega

namespace Succeeds

variable (h : Succeeds fs templates target vars selection source dir made decks)
include h

theorem isName {deck : FileName × List Char} (hmem : deck ∈ decks) : IsName deck.1 :=
  h.lists.isName h.plain _ (List.mem_map_of_mem hmem)

theorem free_made {deck : FileName × List Char} (hmem : deck ∈ decks) :
    made.node? (deck.1 :: dir) ≠ some .directory :=
  free_of_outcome h.ready (h.isName hmem) (h.outcome deck hmem)

theorem ready_place : Ready templates target (place dir decks made) source dir := by
  apply Generation.ready_place h.ready
  intro n hn
  obtain ⟨deck, hmem, rfl⟩ := List.mem_map.1 hn
  exact ⟨h.isName hmem, h.free_made hmem⟩

theorem plain_place : (place dir decks made).Plain := h.ready_place.plain

variable (hup : Path.up ∉ target.parts)
include hup

theorem dir_eq : dir = below (start fs.workingDirectory target) target.solidParts :=
  (FileSystem.opens_of_makeDirectories h.plain hup h.make).eq h.ready.opens_target

theorem paved : FileSystem.Paved dir fs made := by
  rw [h.dir_eq hup]
  exact FileSystem.paved_of_makeDirectories h.plain hup h.make

theorem leaves : Leaves dir decks fs (place dir decks made) := by
  have hpaved := h.paved hup
  refine ⟨?_, ?_, hpaved.clear, ?_, ?_, ?_, ?_⟩
  · rw [workingDirectory_place, hpaved.workingDirectory_eq]
  · rw [root_place, hpaved.root_eq]
  · intro deck hmem
    rw [← hpaved.other (not_suffix_self deck.1 dir)]
    exact h.free_made hmem
  · intro deck hmem
    exact node?_place_of_mem h.lists.nodup hmem
  · intro location hsuffix
    rw [node?_place_of_ne, hpaved.directory hsuffix]
    rintro n - rfl
    exact not_suffix_self n dir hsuffix
  · intro location htouches
    rw [node?_place_of_ne, hpaved.other (not_or.1 htouches).2]
    intro n hn he
    obtain ⟨deck, hmem, rfl⟩ := List.mem_map.1 hn
    exact htouches (Or.inl ⟨deck, hmem, he⟩)

/-- A pass that comes to its end does so wherever its templates are the same, its target can be made
and nothing stands in the place of its decks. -/
theorem transfer (hp' : fs'.Plain) (hworking : fs'.workingDirectory = fs.workingDirectory)
    (hr' : fs'.resolve .visit templates = .ok (.directory source))
    (hclear : fs'.Clear dir)
    (hdot : target.solidParts.getLast? = some Path.here → fs'.node? dir = some .directory)
    (hfiles : ∀ n contents, fs'.node? (n :: source) = some (.file contents) ↔
      fs.node? (n :: source) = some (.file contents))
    (hfree : ∀ deck ∈ decks, fs'.node? (deck.1 :: dir) ≠ some .directory) :
    ∃ made', Succeeds fs' templates target vars selection source dir made' decks := by
  have hdir : dir = below (start fs'.workingDirectory target) target.solidParts := by
    rw [hworking]
    exact h.dir_eq hup
  obtain ⟨made', hmake⟩ := FileSystem.run_makeDirectories_of_clear h.plain hup h.make hp'
    (hdir ▸ hclear) (hdir ▸ hdot)
  have hpaved' : FileSystem.Paved dir fs' made' :=
    hdir ▸ FileSystem.paved_of_makeDirectories hp' hup hmake
  have hopens : made'.Opens target dir :=
    hdir ▸ FileSystem.opens_of_makeDirectories hp' hup hmake
  have hkeeps := (FileSystem.makes_makeDirectories hp' target hmake).1.keeps
  have hready : Ready templates target made' source dir :=
    ⟨hpaved'.plain, (FileSystem.opens_of_resolve hr').keeps hp' hpaved'.plain hkeeps, hopens⟩
  refine ⟨made', hp', hr', hmake, hready, ⟨h.lists.increasing, ?_⟩, ?_⟩
  · intro n
    simp only [h.lists.mem_iff, hfiles]
  intro deck hmem
  have hn := h.isName hmem
  obtain ⟨made_deck, hdeck, hcontents, hlength, -⟩ := outcome_eq_ok_iff.1 (h.outcome deck hmem)
  obtain ⟨contents, hfile⟩ := ((h.lists.mem_iff _).1 (List.mem_map_of_mem hmem)).1
  have hsame : made'.node? (deck.1 :: source) = made.node? (deck.1 :: source) := by
    rw [(h.paved hup).file hfile, hpaved'.file ((hfiles deck.1 contents).2 hfile)]
  have hnot : made'.isDirectory (target.join ⟨deck.1⟩) = false := by
    rw [← Bool.not_eq_true, FileSystem.isDirectory_join hpaved'.plain hopens hn,
      hpaved'.other (not_suffix_self deck.1 dir)]
    exact fun hdirectory => hfree deck hmem hdirectory.2
  exact outcome_eq_ok_iff.2
    ⟨made_deck, (deck_congr h.ready hready hn hsame).trans hdeck, hcontents, hlength, hnot⟩

end Succeeds

/-! ## Two passes -/

section TwoPasses

variable {templates' target' : Path} {vars' : Variables} {selection' : Selection}
  {source' dir' : Location} {made₁ made₂ : FileSystem} {decks' : List (FileName × List Char)}
  (hup : Path.up ∉ target.parts) (hup' : Path.up ∉ target'.parts)
  (h₁ : Succeeds fs templates target vars selection source dir made₁ decks)
  (h₂ : Succeeds (place dir decks made₁) templates' target' vars' selection' source' dir' made₂
    decks')
include hup hup' h₁ h₂

/-- The second pass finds at the start what it found after the first. -/
theorem Succeeds.earlier (hdir : dir ≠ source')
    (htemplates : fs.isDirectory templates' = true)
    (hdot : target'.solidParts.getLast? = some Path.here → fs.isDirectory target' = true) :
    ∃ made', Succeeds fs templates' target' vars' selection' source' dir' made' decks' := by
  have hleaves := h₁.leaves hup
  obtain ⟨location, hr⟩ := FileSystem.resolve_of_isDirectory htemplates
  obtain rfl : location = source' :=
    (FileSystem.opens_of_resolve h₂.resolve).eq (FileSystem.opens_of_resolve
      (FileSystem.resolve_of_keeps h₁.plain h₁.plain_place hleaves.keeps hr))
  refine h₂.transfer hup' h₁.plain hleaves.workingDirectory_eq.symm hr
    (hleaves.clear_before (h₂.paved hup').clear) ?_ ?_ ?_
  · intro hends
    obtain ⟨there, hthere⟩ := FileSystem.resolve_of_isDirectory (hdot hends)
    obtain rfl : there = dir' := by
      rw [h₂.dir_eq hup', hleaves.workingDirectory_eq]
      exact (FileSystem.opens_of_resolve hthere).eq_below h₁.plain hup'
    exact ((FileSystem.resolve_directory h₁.plain).1 hthere).2.end_directory
  · intro n contents
    exact (hleaves.file_iff (not_deck_of_ne hdir n)).symm
  · intro deck hmem hdirectory
    exact (h₂.leaves hup').free deck hmem (hleaves.keeps.directory hdirectory)

/-- The first pass finds after the second what it found at the start. -/
theorem Succeeds.later {made' : FileSystem}
    (h' : Succeeds fs templates' target' vars' selection' source' dir' made' decks')
    (hdir : dir' ≠ source) (hne : dir ≠ dir') :
    ∃ made'', Succeeds (place dir' decks' made') templates target vars selection source dir made''
      decks := by
  have hleaves := h'.leaves hup'
  have hleaves₁ := h₁.leaves hup
  have hleaves₂ := h₂.leaves hup'
  refine h₁.transfer hup h'.plain_place hleaves.workingDirectory_eq
    (FileSystem.resolve_of_keeps h₁.plain h'.plain_place hleaves.keeps h₁.resolve)
    (hleaves.clear_after hleaves₁.clear ?_) ?_ ?_ ?_
  · intro deck hmem hsuffix
    exact hleaves₂.free deck hmem (hleaves₁.directory hsuffix)
  · intro hends
    have hthere := FileSystem.directory_of_dot h₁.plain hup h₁.make hends
    rw [← h₁.dir_eq hup] at hthere
    exact hleaves.keeps.directory hthere
  · intro n contents
    exact hleaves.file_iff (not_deck_of_ne hdir n)
  · intro deck hmem hdirectory
    -- A directory in the place of a first deck would be in the way of the second pass.
    by_cases htouches : Touches dir' decks' (deck.1 :: dir)
    · rcases htouches with hdeck | hsuffix
      · exact not_deck_of_ne hne.symm deck.1 hdeck
      · have hfile := hleaves₁.deck deck hmem
        rcases hleaves₂.clear _ hsuffix with hdirectory | hnone
        · simp [hfile, deckNode] at hdirectory
        · simp [hfile] at hnone
    · rw [hleaves.other htouches] at hdirectory
      exact hleaves₁.free deck hmem hdirectory

end TwoPasses

/-- That two paths open different directories. -/
def Apart (fs : FileSystem) (p q : Path) : Prop := ∀ dir, fs.Opens p dir → ¬fs.Opens q dir

/-- Of two passes that end, the second could have been made first, and the first one after it. -/
theorem passes_exchange {templates' target' : Path} {vars' : Variables} {selection' : Selection}
    {paths paths' : List Path} {fs₁ fs₂ : FileSystem} (hp : fs.Plain)
    (hup : Path.up ∉ target.parts) (hup' : Path.up ∉ target'.parts)
    (htemplates : fs.isDirectory templates' = true)
    (hdot : target'.solidParts.getLast? = some Path.here → fs.isDirectory target' = true)
    (h₁ : Passes fs templates target vars selection (.ok paths) fs₁)
    (h₂ : Passes fs₁ templates' target' vars' selection' (.ok paths') fs₂)
    (htargets : Apart fs₂ target target') (hsource : Apart fs₂ target templates')
    (hsource' : Apart fs₂ target' templates) {result' : Except Fault (List Path)}
    {fs₁' : FileSystem} (h₁' : Passes fs templates' target' vars' selection' result' fs₁') :
    result' = .ok paths' ∧ ∀ {result : Except Fault (List Path)} {fs₂' : FileSystem},
      Passes fs₁' templates target vars selection result fs₂' →
        result = .ok paths ∧ fs₂' = fs₂ := by
  obtain ⟨source, dir, made₁, decks, hfirst, rfl, rfl⟩ := h₁.succeeds hp
  obtain ⟨source', dir', made₂, decks', hsecond, rfl, rfl⟩ := h₂.succeeds hfirst.plain_place
  have hleaves₁ := hfirst.leaves hup
  have hleaves₂ := hsecond.leaves hup'
  -- Where the paths led when they were used, there they lead in the end.
  have hready' := hsecond.ready_place
  have htarget := hfirst.ready_place.opens_target.keeps hfirst.plain_place hready'.plain
    hleaves₂.keeps
  have htemplates₂ := hfirst.ready_place.opens_source.keeps hfirst.plain_place hready'.plain
    hleaves₂.keeps
  have hne : dir ≠ dir' := by
    rintro rfl
    exact htargets dir htarget hready'.opens_target
  have hdir : dir ≠ source' := by
    rintro rfl
    exact hsource dir htarget hready'.opens_source
  have hdir' : dir' ≠ source := by
    rintro rfl
    exact hsource' dir' hready'.opens_target htemplates₂
  obtain ⟨made', hearlier⟩ := hfirst.earlier hup hup' hsecond hdir htemplates hdot
  obtain ⟨rfl, rfl⟩ := hearlier.eq_of_passes h₁'
  refine ⟨rfl, ?_⟩
  intro result fs₂' h₂'
  obtain ⟨made'', hlater⟩ := hfirst.later hup hup' hsecond hearlier hdir' hne
  obtain ⟨rfl, rfl⟩ := hlater.eq_of_passes h₂'
  exact ⟨rfl, leaves_exchange hne hleaves₁ hleaves₂ (hearlier.leaves hup') (hlater.leaves hup)⟩

namespace Request

theorem passes_run {r : Request} {shuffle : List FileName → List FileName}
    (order : ∀ names, (shuffle names).Perm names) (htarget : Request.target r = .ok target)
    (fs : FileSystem) :
    Passes fs r.templates target r.vars r.generator.selection (r.run shuffle fs).1
      (r.run shuffle fs).2 := by
  rcases Shuffled.generate_cases shuffle order r.generator r.templates r.base r.vars r.type fs with
    ⟨fault, hfault, -⟩ | ⟨target', htarget', hpasses⟩
  · exact absurd (htarget.symm.trans hfault) (by simp)
  · obtain rfl := Except.ok.inj (htarget.symm.trans htarget')
    exact hpasses

end Request

/-- Two calls with different targets, neither of them the template directory of the other, that
succeed one after the other come to the same in the other order. -/
theorem generate_exchange {shuffle₁ shuffle₂ shuffle₁' shuffle₂' : List FileName → List FileName}
    (order₁ : ∀ names, (shuffle₁ names).Perm names)
    (order₂ : ∀ names, (shuffle₂ names).Perm names)
    (order₁' : ∀ names, (shuffle₁' names).Perm names)
    (order₂' : ∀ names, (shuffle₂' names).Perm names) (a b : Request) (hp : fs.Plain)
    {target₁ target₂ : Path} (ha : a.target = .ok target₁) (hb : b.target = .ok target₂)
    (hupa : Path.up ∉ target₁.parts) (hupb : Path.up ∉ target₂.parts)
    (htemplates : fs.isDirectory b.templates = true)
    (hdot : target₂.solidParts.getLast? = some Path.here → fs.isDirectory target₂ = true)
    {paths₁ paths₂ : List Path} {fs₁ fs₂ : FileSystem}
    (hfirst : a.run shuffle₁ fs = (.ok paths₁, fs₁))
    (hsecond : b.run shuffle₂ fs₁ = (.ok paths₂, fs₂))
    (htargets : Apart fs₂ target₁ target₂) (hab : Apart fs₂ target₁ b.templates)
    (hba : Apart fs₂ target₂ a.templates) :
    ∃ fs₁', b.run shuffle₁' fs = (.ok paths₂, fs₁') ∧ a.run shuffle₂' fs₁' = (.ok paths₁, fs₂) := by
  have h₁ := Request.passes_run order₁ ha fs
  have h₂ := Request.passes_run order₂ hb fs₁
  rw [hfirst] at h₁
  rw [hsecond] at h₂
  obtain ⟨hresult, hthen⟩ := passes_exchange hp hupa hupb htemplates hdot h₁ h₂ htargets hab hba
    (Request.passes_run order₁' hb fs)
  obtain ⟨hresult', hstate⟩ := hthen (Request.passes_run order₂' ha (b.run shuffle₁' fs).2)
  exact ⟨(b.run shuffle₁' fs).2, Prod.ext hresult rfl, Prod.ext hresult' hstate⟩

theorem apart_of_resolve {p q : Path} {location location' : Location}
    (hp : fs.resolve .visit p = .ok (.directory location))
    (hq : fs.resolve .visit q = .ok (.directory location')) (hne : location ≠ location') :
    Apart fs p q := by
  intro dir hdir hdir'
  obtain rfl := (FileSystem.opens_of_resolve hp).eq hdir
  exact hne (hdir'.eq (FileSystem.opens_of_resolve hq)).symm

/-! Targets below the template directory, one of them in the other. -/

def outer : Request :=
  ⟨⟨.ofList [], sampleSelection⟩, .ofString "t", .ofString "t/o", Template.gridVariables, ""⟩

def inner : Request :=
  ⟨⟨.ofList [("b", some (.ofString "x"))], sampleSelection⟩, .ofString "t", .ofString "t/o",
    .absent, "b"⟩

theorem generate_exchange_nested : ∃ fs₁ fs₂ fs₁',
    outer.run List.reverse (sample "x ?m? y\n".toList) =
      (.ok [.ofString "t/o/a.g", .ofString "t/o/b.g"], fs₁) ∧
    inner.run id fs₁ = (.ok [.ofString "t/o/x/a.g", .ofString "t/o/x/b.g"], fs₂) ∧
    inner.run List.reverse (sample "x ?m? y\n".toList) =
      (.ok [.ofString "t/o/x/a.g", .ofString "t/o/x/b.g"], fs₁') ∧
    outer.run id fs₁' = (.ok [.ofString "t/o/a.g", .ofString "t/o/b.g"], fs₂) := by
  have hfirst : (outer.run List.reverse (sample "x ?m? y\n".toList)).1 =
      .ok [.ofString "t/o/a.g", .ofString "t/o/b.g"] := by cbv
  generalize hfs₁ : (outer.run List.reverse (sample "x ?m? y\n".toList)).2 = fs₁
  have hsecond : (inner.run id fs₁).1 = .ok [.ofString "t/o/x/a.g", .ofString "t/o/x/b.g"] := by
    rw [← hfs₁]
    cbv
  generalize hfs₂ : (inner.run id fs₁).2 = fs₂
  have hresolve : (fs₂.resolve .visit (.ofString "t"), fs₂.resolve .visit (.ofString "t/o"),
      fs₂.resolve .visit (.ofString "t/o/x")) =
      (.ok (.directory [named "t"]), .ok (.directory [named "o", named "t"]),
        .ok (.directory [named "x", named "o", named "t"])) := by
    rw [← hfs₂, ← hfs₁]
    cbv
  simp only [Prod.mk.injEq] at hresolve
  obtain ⟨ht, ho, hx⟩ := hresolve
  have hrun₁ : outer.run List.reverse (sample "x ?m? y\n".toList) =
      (.ok [.ofString "t/o/a.g", .ofString "t/o/b.g"], fs₁) := Prod.ext hfirst hfs₁
  have hrun₂ : inner.run id fs₁ =
      (.ok [.ofString "t/o/x/a.g", .ofString "t/o/x/b.g"], fs₂) := Prod.ext hsecond hfs₂
  have houter : outer.target = .ok (.ofString "t/o") := by cbv
  have hinner : inner.target = .ok (.ofString "t/o/x") := by cbv
  obtain ⟨fs₁', hrun₁', hrun₂'⟩ := generate_exchange List.reverse_perm List.Perm.refl
    List.reverse_perm List.Perm.refl outer inner (plain_sample _) houter hinner (by decide)
    (by decide) (by cbv) (fun hends => absurd hends (by decide)) hrun₁ hrun₂
    (apart_of_resolve ho hx (by decide)) (apart_of_resolve ho ht (by decide))
    (apart_of_resolve hx ht (by decide))
  exact ⟨fs₁, fs₂, fs₁', hrun₁, hrun₂, hrun₁', hrun₂'⟩

/-! A target that only the other call makes. -/

def besides : Request :=
  ⟨⟨.ofList [], sampleSelection⟩, .ofString "t", .ofString "o/x", .absent, ""⟩

def endsInDot : Request :=
  ⟨⟨.ofList [], sampleSelection⟩, .ofString "t", .ofString "o/.", .absent, ""⟩

theorem run_dot_first : ∃ fs₁ fs₂, (sample []).Plain ∧
    besides.target = .ok (.ofString "o/x") ∧ endsInDot.target = .ok (.ofString "o/.") ∧
    Path.up ∉ (Path.ofString "o/x").parts ∧ Path.up ∉ (Path.ofString "o/.").parts ∧
    (sample []).isDirectory endsInDot.templates = true ∧
    besides.run id (sample []) = (.ok [.ofString "o/x/a.g", .ofString "o/x/b.g"], fs₁) ∧
    endsInDot.run id fs₁ = (.ok [.ofString "o/./a.g", .ofString "o/./b.g"], fs₂) ∧
    Apart fs₂ (.ofString "o/x") (.ofString "o/.") ∧
    Apart fs₂ (.ofString "o/x") endsInDot.templates ∧
    Apart fs₂ (.ofString "o/.") besides.templates ∧
    (endsInDot.run id (sample [])).1 = .error (.file .notFound) := by
  have hfirst : (besides.run id (sample [])).1 =
      .ok [.ofString "o/x/a.g", .ofString "o/x/b.g"] := by cbv
  generalize hfs₁ : (besides.run id (sample [])).2 = fs₁
  have hsecond : (endsInDot.run id fs₁).1 = .ok [.ofString "o/./a.g", .ofString "o/./b.g"] := by
    rw [← hfs₁]
    cbv
  generalize hfs₂ : (endsInDot.run id fs₁).2 = fs₂
  have hresolve : (fs₂.resolve .visit (.ofString "t"), fs₂.resolve .visit (.ofString "o/."),
      fs₂.resolve .visit (.ofString "o/x")) =
      (.ok (.directory [named "t"]), .ok (.directory [named "o"]),
        .ok (.directory [named "x", named "o"])) := by
    rw [← hfs₂, ← hfs₁]
    cbv
  simp only [Prod.mk.injEq] at hresolve
  obtain ⟨ht, ho, hx⟩ := hresolve
  exact ⟨fs₁, fs₂, plain_sample [], by cbv, by cbv, by decide, by decide, by cbv,
    Prod.ext hfirst hfs₁, Prod.ext hsecond hfs₂, apart_of_resolve hx ho (by decide),
    apart_of_resolve hx ht (by decide), apart_of_resolve ho ht (by decide), by cbv⟩

end Generation
end InputDeck
