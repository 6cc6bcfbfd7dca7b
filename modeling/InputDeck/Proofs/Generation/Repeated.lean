/-
Passes that are made again.

After a pass that has succeeded the target is there, and so are the decks.  Where they went to the
template directory they stand in the place of their templates, and may have other lines than these,
since a matrix brings line breaks.  But they have no markers left, or there are no variables to put
anything in; so each is the template of itself.  The second pass finds the same names and writes
what is there already.  The theorem this file exists for is `generate_again`.

The directory may be listed in another order the second time.
-/
import InputDeck.Proofs.Generation.Decks
import InputDeck.Proofs.Generation.Shuffled
import InputDeck.Proofs.Template.Settling

namespace InputDeck

/-! ## Decks as templates -/

namespace Template

variable {place : Place} {line : List Char}

theorem eq_of_substituteIfMarked_absent {out : List Char}
    (h : substituteIfMarked .absent place line = .ok out) : out = line := by
  unfold substituteIfMarked at h
  split at h
  · by_cases heven : (line.splitOn marker).length % 2 = 0
    · simp [substitute_of_unbalanced _ place line heven] at h
    · rw [substitute_of_absent place line (by omega)] at h
      exact (Except.ok.inj h).symm
  · exact (Except.ok.inj h).symm

theorem eq_of_substituteLines_absent {file : String} {number : Nat} {lines outs : List (List Char)}
    (h : substituteLines .absent file number lines = .ok outs) : outs = lines := by
  induction lines generalizing number outs with
  | nil => exact (Except.ok.inj h).symm
  | cons line rest ih =>
      rw [substituteLines_cons] at h
      obtain ⟨first, hline, hrest⟩ := Result.bind_eq_ok_iff.1 h
      obtain ⟨more, hmore, rfl⟩ := Result.map_eq_ok_iff.1 hrest
      rw [eq_of_substituteIfMarked_absent hline, ih hmore]

end Template

namespace Deck

/-- A deck made into a template gives its own contents again, with variables or without. -/
theorem ofTemplate_contents {vars : Variables} {path : Path} {text : List Char} {deck : Deck}
    (h : ofTemplate vars path text = .ok deck) :
    ∃ again, ofTemplate vars path deck.contents = .ok again ∧ again.contents = deck.contents := by
  by_cases hvars : vars = .absent
  · subst hvars
    have hsame : deck.contents = text := by
      rw [ofTemplate_eq] at h
      obtain ⟨outs, hlines, rfl⟩ := Result.map_eq_ok_iff.1 h
      obtain rfl := Template.eq_of_substituteLines_absent hlines
      exact Template.flatten_lines text
    exact ⟨deck, hsame.symm ▸ h, rfl⟩
  · exact contents_of_unmarked vars path (marker_not_mem_contents hvars h)

end Deck

/-! ## Nodes put where they are -/

namespace FileSystem

theorem insert_eq_self {fs : FileSystem} {name : FileName} {dir : Location} {node : Node}
    (h : fs.node? (name :: dir) = some node) : fs.insert (name :: dir) node = fs := by
  have hnodes : fs.nodes.insert (name :: dir) node = fs.nodes := by
    apply Table.ext
    intro location
    by_cases he : location = name :: dir
    · rw [he, Table.get?_insert_self]
      exact h.symm
    · rw [Table.get?_insert_ne he]
  rw [insert, hnodes]

end FileSystem

namespace Generation

open FileSystem (pathLimit)

variable {fs fs' made : FileSystem} {templates target : Path} {vars : Variables}
  {selection : Selection} {source dir : Location}

theorem place_eq_self {decks : List (FileName × List Char)}
    (h : ∀ deck ∈ decks, fs.node? (deck.1 :: dir) = some (deckNode deck.2)) :
    place dir decks fs = fs := by
  induction decks with
  | nil => rfl
  | cons deck rest ih =>
      rw [place, FileSystem.insert_eq_self (h deck List.mem_cons_self)]
      exact ih fun d hd => h d (List.mem_cons_of_mem _ hd)

/-! ## What a deck comes to -/

theorem outcome_eq_ok_iff {n : FileName} {text : List Char} :
    outcome templates target vars fs n = .ok text ↔
      ∃ deck, fs.deck vars (templates.join ⟨n⟩) = .ok deck ∧ deck.contents = text ∧
        (target.join ⟨n⟩).bytes.length ≤ pathLimit ∧
        fs.isDirectory (target.join ⟨n⟩) = false := by
  unfold outcome
  cases fs.deck vars (templates.join ⟨n⟩) with
  | error fault => simp
  | ok deck =>
      dsimp only
      by_cases hlength : pathLimit < (target.join ⟨n⟩).bytes.length
      · simp [hlength]
      · have hle := Nat.le_of_not_lt hlength
        rw [if_neg hlength]
        cases fs.isDirectory (target.join ⟨n⟩) <;> simp [hle]

/-- A template comes to the same once its deck is there, be that in its own place or not. -/
theorem outcome_again (hready : Ready templates target made source dir)
    (hready' : Ready templates target fs' source dir) {n : FileName} (hn : IsName n)
    (hlength : (templates.join ⟨n⟩).bytes.length ≤ pathLimit) {text : List Char}
    (hoc : outcome templates target vars made n = .ok text)
    (hdeck : fs'.node? (n :: dir) = some (deckNode text))
    (hother : source ≠ dir → fs'.node? (n :: source) = made.node? (n :: source)) :
    outcome templates target vars fs' n = .ok text := by
  obtain ⟨deck, hmade, rfl, htarget, -⟩ := outcome_eq_ok_iff.1 hoc
  have hfile : fs'.isDirectory (target.join ⟨n⟩) = false := by
    rw [← Bool.not_eq_true, FileSystem.isDirectory_join hready'.plain hready'.opens_target hn,
      hdeck]
    simp [deckNode]
  rw [outcome_eq_ok_iff]
  by_cases hplace : source = dir
  · subst hplace
    have htext : fs'.text (templates.join ⟨n⟩) = .ok deck.contents :=
      FileSystem.text_of_read (FileSystem.read_join hready'.plain hready'.opens_source hn hlength
        hdeck)
    obtain ⟨text, -, hof⟩ := Result.bind_eq_ok_iff.1 hmade
    obtain ⟨again, hagain, hcontents⟩ := Deck.ofTemplate_contents hof
    refine ⟨again, ?_, hcontents, htarget, hfile⟩
    rw [FileSystem.deck, htext]
    exact hagain
  · have hread : fs'.deck vars (templates.join ⟨n⟩) = made.deck vars (templates.join ⟨n⟩) :=
      deck_congr hready hready' hn (hother hplace)
    exact ⟨deck, hread.trans hmade, rfl, htarget, hfile⟩

/-! ## The second pass -/

theorem DiffersAt.exists_file_iff {names : List FileName} (h : DiffersAt target dir names fs fs')
    {location : Location} (hother : ∀ n ∈ names, location ≠ n :: dir) :
    (∃ contents, fs'.node? location = some (.file contents)) ↔
      ∃ contents, fs.node? location = some (.file contents) := by
  rcases h.node? location hother with hsame | ⟨hnone, hdirectory, -⟩
  · rw [hsame]
  · simp [hnone, hdirectory]

/-- Decks of templates are files where files were, or stand elsewhere. -/
theorem Lists.after {names : List FileName} (h : Lists fs templates source selection names)
    (hdiffers : DiffersAt target dir names fs fs')
    (hdecks : ∀ n ∈ names, ∃ contents, fs'.node? (n :: dir) = some (.file contents)) :
    Lists fs' templates source selection names where
  increasing := h.increasing
  mem_iff := by
    intro n
    rw [h.mem_iff]
    by_cases hplace : n ∈ names ∧ source = dir
    · obtain ⟨hn, rfl⟩ := hplace
      have hfile := ((h.mem_iff n).1 hn).1
      simp [hfile, hdecks n hn]
    · rw [hdiffers.exists_file_iff]
      intro n' hn' he
      obtain ⟨rfl, hdirs⟩ := List.cons.inj he
      exact hplace ⟨hn', hdirs⟩

/-- The second pass writes the same decks, since the first has left names and outcomes alike. -/
theorem passes_again (hp : fs.Plain) {paths : List Path} {result : Except Fault (List Path)}
    {fs'' : FileSystem} (h : Passes fs templates target vars selection (.ok paths) fs')
    (h' : Passes fs' templates target vars selection result fs'') :
    result = .ok paths ∧ fs'' = fs' := by
  obtain ⟨listing, made, hnames, hmake⟩ := h.made_of_ok
  obtain ⟨hmade, source, dir, names, hr, hready, hlists, hresult, hstate⟩ :=
    h.eq_of_made hp hnames hmake
  generalize hdecks : (upToFault (outcome templates target vars made) names).1 = decks at hstate
  cases hend : (upToFault (outcome templates target vars made) names).2 with
  | some fault => simp [hend] at hresult
  | none =>
  have hall : decks.map Prod.fst = names := hdecks ▸ upToFault_none hend
  have hnodup : (decks.map Prod.fst).Nodup := hall ▸ hlists.nodup
  have hthere : ∀ deck ∈ decks, fs'.node? (deck.1 :: dir) = some (deckNode deck.2) := by
    intro deck hdeck
    rw [hstate]
    exact node?_place_of_mem hnodup hdeck
  have hdiffers := differsAt_place hp hmade hready hlists hdecks
  have hready' := ready_place_decks hp hready hlists hdecks
  rw [← hstate] at hdiffers hready'
  -- The target is there now, and the template directory still is.
  have hmake' := FileSystem.run_makeDirectories_of_opens hready'.plain hready'.opens_target
  have hkeeps : made.Keeps fs' := hstate ▸
    keeps_place fun n hn => (free_of_mem_decks hp hready hlists hdecks hn).2
  have hr' := FileSystem.resolve_of_keeps hp hready'.plain (hmade.keeps.trans hkeeps) hr
  have hnames' : fs'.names templates = .ok (fs'.children source) := by
    unfold FileSystem.names
    rw [hr']
  obtain ⟨-, source', dir', names', hsource, hready'', hlists', hresult', hstate'⟩ :=
    h'.eq_of_made hready'.plain hnames' hmake'
  have ho' := FileSystem.opens_of_resolve hr'
  obtain rfl : source' = source := ho'.eq (FileSystem.opens_of_resolve hsource)
  obtain rfl : dir' = dir := hready'.opens_target.eq hready''.opens_target
  obtain rfl : names' = names := by
    rw [hall] at hdiffers
    have hagain := hlists.after hdiffers fun n hn => by
      obtain ⟨text, hmem, -⟩ := exists_text_of_mem_decks hdecks (hall ▸ hn)
      exact ⟨_, hthere _ hmem⟩
    refine hagain.eq_of_mem_iff hlists' ?_
    intro n
    rw [hlists'.mem_iff, hagain.mem_iff]
  have hagain : upToFault (outcome templates target vars fs') names' =
      upToFault (outcome templates target vars made) names' := by
    apply upToFault_congr
    intro n hn
    obtain ⟨text, hmem, hoc⟩ := exists_text_of_mem_decks hdecks (hall ▸ hn)
    rw [hoc]
    refine outcome_again hready hready' (hlists.isName hp n hn) ((hlists.mem_iff n).1 hn).2.2 hoc
      (hthere _ hmem) ?_
    intro hne
    rw [hstate]
    exact node?_place_of_ne fun n' _ he => hne (List.cons.inj he).2
  rw [hagain, hend] at hresult'
  rw [hagain, hdecks, place_eq_self hthere] at hstate'
  rw [hend] at hresult
  exact ⟨hresult'.trans hresult.symm, hstate'⟩

/-- A generator that has succeeded does so again, tells the same paths and changes nothing. -/
theorem generate_again {shuffle shuffle' : List FileName → List FileName}
    (order : ∀ names, (shuffle names).Perm names) (order' : ∀ names, (shuffle' names).Perm names)
    (g : Generator) (templates base : Path) (vars : Variables) (type : String) (hp : fs.Plain)
    {paths : List Path}
    (h : Job.on (Shuffled.toJob shuffle (g.generate templates base vars type)) fs =
      (.ok paths, fs')) :
    Job.on (Shuffled.toJob shuffle' (g.generate templates base vars type)) fs' =
      (.ok paths, fs') := by
  rcases Shuffled.generate_cases shuffle order g templates base vars type fs with
    ⟨fault, -, hrun⟩ | ⟨target, htarget, hpasses⟩
  · simp [hrun] at h
  rcases Shuffled.generate_cases shuffle' order' g templates base vars type fs' with
    ⟨fault, htarget', -⟩ | ⟨target', htarget', hpasses'⟩
  · simp [htarget] at htarget'
  rw [htarget] at htarget'
  obtain rfl := Except.ok.inj htarget'
  rw [h] at hpasses
  obtain ⟨hresult, hstate⟩ := passes_again hp hpasses hpasses'
  exact Prod.ext hresult hstate

/-- Decks with more lines than their templates, written in the place of these. -/
theorem generate_again_in_place : ∃ fs',
    Job.on (Shuffled.toJob List.reverse (Generator.generate ⟨.ofList [], sampleSelection⟩
      (.ofString "t") (.ofString "t") Template.gridVariables "")) (sample "x ?m? y\n".toList) =
        (.ok [.ofString "t/a.g", .ofString "t/b.g"], fs') ∧
    fs'.text (.ofString "t/b.g") = .ok "x 1 2\n3 4 y\n".toList ∧
    Job.on (Shuffled.toJob id (Generator.generate ⟨.ofList [], sampleSelection⟩
      (.ofString "t") (.ofString "t") Template.gridVariables "")) fs' =
        (.ok [.ofString "t/a.g", .ofString "t/b.g"], fs') := by
  have hrun : (Job.on (Shuffled.toJob List.reverse (Generator.generate
      ⟨.ofList [], sampleSelection⟩ (.ofString "t") (.ofString "t") Template.gridVariables ""))
        (sample "x ?m? y\n".toList)).1 = .ok [.ofString "t/a.g", .ofString "t/b.g"] := by cbv
  refine ⟨_, Prod.ext hrun rfl, by cbv, ?_⟩
  exact generate_again List.reverse_perm List.Perm.refl _ _ _ _ _ (plain_sample _)
    (Prod.ext hrun rfl)

end Generation
end InputDeck
