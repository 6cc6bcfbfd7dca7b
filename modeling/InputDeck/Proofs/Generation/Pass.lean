/-
A pass over templates, seen from the state it starts in.

`writeEach` reads each template when the decks of those before it are already written, into the
same directory perhaps.  `upToFault` asks all of them in the state the pass starts in: it lists the
names before the first fault with the texts of their decks, and `place` puts these into the
directory.  The theorem this file exists for is `on_writeEach`, which says that the pass does
nothing else.

What carries it is that a template and the destination of its deck have the same name.  So the
deck of one name stands neither where the template nor where the destination of another name is,
also if templates and decks share a directory, and what another template comes to is the same
before and after it is written (`outcome_insert`).
-/
import InputDeck.Proofs.Generation.Jobs

namespace InputDeck
namespace Generation

open FileSystem (pathLimit)

/-! ## Decks in a directory -/

def deckNode (text : List Char) : Node := .file (.bytes (String.ofList text).toUTF8)

/-- The file system with decks of the given names and texts in a directory. -/
def place (dir : Location) : List (FileName × List Char) → FileSystem → FileSystem
  | [], fs => fs
  | deck :: rest, fs => place dir rest (fs.insert (deck.1 :: dir) (deckNode deck.2))

variable {fs fs' : FileSystem} {dir : Location}

theorem node?_place_of_ne {location : Location} {decks : List (FileName × List Char)}
    (h : ∀ n ∈ decks.map Prod.fst, location ≠ n :: dir) :
    (place dir decks fs).node? location = fs.node? location := by
  induction decks generalizing fs with
  | nil => rfl
  | cons deck rest ih =>
      have hrest : ∀ n ∈ rest.map Prod.fst, location ≠ n :: dir := fun n hn =>
        h n (List.mem_cons_of_mem _ hn)
      rw [place, ih hrest]
      exact FileSystem.node?_insert_ne (h deck.1 List.mem_cons_self) _

theorem node?_place_of_mem {decks : List (FileName × List Char)}
    (hnodup : (decks.map Prod.fst).Nodup) {n : FileName} {text : List Char}
    (h : (n, text) ∈ decks) : (place dir decks fs).node? (n :: dir) = some (deckNode text) := by
  induction decks generalizing fs with
  | nil => simp at h
  | cons deck rest ih =>
      obtain ⟨hfirst, hrest⟩ := List.nodup_cons.1 hnodup
      rw [place]
      rcases List.mem_cons.1 h with rfl | h
      · rw [node?_place_of_ne, FileSystem.node?_insert_self]
        intro n' hn' he
        exact hfirst ((List.cons.inj he).1 ▸ hn')
      · exact ih hrest h

theorem workingDirectory_place (decks : List (FileName × List Char)) :
    (place dir decks fs).workingDirectory = fs.workingDirectory := by
  induction decks generalizing fs with
  | nil => rfl
  | cons deck rest ih => rw [place, ih, FileSystem.workingDirectory_insert]

theorem keeps_place {decks : List (FileName × List Char)}
    (hfree : ∀ n ∈ decks.map Prod.fst, fs.node? (n :: dir) ≠ some .directory) :
    fs.Keeps (place dir decks fs) where
  workingDirectory_eq := workingDirectory_place decks
  directory hdirectory := by
    rw [node?_place_of_ne, hdirectory]
    intro n hn he
    exact hfree n hn (he ▸ hdirectory)

/-! ## What a template comes to -/

section Outcome

variable (templates target : Path) (vars : Variables)

/-- The text of the deck made from the template of the given name, or the fault at which a pass
ends. -/
def outcome (fs : FileSystem) (n : FileName) : Except Fault (List Char) :=
  match fs.deck vars (templates.join ⟨n⟩) with
  | .error fault => .error fault
  | .ok deck =>
      if pathLimit < (target.join ⟨n⟩).bytes.length then .error (.file .nameTooLong)
      else if fs.isDirectory (target.join ⟨n⟩) then .error (.file .isADirectory)
      else .ok deck.contents

/-- That templates stand in one directory and decks are to stand in another, or in the same. -/
structure Ready (fs : FileSystem) (source dir : Location) : Prop where
  plain : fs.Plain
  opens_source : fs.Opens templates source
  opens_target : fs.Opens target dir

variable {templates target vars} {source : Location} {n n' : FileName}

theorem Ready.insert (h : Ready templates target fs source dir) (hn : IsName n)
    (hfree : fs.node? (n :: dir) ≠ some .directory) (text : List Char) :
    Ready templates target (fs.insert (n :: dir) (deckNode text)) source dir := by
  have hkeeps : fs.Keeps (fs.insert (n :: dir) (deckNode text)) := FileSystem.keeps_insert hfree
  have hdir := (h.opens_target.leads h.plain).2.end_directory
  have hplain : (fs.insert (n :: dir) (deckNode text)).Plain :=
    h.plain.insert hn hdir hfree (by simp [deckNode])
  exact ⟨hplain, h.opens_source.keeps h.plain hplain hkeeps,
    h.opens_target.keeps h.plain hplain hkeeps⟩

theorem deck_congr (h : Ready templates target fs source dir)
    (h' : Ready templates target fs' source dir) (hn : IsName n)
    (hsource : fs'.node? (n :: source) = fs.node? (n :: source)) :
    fs'.deck vars (templates.join ⟨n⟩) = fs.deck vars (templates.join ⟨n⟩) := by
  unfold FileSystem.deck FileSystem.text FileSystem.read
  rw [FileSystem.resolve_join_congr h.plain h'.plain h.opens_source h'.opens_source hn hsource]

theorem outcome_congr (h : Ready templates target fs source dir)
    (h' : Ready templates target fs' source dir) (hn : IsName n)
    (hsource : fs'.node? (n :: source) = fs.node? (n :: source))
    (hdir : fs'.node? (n :: dir) = fs.node? (n :: dir)) :
    outcome templates target vars fs' n = outcome templates target vars fs n := by
  have hisDirectory : fs'.isDirectory (target.join ⟨n⟩) = fs.isDirectory (target.join ⟨n⟩) := by
    unfold FileSystem.isDirectory
    rw [FileSystem.resolve_join_congr h.plain h'.plain h.opens_target h'.opens_target hn hdir]
  unfold outcome
  rw [deck_congr h h' hn hsource, hisDirectory]

theorem outcome_insert (h : Ready templates target fs source dir) (hn : IsName n)
    (hn' : IsName n') (hne : n' ≠ n) (hfree : fs.node? (n :: dir) ≠ some .directory)
    (text : List Char) :
    outcome templates target vars (fs.insert (n :: dir) (deckNode text)) n' =
      outcome templates target vars fs n' := by
  have hother : ∀ location, n' :: location ≠ n :: dir := fun _ he => hne (List.cons.inj he).1
  exact outcome_congr h (h.insert hn hfree text) hn'
    (FileSystem.node?_insert_ne (hother source) _) (FileSystem.node?_insert_ne (hother dir) _)

theorem on_write_template (h : Ready templates target fs source dir) (hn : IsName n) :
    Job.on (Deck.write vars target (templates.join ⟨n⟩)) fs =
      match outcome templates target vars fs n with
      | .error fault => (.error fault, fs)
      | .ok text => (.ok (target.join ⟨n⟩), fs.insert (n :: dir) (deckNode text)) := by
  rw [Deck.on_write]
  unfold outcome
  cases hdeck : fs.deck vars (templates.join ⟨n⟩) with
  | error fault => rfl
  | ok deck =>
      have hname := Deck.fileName_deck vars (Path.fileName_join hn templates) hdeck
      dsimp only
      rw [hname, FileSystem.write_join h.plain h.opens_target hn]
      by_cases hlength : pathLimit < (target.join ⟨n⟩).bytes.length
      · rw [if_pos hlength, if_pos hlength]
      · rw [if_neg hlength, if_neg hlength]
        by_cases hdirectory : fs.isDirectory (target.join ⟨n⟩) = true
        · rw [if_pos hdirectory, if_pos hdirectory]
        · rw [if_neg hdirectory, if_neg hdirectory]
          rfl

theorem free_of_outcome (h : Ready templates target fs source dir) (hn : IsName n)
    {text : List Char} (hok : outcome templates target vars fs n = .ok text) :
    fs.node? (n :: dir) ≠ some .directory := by
  unfold outcome at hok
  split at hok
  · simp at hok
  · split at hok
    · simp at hok
    · rename_i hlength
      split at hok
      · simp at hok
      · rename_i hnot
        intro hdirectory
        exact hnot ((FileSystem.isDirectory_join h.plain h.opens_target hn).2
          ⟨Nat.le_of_not_lt hlength, hdirectory⟩)

end Outcome

/-! ## The pass -/

/-- The names before the first that fails, with what the others come to, and the fault of that
one. -/
def upToFault (outcome : FileName → Except Fault (List Char)) :
    List FileName → List (FileName × List Char) × Option Fault
  | [] => ([], none)
  | n :: rest =>
      match outcome n with
      | .error fault => ([], some fault)
      | .ok text => ((n, text) :: (upToFault outcome rest).1, (upToFault outcome rest).2)

theorem upToFault_congr {f g : FileName → Except Fault (List Char)} {names : List FileName}
    (h : ∀ n ∈ names, f n = g n) : upToFault f names = upToFault g names := by
  induction names with
  | nil => rfl
  | cons n rest ih =>
      rw [upToFault, upToFault, h n List.mem_cons_self,
        ih fun n' hn' => h n' (List.mem_cons_of_mem _ hn')]

theorem outcome_of_mem_upToFault {f : FileName → Except Fault (List Char)} {names : List FileName}
    {n : FileName} {text : List Char} (h : (n, text) ∈ (upToFault f names).1) :
    f n = .ok text := by
  induction names with
  | nil => simp [upToFault] at h
  | cons first rest ih =>
      rw [upToFault] at h
      cases hfirst : f first with
      | error fault => simp [hfirst] at h
      | ok firstText =>
          rw [hfirst] at h
          rcases List.mem_cons.1 h with he | h
          · obtain ⟨rfl, rfl⟩ := Prod.mk.inj he
            exact hfirst
          · exact ih h

theorem names_upToFault (f : FileName → Except Fault (List Char)) (names : List FileName) :
    (upToFault f names).1.map Prod.fst <+: names := by
  induction names with
  | nil => exact List.nil_prefix
  | cons n rest ih =>
      rw [upToFault]
      cases f n with
      | error fault => exact List.nil_prefix
      | ok text => exact List.cons_prefix_cons.2 ⟨rfl, ih⟩

theorem upToFault_none {f : FileName → Except Fault (List Char)} {names : List FileName}
    (h : (upToFault f names).2 = none) : (upToFault f names).1.map Prod.fst = names := by
  induction names with
  | nil => rfl
  | cons n rest ih =>
      rw [upToFault] at h ⊢
      cases hn : f n with
      | error fault => simp [hn] at h
      | ok text =>
          rw [hn] at h
          rw [List.map_cons, ih h]

theorem upToFault_some {f : FileName → Except Fault (List Char)} {names : List FileName}
    {fault : Fault} (h : (upToFault f names).2 = some fault) :
    ∃ k after, names = (upToFault f names).1.map Prod.fst ++ k :: after ∧ f k = .error fault := by
  induction names with
  | nil => simp [upToFault] at h
  | cons n rest ih =>
      rw [upToFault] at h ⊢
      cases hn : f n with
      | error other =>
          rw [hn] at h
          exact ⟨n, rest, rfl, Option.some.inj h ▸ hn⟩
      | ok text =>
          rw [hn] at h
          obtain ⟨k, after, hrest, hk⟩ := ih h
          refine ⟨k, after, ?_, hk⟩
          rw [List.map_cons, List.cons_append, ← hrest]

/-- By induction on the names.  The state changes from name to name, but not what the names still
to come amount to in it. -/
theorem on_writeEach {templates target : Path} {vars : Variables} {source : Location}
    {names : List FileName} (hnames : ∀ n ∈ names, IsName n) (hnodup : names.Nodup)
    (h : Ready templates target fs source dir) :
    Job.on (Deck.writeEach vars target (names.map fun n => templates.join ⟨n⟩)) fs =
      (match (upToFault (outcome templates target vars fs) names).2 with
        | none => .ok (names.map fun n => target.join ⟨n⟩)
        | some fault => .error fault,
      place dir (upToFault (outcome templates target vars fs) names).1 fs) := by
  induction names generalizing fs with
  | nil => rfl
  | cons n rest ih =>
      obtain ⟨hfirst, hrest⟩ := List.nodup_cons.1 hnodup
      have hn := hnames n List.mem_cons_self
      rw [List.map_cons, Deck.writeEach, Job.on_bind, on_write_template h hn, upToFault]
      cases hoc : outcome templates target vars fs n with
      | error fault => rfl
      | ok text =>
          have hfree := free_of_outcome h hn hoc
          have hsame : upToFault (outcome templates target vars
              (fs.insert (n :: dir) (deckNode text))) rest =
                upToFault (outcome templates target vars fs) rest := by
            apply upToFault_congr
            intro n' hn'
            have hne : n' ≠ n := fun e => hfirst (e ▸ hn')
            exact outcome_insert h hn (hnames n' (List.mem_cons_of_mem _ hn')) hne hfree text
          dsimp only
          rw [Job.on_bind, ih (fun n' hn' => hnames n' (List.mem_cons_of_mem _ hn')) hrest
            (h.insert hn hfree text), hsame]
          cases (upToFault (outcome templates target vars fs) rest).2 <;> rfl

theorem ready_place {templates target : Path} {source : Location}
    {decks : List (FileName × List Char)} (h : Ready templates target fs source dir)
    (hdecks : ∀ n ∈ decks.map Prod.fst, IsName n ∧ fs.node? (n :: dir) ≠ some .directory) :
    Ready templates target (place dir decks fs) source dir := by
  induction decks generalizing fs with
  | nil => exact h
  | cons deck rest ih =>
      obtain ⟨hn, hfree⟩ := hdecks deck.1 List.mem_cons_self
      refine ih (h.insert hn hfree deck.2) ?_
      intro n hmem
      obtain ⟨hn', hfree'⟩ := hdecks n (List.mem_cons_of_mem _ hmem)
      refine ⟨hn', ?_⟩
      by_cases he : n = deck.1
      · rw [he, FileSystem.node?_insert_self]
        simp [deckNode]
      · rw [FileSystem.node?_insert_ne fun h => he (List.cons.inj h).1]
        exact hfree'

end Generation
end InputDeck
