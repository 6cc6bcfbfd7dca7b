/-
What a pass over templates depends on.

Of the files in the template directory a pass looks at those that the selection admits, and of the
variables at those that a token of such a template names.  Two runs that agree there are parallel:
they come to the same result and make the same changes, whatever else differs between their file
systems (`AlikeBut`) and their sources.  The theorem this file exists for is `parallel_generate`.

The decks may go to the template directory itself.  What the runs put there is the same, and it
stands at admitted names only, so the files that differ are never written either.
-/
import InputDeck.Proofs.FileSystem.Shape
import InputDeck.Proofs.Generation.Decks
import InputDeck.Proofs.Generation.Shuffled
import InputDeck.Proofs.Template.Tokens

namespace InputDeck
namespace Generation

open FileSystem (SameShape Parallel Made)

variable {fs fs' made made' : FileSystem} {templates target : Path} {selection : Selection}
  {values values' : Table String Value}

/-! ## What may differ -/

/-- That two file systems differ at most in what those files of the template directory hold that
the selection does not admit. -/
structure AlikeBut (templates : Path) (selection : Selection) (fs fs' : FileSystem) : Prop where
  workingDirectory_eq : fs'.workingDirectory = fs.workingDirectory
  node? : ∀ location, fs'.node? location = fs.node? location ∨ ∃ n source contents contents',
    location = n :: source ∧ fs.resolve .visit templates = .ok (.directory source) ∧
      selection.admits (templates.join ⟨n⟩) = false ∧
      fs.node? location = some (.file contents) ∧ fs'.node? location = some (.file contents')

/-- That a key stands as a token in a line of a template. -/
def IsKey (fs : FileSystem) (templates : Path) (selection : Selection) (key : String) : Prop :=
  ∃ names n text line token, fs.names templates = .ok names ∧ n ∈ names ∧
    selection.admits (templates.join ⟨n⟩) = true ∧ fs.text (templates.join ⟨n⟩) = .ok text ∧
    line ∈ Template.lines text ∧ token ∈ Template.tokens line ∧ String.ofList token = key

theorem IsKey.marker_not_mem {key : String} (h : IsKey fs templates selection key) :
    Template.marker ∉ key.toList := by
  obtain ⟨-, -, -, line, token, -, -, -, -, -, htoken, rfl⟩ := h
  rw [String.toList_ofList]
  exact Template.marker_not_mem_of_mem_tokens htoken

theorem AlikeBut.sameShape (h : AlikeBut templates selection fs fs') : SameShape fs fs' where
  workingDirectory_eq := h.workingDirectory_eq
  node? location := (h.node? location).imp id
    fun ⟨_, _, contents, contents', _, _, _, hfile, hfile'⟩ => ⟨contents, contents', hfile, hfile'⟩

/-- What stands at an admitted name is the same in both, in whatever directory. -/
theorem AlikeBut.node?_eq (h : AlikeBut templates selection fs fs') {n : FileName} (hn : IsName n)
    (hadmits : selection.admits ⟨n⟩ = true) (dir : Location) :
    fs'.node? (n :: dir) = fs.node? (n :: dir) := by
  rcases h.node? (n :: dir) with heq | ⟨n', source, contents, contents', he, -, hnot, -, -⟩
  · exact heq
  · obtain ⟨rfl, -⟩ := List.cons.inj he
    rw [Path.admits_join hn, hadmits] at hnot
    simp at hnot

theorem AlikeBut.lists_iff (h : AlikeBut templates selection fs fs') {source : Location}
    {names names' : List FileName} (hlists : Lists fs templates source selection names)
    (hlists' : Lists fs' templates source selection names') : names' = names := by
  refine hlists.eq_of_mem_iff hlists' ?_
  intro n
  rw [hlists.mem_iff, hlists'.mem_iff, h.sameShape.exists_file_iff]

/-! ## What the templates come to -/

theorem deck_named_congr {template : Path}
    (hsame : ∀ text, fs.text template = .ok text → ∀ line ∈ Template.lines text,
      ∀ token ∈ Template.tokens line,
        values.get? (String.ofList token) = values'.get? (String.ofList token)) :
    fs.deck (.named values) template = fs.deck (.named values') template := by
  unfold FileSystem.deck
  cases htext : fs.text template with
  | error fault => rfl
  | ok text =>
      show Deck.ofTemplate (.named values) template text =
        Deck.ofTemplate (.named values') template text
      rw [Deck.ofTemplate_eq, Deck.ofTemplate_eq,
        Template.substituteLines_named_congr (hsame text htext)]

theorem outcome_named_congr {source : Location} {names : List FileName} (hp : fs.Plain)
    (hmade : Made (target :: target.ancestors) fs made) (ho : fs.Opens templates source)
    (hlists : Lists fs templates source selection names)
    (hnames : fs.names templates = .ok (fs.children source))
    (hkeys : ∀ key, IsKey fs templates selection key → values'.get? key = values.get? key)
    {n : FileName} (hmem : n ∈ names) :
    outcome templates target (.named values') made n =
      outcome templates target (.named values) made n := by
  obtain ⟨⟨contents, hnode⟩, hadmits, -⟩ := (hlists.mem_iff n).1 hmem
  rw [← Path.admits_join (hp.isName hnode) selection templates] at hadmits
  have hdeck : fs.deck (.named values') (templates.join ⟨n⟩) =
      fs.deck (.named values) (templates.join ⟨n⟩) := by
    refine deck_named_congr fun text htext line hline token htoken => ?_
    exact hkeys _ ⟨_, n, text, line, token, hnames, FileSystem.mem_children.2 ⟨_, hnode⟩, hadmits,
      htext, hline, htoken, rfl⟩
  unfold outcome
  rw [deck_made hp hmade ho hlists hmem, deck_made hp hmade ho hlists hmem, hdeck]

theorem place_eq_putAll (dir : Location) (decks : List (FileName × List Char)) (fs : FileSystem) :
    place dir decks fs =
      FileSystem.putAll (decks.map fun deck => (deck.1 :: dir, deckNode deck.2)) fs := by
  induction decks generalizing fs with
  | nil => rfl
  | cons deck rest ih => exact ih _

theorem parallel_place {α : Type} {dir : Location} {decks : List (FileName × List Char)}
    (hsame : ∀ n ∈ decks.map Prod.fst, fs'.node? (n :: dir) = fs.node? (n :: dir)) (result : α) :
    Parallel fs fs' (result, place dir decks fs) (result, place dir decks fs') := by
  refine ⟨rfl, _, place_eq_putAll dir decks fs, place_eq_putAll dir decks fs', ?_⟩
  intro change hchange
  obtain ⟨deck, hdeck, rfl⟩ := List.mem_map.1 hchange
  exact hsame deck.1 (List.mem_map_of_mem hdeck)

/-! ## Two runs -/

/-- Both passes make the target alike, find the same templates and write the same decks. -/
theorem parallel_passes (hp : fs.Plain) (halike : AlikeBut templates selection fs fs')
    (hkeys : ∀ key, IsKey fs templates selection key → values'.get? key = values.get? key)
    {result result' : Except Fault (List Path)} {left left' : FileSystem}
    (h : Passes fs templates target (.named values) selection result left)
    (h' : Passes fs' templates target (.named values') selection result' left') :
    Parallel fs fs' (result, left) (result', left') := by
  have hshape := halike.sameShape
  have hp' := hshape.plain hp
  rcases hshape.names_cases templates with
    ⟨refusal, hnames, hnames'⟩ | ⟨source, hr, hnames, hnames'⟩
  · obtain ⟨rfl, rfl⟩ := h.eq_of_unlisted hnames
    obtain ⟨rfl, rfl⟩ := h'.eq_of_unlisted hnames'
    exact FileSystem.parallel_unchanged _ _ _
  have hmakes := FileSystem.parallel_makeDirectories hshape target
  have hmadeShape := Parallel.sameShape hshape hmakes
  cases hmake : (FileStore.makeDirectories target : StateM FileSystem _).run fs with
  | mk done made =>
  cases hmake' : (FileStore.makeDirectories target : StateM FileSystem _).run fs' with
  | mk done' made' =>
  rw [hmake, hmake'] at hmakes hmadeShape
  obtain rfl : done' = done := hmakes.result_eq
  cases done' with
  | error refusal =>
      obtain ⟨rfl, rfl⟩ := h.eq_of_unmade hnames hmake
      obtain ⟨rfl, rfl⟩ := h'.eq_of_unmade hnames' hmake'
      exact hmakes.trans (FileSystem.parallel_unchanged _ _ _)
  | ok done =>
      obtain ⟨hmade, source₁, dir, names, hr₁, hready, hlists, hresult, hstate⟩ :=
        h.eq_of_made hp hnames hmake
      obtain ⟨hmade', source₂, dir', names', hr₂, hready', hlists', hresult', hstate'⟩ :=
        h'.eq_of_made hp' hnames' hmake'
      have ho := FileSystem.opens_of_resolve hr
      obtain rfl : source₁ = source := ho.eq (FileSystem.opens_of_resolve hr₁)
      obtain rfl : source₂ = source₁ :=
        (hshape.opens ho).eq (FileSystem.opens_of_resolve hr₂)
      obtain rfl : dir' = dir := (hmadeShape.opens hready.opens_target).eq hready'.opens_target
      obtain rfl : names' = names := halike.lists_iff hlists hlists'
      have hadmitted : ∀ n ∈ names', ∀ location,
          made'.node? (n :: location) = made.node? (n :: location) := by
        intro n hn location
        exact hmakes.node?_eq (halike.node?_eq (hlists.isName hp n hn)
          ((hlists.mem_iff n).1 hn).2.1 location)
      have houtcome : upToFault (outcome templates target (.named values') made') names' =
          upToFault (outcome templates target (.named values) made) names' := by
        apply upToFault_congr
        intro n hn
        rw [outcome_congr hready hready' (hlists.isName hp n hn) (hadmitted n hn _)
          (hadmitted n hn _)]
        exact outcome_named_congr hp hmade ho hlists hnames hkeys hn
      rw [houtcome] at hresult' hstate'
      rw [hresult, hresult', hstate, hstate']
      refine hmakes.trans (parallel_place ?_ _)
      intro n hn
      exact hadmitted n ((names_upToFault _ names').subset hn) dir'

/-- A run of a generator depends on the templates it admits and on the variables that they name. -/
theorem parallel_generate {shuffle shuffle' : List FileName → List FileName}
    (order : ∀ names, (shuffle names).Perm names) (order' : ∀ names, (shuffle' names).Perm names)
    (g : Generator) (templates base : Path) (type : String) (hp : fs.Plain)
    (halike : AlikeBut templates g.selection fs fs')
    (hkeys : ∀ key, IsKey fs templates g.selection key → values'.get? key = values.get? key) :
    Parallel fs fs'
      (Job.on (Shuffled.toJob shuffle (g.generate templates base (.named values) type)) fs)
      (Job.on (Shuffled.toJob shuffle' (g.generate templates base (.named values') type)) fs') := by
  rcases Shuffled.generate_cases shuffle order g templates base (.named values) type fs with
    ⟨fault, htarget, hrun⟩ | ⟨target, htarget, hpasses⟩
  · rcases Shuffled.generate_cases shuffle' order' g templates base (.named values') type fs' with
      ⟨fault', htarget', hrun'⟩ | ⟨target', htarget', -⟩
    · rw [htarget] at htarget'
      obtain rfl := Except.error.inj htarget'
      rw [hrun, hrun']
      exact FileSystem.parallel_unchanged fs fs' _
    · simp [htarget] at htarget'
  · rcases Shuffled.generate_cases shuffle' order' g templates base (.named values') type fs' with
      ⟨fault', htarget', -⟩ | ⟨target', htarget', hpasses'⟩
    · simp [htarget] at htarget'
    · rw [htarget] at htarget'
      obtain rfl := Except.ok.inj htarget'
      exact parallel_passes hp halike hkeys hpasses hpasses'

/-! Notes that are not UTF-8 beside two templates, and variables that no template asks for. -/

def withNotes (contents : Contents) : FileSystem :=
  (sample "x ?k?\n".toList).insert [named "c.md", named "t"] (.file contents)

theorem plain_withNotes (contents : Contents) : (withNotes contents).Plain := by
  have hc : IsName (named "c.md") := by constructor <;> decide
  exact (plain_sample _).insert_free hc rfl rfl (by simp)

theorem alikeBut_withNotes (contents contents' : Contents) :
    AlikeBut (.ofString "t") sampleSelection (withNotes contents) (withNotes contents') where
  workingDirectory_eq := rfl
  node? := by
    intro location
    by_cases he : location = [named "c.md", named "t"]
    · exact Or.inr ⟨named "c.md", [named "t"], contents, contents', he, rfl, rfl, he ▸ rfl, he ▸ rfl⟩
    · exact Or.inl ((FileSystem.node?_insert_ne he _).trans (FileSystem.node?_insert_ne he _).symm)

theorem eq_of_isKey_withNotes {contents : Contents} {key : String}
    (h : IsKey (withNotes contents) (.ofString "t") sampleSelection key) : key = "k" := by
  obtain ⟨names, n, text, line, token, hnames, hn, hadmits, htext, hline, htoken, rfl⟩ := h
  have hlisting : (withNotes contents).names (.ofString "t") =
      .ok [named "a.g", named "b.g", named "c.md"] := rfl
  rw [hlisting] at hnames
  obtain rfl := Except.ok.inj hnames
  have ha : (withNotes contents).text (.ofString "t/a.g") = .ok [] := by cbv
  have hb : (withNotes contents).text (.ofString "t/b.g") = .ok "x ?k?\n".toList := by cbv
  simp only [List.mem_cons, List.not_mem_nil, or_false] at hn
  rcases hn with rfl | rfl | rfl
  · obtain rfl := Except.ok.inj (ha.symm.trans htext)
    simp [Template.lines] at hline
  · obtain rfl := Except.ok.inj (hb.symm.trans htext)
    obtain rfl := List.mem_singleton.1 hline
    obtain rfl := List.mem_singleton.1 htoken
    rfl
  · exact absurd hadmits (by decide)

theorem parallel_withNotes :
    (withNotes (.bytes ⟨#[0xFF]⟩)).Plain ∧
    AlikeBut (.ofString "t") sampleSelection (withNotes (.bytes ⟨#[0xFF]⟩))
      (withNotes (.bytes "?".toUTF8)) ∧
    Parallel (withNotes (.bytes ⟨#[0xFF]⟩)) (withNotes (.bytes "?".toUTF8))
      (Job.on (Shuffled.toJob List.reverse (Generator.generate ⟨.ofList [], sampleSelection⟩
        (.ofString "t") (.ofString "o")
        (.named (.ofList [("k", .scalar (.integer 1)), ("z", .vector [])])) ""))
        (withNotes (.bytes ⟨#[0xFF]⟩)))
      (Job.on (Shuffled.toJob id (Generator.generate ⟨.ofList [], sampleSelection⟩
        (.ofString "t") (.ofString "o")
        (.named (.ofList [("k", .scalar (.integer 1)), ("k?", .matrix [])])) ""))
        (withNotes (.bytes "?".toUTF8))) := by
  have halike := alikeBut_withNotes (.bytes ⟨#[0xFF]⟩) (.bytes "?".toUTF8)
  refine ⟨plain_withNotes _, halike, ?_⟩
  refine parallel_generate List.reverse_perm List.Perm.refl _ _ _ _ (plain_withNotes _) halike ?_
  intro key hkey
  rw [eq_of_isKey_withNotes hkey]
  rfl

end Generation
end InputDeck
