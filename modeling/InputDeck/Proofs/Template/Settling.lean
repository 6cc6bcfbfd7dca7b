/-
Substitution comes to rest.

Every replacement takes two markers out of a line and brings none in, so the loop ends by itself,
and if there are variables at all it ends with a fault or without markers.  A rendered text
therefore holds no marker, wherever its lines end, and rendering it again with any variables leaves
it as it is.

`Loops` is the loop with nothing to bound it.  That the bound in `substitute` is never what ends it
is part of the theorem this file exists for, `settles_of_ne_absent`.
-/
import InputDeck.Proofs.Result
import InputDeck.Proofs.Template.OnePass
import InputDeck.Template.Deck

namespace InputDeck

namespace Template

/-- The loop of a substitution: how many replacements are made from a line on, and what the loop
ends with. -/
inductive Loops (vars : Variables) (place : Place) :
    List Char → Nat → Except Fault (List Char) → Prop
  | stays {line : List Char} (h : step vars place line = .ok none) :
      Loops vars place line 0 (.ok line)
  | fails {line : List Char} {fault : Fault} (h : step vars place line = .error fault) :
      Loops vars place line 0 (.error fault)
  | replaces {line next : List Char} {count : Nat} {result : Except Fault (List Char)}
      (h : step vars place line = .ok (some next)) (hrest : Loops vars place next count result) :
      Loops vars place line (count + 1) result

variable {vars : Variables} {place : Place} {line next text : List Char}

/-! ## One replacement -/

theorem exists_resolves (hvars : vars ≠ .absent) (place : Place) :
    ∃ lookUp, Resolves vars place lookUp := by
  cases vars with
  | absent => exact absurd rfl hvars
  | positional values => exact ⟨_, resolves_numberedText values place⟩
  | named values => exact ⟨_, resolves_namedText values place⟩

theorem marker_not_mem_resolve {token : List Char}
    (h : resolve vars place token = .ok (some text)) : marker ∉ text := by
  have hvars : vars ≠ .absent := by
    rintro rfl
    simp [resolve] at h
  obtain ⟨lookUp, hlookUp⟩ := exists_resolves hvars place
  rw [hlookUp.resolve_eq] at h
  obtain ⟨found, htoken, he⟩ := Result.map_eq_ok_iff.1 h
  obtain rfl := Option.some.inj he
  exact hlookUp.marker_not_mem token found htoken

theorem exists_text_of_resolve (hvars : vars ≠ .absent) {token : List Char}
    {replacement : Option (List Char)} (h : resolve vars place token = .ok replacement) :
    ∃ text, replacement = some text := by
  obtain ⟨lookUp, hlookUp⟩ := exists_resolves hvars place
  rw [hlookUp.resolve_eq] at h
  obtain ⟨found, -, rfl⟩ := Result.map_eq_ok_iff.1 h
  exact ⟨found, rfl⟩

/-- What a step that does not fail has found: no marker at all, or a token among balanced ones. -/
theorem step_cases {replaced : Option (List Char)} (h : step vars place line = .ok replaced) :
    (marker ∉ line ∧ replaced = none) ∨
    ∃ before token rest replacement, line.splitOn marker = before :: token :: rest ∧
      rest.length % 2 = 1 ∧ resolve vars place token = .ok replacement ∧
      replaced = replacement.map fun text => before ++ text ++ [marker].intercalate rest := by
  match hsplit : line.splitOn marker with
  | [] => exact absurd hsplit (List.splitOn_ne_nil _ _)
  | [piece] =>
      left
      have hcount := Text.length_splitOn marker line
      have hmarker : marker ∉ line := by
        rw [hsplit, List.length_singleton] at hcount
        exact List.count_eq_zero.1 (by omega)
      rw [step_single hmarker] at h
      exact ⟨hmarker, (Except.ok.inj h).symm⟩
  | before :: token :: rest =>
      right
      by_cases hrest : rest.length % 2 = 1
      · rw [step_eq_of_splitOn hsplit hrest] at h
        obtain ⟨replacement, htoken, rfl⟩ := Result.map_eq_ok_iff.1 h
        exact ⟨before, token, rest, replacement, rfl, hrest, htoken, rfl⟩
      · have heven : rest.length % 2 = 0 := by omega
        simp [step, hsplit, heven] at h

theorem count_step (h : step vars place line = .ok (some next)) :
    next.count marker + 2 = line.count marker := by
  rcases step_cases h with ⟨-, hnone⟩ | ⟨before, token, rest, replacement, hsplit, hrest, htoken, he⟩
  · simp at hnone
  · obtain ⟨text, rfl, hnext⟩ := Option.map_eq_some_iff.1 he.symm
    have hmarker : ∀ piece ∈ before :: token :: rest, marker ∉ piece := fun piece hpiece =>
      Text.not_mem_of_mem_splitOn (hsplit ▸ hpiece)
    match rest with
    | [] => simp at hrest
    | first :: more =>
        have hpieces : ∀ piece ∈ (before ++ text ++ first) :: more, marker ∉ piece := by
          intro piece hpiece
          rcases List.mem_cons.1 hpiece with rfl | hpiece
          · have hbefore := hmarker before (by simp)
            have htext := marker_not_mem_resolve htoken
            have hfirst := hmarker first (by simp)
            simp [hbefore, htext, hfirst]
          · exact hmarker piece (by simp [hpiece])
        have hline := Text.length_splitOn marker line
        have hafter := Text.length_splitOn marker next
        rw [← hnext, Text.append_intercalate, List.splitOn_intercalate marker hpieces (by simp),
          ← Text.append_intercalate, hnext] at hafter
        rw [hsplit] at hline
        simp only [List.length_cons] at hline hafter
        omega

theorem marker_not_mem_of_step (hvars : vars ≠ .absent) (h : step vars place line = .ok none) :
    marker ∉ line := by
  rcases step_cases h with ⟨hmarker, -⟩ | ⟨before, token, rest, replacement, -, -, htoken, he⟩
  · exact hmarker
  · obtain ⟨text, rfl⟩ := exists_text_of_resolve hvars htoken
    simp at he

/-! ## The loop -/

theorem Loops.marker_not_mem (hvars : vars ≠ .absent) {count : Nat}
    {result : Except Fault (List Char)} (h : Loops vars place line count result) :
    ∀ out, result = .ok out → marker ∉ out := by
  induction h with
  | stays hstep =>
      intro out he
      obtain rfl := Except.ok.inj he
      exact marker_not_mem_of_step hvars hstep
  | fails hstep => simp
  | replaces hstep hrest ih => exact ih

/-- By induction on the steps allowed: each that is taken has two markers of its own. -/
theorem loops_takeSteps {fuel : Nat} (h : line.count marker < 2 * fuel) :
    ∃ count, Loops vars place line count (takeSteps vars place fuel line) ∧
      2 * count ≤ line.count marker := by
  induction fuel generalizing line with
  | zero => omega
  | succ fuel ih =>
      rw [takeSteps]
      cases hstep : step vars place line with
      | error fault => exact ⟨0, .fails hstep, by omega⟩
      | ok replaced =>
          cases replaced with
          | none => exact ⟨0, .stays hstep, by omega⟩
          | some next =>
              have hcount := count_step hstep
              have hnext : next.count marker < 2 * fuel := by omega
              obtain ⟨count, hloop, hle⟩ := ih hnext
              exact ⟨count + 1, .replaces hstep hloop, by omega⟩

theorem loops_substitute (vars : Variables) (place : Place) (line : List Char) :
    ∃ count, Loops vars place line count (substitute vars place line) ∧
      2 * count ≤ line.count marker :=
  loops_takeSteps (by omega)

theorem marker_not_mem_substitute (hvars : vars ≠ .absent) {out : List Char}
    (h : substitute vars place line = .ok out) : marker ∉ out := by
  obtain ⟨count, hloop, -⟩ := loops_substitute vars place line
  exact hloop.marker_not_mem hvars out h

/-! ## Whole texts -/

theorem marker_not_mem_substituteIfMarked (hvars : vars ≠ .absent) {out : List Char}
    (h : substituteIfMarked vars place line = .ok out) : marker ∉ out := by
  unfold substituteIfMarked hasMarker at h
  split at h
  · exact marker_not_mem_substitute hvars h
  · rename_i hmarker
    obtain rfl := Except.ok.inj h
    simpa using hmarker

theorem substituteLines_cons (vars : Variables) (file : String) (number : Nat) (line : List Char)
    (rest : List (List Char)) :
    substituteLines vars file number (line :: rest) =
      (substituteIfMarked vars ⟨file, number⟩ line).bind fun out =>
        (substituteLines vars file (number + 1) rest).map (out :: ·) := by
  rw [substituteLines]
  cases substituteIfMarked vars ⟨file, number⟩ line with
  | error fault => rfl
  | ok out => cases substituteLines vars file (number + 1) rest <;> rfl

theorem marker_not_mem_substituteLines (hvars : vars ≠ .absent) {file : String} {number : Nat}
    {lines outs : List (List Char)} (h : substituteLines vars file number lines = .ok outs) :
    ∀ out ∈ outs, marker ∉ out := by
  induction lines generalizing number outs with
  | nil =>
      obtain rfl := Except.ok.inj h
      simp
  | cons line rest ih =>
      rw [substituteLines_cons] at h
      obtain ⟨first, hline, hrest⟩ := Result.bind_eq_ok_iff.1 h
      obtain ⟨more, hmore, rfl⟩ := Result.map_eq_ok_iff.1 hrest
      intro out hout
      rcases List.mem_cons.1 hout with rfl | hout
      · exact marker_not_mem_substituteIfMarked hvars hline
      · exact ih hmore out hout

theorem substituteLines_of_unmarked {file : String} {number : Nat} {lines : List (List Char)}
    (h : ∀ line ∈ lines, marker ∉ line) : substituteLines vars file number lines = .ok lines := by
  induction lines generalizing number with
  | nil => rfl
  | cons line rest ih =>
      have hline : hasMarker line = false := by simpa [hasMarker] using h line List.mem_cons_self
      have hrest : substituteLines vars file (number + 1) rest = .ok rest :=
        ih fun l hl => h l (List.mem_cons_of_mem _ hl)
      simp [substituteLines_cons, substituteIfMarked, hline, hrest, Except.bind, Except.map]

end Template

namespace Deck

open Template

variable {vars : Variables}

theorem ofTemplate_eq (vars : Variables) (path : Path) (text : List Char) :
    ofTemplate vars path text =
      (substituteLines vars path.display 1 (lines text)).map fun substituted =>
        ⟨path.fileName.getD (Text.utf8 path.display), lines text, substituted⟩ := by
  unfold ofTemplate
  dsimp only
  cases substituteLines vars path.display 1 (lines text) <;> rfl

theorem marker_not_mem_contents (hvars : vars ≠ .absent) {path : Path} {text : List Char}
    {deck : Deck} (h : ofTemplate vars path text = .ok deck) : marker ∉ deck.contents := by
  rw [ofTemplate_eq] at h
  obtain ⟨outs, hlines, rfl⟩ := Result.map_eq_ok_iff.1 h
  intro hmem
  obtain ⟨out, hout, hmarker⟩ := List.mem_flatten.1 hmem
  exact marker_not_mem_substituteLines hvars hlines out hout hmarker

theorem contents_of_unmarked (vars : Variables) (path : Path) {text : List Char}
    (h : marker ∉ text) :
    ∃ deck, ofTemplate vars path text = .ok deck ∧ deck.contents = text := by
  have hlines : ∀ line ∈ lines text, marker ∉ line := by
    intro line hline hmarker
    apply h
    rw [← flatten_lines text]
    exact List.mem_flatten.2 ⟨line, hline, hmarker⟩
  rw [ofTemplate_eq, substituteLines_of_unmarked hlines]
  exact ⟨_, rfl, flatten_lines text⟩

end Deck

namespace Template

/-- The loop makes at most half as many replacements as there are markers, and a rendered text is
what every further rendering makes of it. -/
theorem settles_of_ne_absent {vars : Variables} (hvars : vars ≠ .absent) :
    (∀ place line, ∃ count, Loops vars place line count (substitute vars place line) ∧
      2 * count ≤ line.count marker) ∧
    (∀ place line next, step vars place line = .ok (some next) →
      next.count marker + 2 = line.count marker) ∧
    ∀ path text deck, Deck.ofTemplate vars path text = .ok deck →
      marker ∉ deck.contents ∧
      ∀ vars' path', ∃ deck', Deck.ofTemplate vars' path' deck.contents = .ok deck' ∧
        deck'.contents = deck.contents := by
  refine ⟨loops_substitute vars, fun _ _ _ hstep => count_step hstep, ?_⟩
  intro path text deck hdeck
  have hmarker := Deck.marker_not_mem_contents hvars hdeck
  exact ⟨hmarker, fun vars' path' => Deck.contents_of_unmarked vars' path' hmarker⟩

/-- Variables of which a matrix puts a line break into a line. -/
def gridVariables : Variables :=
  .named (Table.ofList [("m", .matrix [[.integer 1, .integer 2], [.integer 3, .integer 4]])])

theorem settles_gridVariables :
    step gridVariables ⟨"a.g", 1⟩ "x ?m? y\n".toList = .ok (some "x 1 2\n3 4 y\n".toList) ∧
    "x 1 2\n3 4 y\n".toList.count marker + 2 = "x ?m? y\n".toList.count marker ∧
    marker ∉ "x 1 2\n3 4 y\nz".toList ∧
    ∀ vars path, ∃ deck, Deck.ofTemplate vars path "x 1 2\n3 4 y\nz".toList = .ok deck ∧
      deck.contents = "x 1 2\n3 4 y\nz".toList := by
  have hvars : gridVariables ≠ .absent := by simp [gridVariables]
  obtain ⟨-, hcount, hrender⟩ := settles_of_ne_absent hvars
  have hstep : step gridVariables ⟨"a.g", 1⟩ "x ?m? y\n".toList =
      .ok (some "x 1 2\n3 4 y\n".toList) := by rfl
  have hdeck : Deck.ofTemplate gridVariables (.ofString "a.g") "x ?m? y\nz".toList =
      .ok ⟨Text.utf8 "a.g", ["x ?m? y\n".toList, "z".toList],
        ["x 1 2\n3 4 y\n".toList, "z".toList]⟩ := by rfl
  exact ⟨hstep, hcount _ _ _ hstep, hrender _ _ _ hdeck⟩

end Template
end InputDeck
