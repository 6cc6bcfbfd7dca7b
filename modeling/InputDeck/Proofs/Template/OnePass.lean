/-
Substitution in one pass.

`substitute` takes the tokens of a line one by one and looks at the whole line again after each.
Here the line is cut at its markers once, every second piece is looked up as it stands there, and
the pieces are put together: `onePass`.  The theorem this file exists for is
`substitute_eq_onePass`.

No value is written with a marker.  So a step takes the first two of the marker-free pieces and
the value between them into the third, and `fill` of the pieces is the same before and after: that
is what a run of steps keeps.
-/
import InputDeck.Proofs.Text.Pieces
import InputDeck.Proofs.Value.Characters
import InputDeck.Template.Line

namespace InputDeck
namespace Template

theorem marker_not_mem_scalarText (s : Scalar) : marker ∉ s.text := by
  intro h
  have hmarker : Number.isNumeral marker = true := Scalar.isNumeral_of_mem_text h
  exact absurd hmarker (by decide)

theorem marker_not_mem_valueText (v : Value) : marker ∉ v.text := by
  intro h
  rcases Value.mem_text h with h | h | h <;> exact absurd h (by decide)

/-! ## The reference -/

theorem pred_lt_length {values : List Scalar} {index : Int64}
    (h : 1 ≤ index.toInt ∧ index.toInt ≤ values.length) :
    (index.toInt - 1).toNat < values.length := by
  omega

/-- What stands for a token among numbered variables. -/
def numberedText (values : List Scalar) (place : Place) (token : List Char) :
    Except Fault (List Char) :=
  match Number.readInt64 (Text.trim token) with
  | none => .error (.notAnIndex (String.ofList token) place)
  | some index =>
      if h : 1 ≤ index.toInt ∧ index.toInt ≤ values.length then
        .ok (values.get ⟨(index.toInt - 1).toNat, pred_lt_length h⟩).text
      else .error (.indexOutOfRange index.toInt values.length place)

/-- What stands for a token among named variables. -/
def namedText (values : Table String Value) (place : Place) (token : List Char) :
    Except Fault (List Char) :=
  match values.get? (String.ofList token) with
  | none => .error (.missingKey (String.ofList token) place)
  | some value => .ok value.text

/-- Puts pieces together, every second one replaced; the first that cannot be is the fault. -/
def fill (lookUp : List Char → Except Fault (List Char)) :
    List (List Char) → Except Fault (List Char)
  | before :: token :: rest =>
      match lookUp token with
      | .error fault => .error fault
      | .ok text =>
          match fill lookUp rest with
          | .error fault => .error fault
          | .ok after => .ok (before ++ text ++ after)
  | [last] => .ok last
  | [] => .ok []

/-- Cuts a line at its markers and fills it.  There has to be an even number of markers, so an odd
number of pieces, also where there are no variables. -/
def onePass (vars : Variables) (place : Place) (line : List Char) : Except Fault (List Char) :=
  let pieces := line.splitOn marker
  if pieces.length % 2 = 0 then .error (.unbalanced place)
  else
    match vars with
    | .absent => .ok line
    | .positional values => fill (numberedText values place) pieces
    | .named values => fill (namedText values place) pieces

theorem fill_append (lookUp : List Char → Except Fault (List Char)) (front piece : List Char)
    (rest : List (List Char)) :
    fill lookUp ((front ++ piece) :: rest) = (fill lookUp (piece :: rest)).map (front ++ ·) := by
  cases rest with
  | nil => rfl
  | cons token rest =>
      simp only [fill]
      cases lookUp token with
      | error fault => rfl
      | ok text =>
          cases fill lookUp rest with
          | error fault => rfl
          | ok after => simp [Except.map, List.append_assoc]

/-- That a token is looked up as `resolve` does, and never given a text with a marker. -/
structure Resolves (vars : Variables) (place : Place)
    (lookUp : List Char → Except Fault (List Char)) : Prop where
  resolve_eq : ∀ token, resolve vars place token = (lookUp token).map some
  marker_not_mem : ∀ token text, lookUp token = .ok text → marker ∉ text

theorem resolves_numberedText (values : List Scalar) (place : Place) :
    Resolves (.positional values) place (numberedText values place) where
  resolve_eq token := by
    simp only [resolve, numberedText, resolveIndex]
    cases Number.readInt64 (Text.trim token) with
    | none => rfl
    | some index =>
        dsimp only
        by_cases h : 1 ≤ index.toInt ∧ index.toInt ≤ values.length
        · rw [dif_pos h, if_pos h.1, List.getElem?_eq_getElem (pred_lt_length h)]
          rfl
        · have hnone : (if 1 ≤ index.toInt then values[(index.toInt - 1).toNat]? else none) =
              none := by
            split
            · exact List.getElem?_eq_none (by omega)
            · rfl
          rw [dif_neg h, hnone]
          rfl
  marker_not_mem token text h := by
    unfold numberedText at h
    split at h
    · simp at h
    · split at h
      · injection h with h
        exact h ▸ marker_not_mem_scalarText _
      · simp at h

theorem resolves_namedText (values : Table String Value) (place : Place) :
    Resolves (.named values) place (namedText values place) where
  resolve_eq token := by
    simp only [resolve, namedText, resolveKey]
    cases values.get? (String.ofList token) <;> rfl
  marker_not_mem token text h := by
    unfold namedText at h
    split at h
    · simp at h
    · injection h with h
      exact h ▸ marker_not_mem_valueText _

/-! ## One step -/

section Pieces

variable {vars : Variables} {place : Place} {before token next : List Char}
  {pieces rest : List (List Char)} {lookUp : List Char → Except Fault (List Char)}

theorem step_eq_of_splitOn {line : List Char} (h : line.splitOn marker = before :: token :: rest)
    (hrest : rest.length % 2 = 1) :
    step vars place line =
      (resolve vars place token).map fun text =>
        text.map fun text => before ++ text ++ [marker].intercalate rest := by
  have hne : ¬ rest.length % 2 = 0 := by omega
  simp only [step, h, if_neg hne]

/-- A step takes two pieces and the value between them into the third piece. -/
theorem step_intercalate (hlookUp : Resolves vars place lookUp)
    (hmarker : ∀ p ∈ before :: token :: next :: rest, marker ∉ p) (hrest : rest.length % 2 = 0) :
    step vars place ([marker].intercalate (before :: token :: next :: rest)) =
      (lookUp token).map fun text =>
        some ([marker].intercalate ((before ++ text ++ next) :: rest)) := by
  have hsplit := List.splitOn_intercalate marker hmarker (by simp)
  have hodd : (next :: rest).length % 2 = 1 := by
    rw [List.length_cons]
    omega
  rw [step_eq_of_splitOn hsplit hodd, hlookUp.resolve_eq]
  cases lookUp token with
  | error fault => rfl
  | ok text => simp [Except.map, Text.append_intercalate]

theorem step_single (hmarker : marker ∉ before) : step vars place before = .ok none := by
  simp only [step, List.splitOn_eq_singleton hmarker]

/-! ## A run of steps -/

/-- The induction is on the number of steps, of which half the number of markers is enough. -/
theorem takeSteps_intercalate (hlookUp : Resolves vars place lookUp) (count : Nat)
    (hmarker : ∀ p ∈ pieces, marker ∉ p) (hodd : pieces.length % 2 = 1)
    (hcount : pieces.length ≤ 2 * count + 1) :
    takeSteps vars place count ([marker].intercalate pieces) = fill lookUp pieces := by
  induction count generalizing pieces with
  | zero =>
      match pieces with
      | [] => simp at hodd
      | [last] => simp [takeSteps, fill]
      | _ :: _ :: _ =>
          simp only [List.length_cons] at hcount
          omega
  | succ count ih =>
      match pieces with
      | [] => simp at hodd
      | [last] =>
          have hstep : step vars place last = .ok none := step_single (hmarker last (by simp))
          simp [takeSteps, fill, hstep]
      | [_, _] => simp at hodd
      | before :: token :: next :: rest =>
          simp only [List.length_cons] at hodd hcount
          rw [takeSteps, step_intercalate hlookUp hmarker (by omega)]
          cases htoken : lookUp token with
          | error fault => simp [fill, htoken, Except.map]
          | ok text =>
              have hpieces : ∀ p ∈ (before ++ text ++ next) :: rest, marker ∉ p := by
                intro p hp
                rcases List.mem_cons.1 hp with rfl | hp
                · have hbefore := hmarker before (by simp)
                  have htext := hlookUp.marker_not_mem token text htoken
                  have hnext := hmarker next (by simp)
                  simp [hbefore, htext, hnext]
                · exact hmarker p (by simp [hp])
              have hrun := ih hpieces (by rw [List.length_cons]; omega)
                (by rw [List.length_cons]; omega)
              have hfill : fill lookUp (before :: token :: next :: rest) =
                  (fill lookUp (next :: rest)).map (before ++ text ++ ·) := by
                rw [fill, htoken]
                cases fill lookUp (next :: rest) <;> rfl
              simp only [Except.map]
              rw [hrun, fill_append, hfill]

end Pieces

theorem substitute_of_absent (place : Place) (line : List Char)
    (hodd : (line.splitOn marker).length % 2 = 1) :
    substitute .absent place line = .ok line := by
  have hstep : step .absent place line = .ok none := by
    match hsplit : line.splitOn marker with
    | [] => exact absurd hsplit (List.splitOn_ne_nil _ _)
    | [_] => simp only [step, hsplit]
    | before :: token :: rest =>
        rw [hsplit, List.length_cons, List.length_cons] at hodd
        rw [step_eq_of_splitOn hsplit (by omega)]
        rfl
  simp [substitute, takeSteps, hstep]

theorem substitute_of_unbalanced (vars : Variables) (place : Place) (line : List Char)
    (heven : (line.splitOn marker).length % 2 = 0) :
    substitute vars place line = .error (.unbalanced place) := by
  have hstep : step vars place line = .error (.unbalanced place) := by
    match hsplit : line.splitOn marker with
    | [] => exact absurd hsplit (List.splitOn_ne_nil _ _)
    | [_] => simp [hsplit] at heven
    | before :: token :: rest =>
        rw [hsplit, List.length_cons, List.length_cons] at heven
        have hrest : rest.length % 2 = 0 := by omega
        simp only [step, hsplit, if_pos hrest]
  simp [substitute, takeSteps, hstep]

theorem substitute_eq_fill {vars : Variables} {place : Place}
    {lookUp : List Char → Except Fault (List Char)} (hlookUp : Resolves vars place lookUp)
    (line : List Char) (hodd : (line.splitOn marker).length % 2 = 1) :
    substitute vars place line = fill lookUp (line.splitOn marker) := by
  have hlength := Text.length_splitOn marker line
  have hrun := takeSteps_intercalate hlookUp (line.count marker / 2 + 1)
    (fun _ hp => Text.not_mem_of_mem_splitOn hp) hodd (by omega)
  rw [List.intercalate_splitOn] at hrun
  exact hrun

/-- The steps of a substitution come to the same as one pass over the line as it was. -/
theorem substitute_eq_onePass (vars : Variables) (place : Place) (line : List Char) :
    substitute vars place line = onePass vars place line := by
  by_cases heven : (line.splitOn marker).length % 2 = 0
  · simp only [onePass, if_pos heven]
    exact substitute_of_unbalanced vars place line heven
  · have hodd : (line.splitOn marker).length % 2 = 1 := by omega
    simp only [onePass, if_neg heven]
    cases vars with
    | absent => exact substitute_of_absent place line hodd
    | positional values => exact substitute_eq_fill (resolves_numberedText values place) line hodd
    | named values => exact substitute_eq_fill (resolves_namedText values place) line hodd

example : (onePass (.positional [.integer 7]) ⟨"case.pot", 1⟩ "a ? 1? b".toList).toOption =
    some "a 7 b".toList := by
  decide +kernel

end Template
end InputDeck
