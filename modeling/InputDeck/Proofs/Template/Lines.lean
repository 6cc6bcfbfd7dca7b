/-
Templates read line by line.

A text has one cut into lines (`isCut_iff`): they make up the text again, a line feed ends each but
perhaps the last, and no line is without characters.  Lines are substituted under their numbers, and
the first that fails ends the pass with its fault.  No token reaches over the end of a line, so what
stands behind the last marker of a line stays at its end (`suffix_substitute`).  The theorem this
file exists for is `read_line_by_line`.
-/
import InputDeck.Proofs.Generation.Jobs
import InputDeck.Proofs.Template.Tokens

namespace InputDeck
namespace Template

/-! ## Lines of a text -/

/-- That some lines are those of a text. -/
structure IsCut (text : List Char) (cut : List (List Char)) : Prop where
  flatten_eq : cut.flatten = text
  ne_nil : ∀ line ∈ cut, line ≠ []
  inside : ∀ line ∈ cut, '\n' ∉ line.dropLast
  ends : ∀ line ∈ cut.dropLast, '\n' ∈ line

variable {text body : List Char} {cut : List (List Char)}

theorem lines_append (h : '\n' ∉ body) (rest : List Char) :
    lines (body ++ '\n' :: rest) = (body ++ ['\n']) :: lines rest := by
  induction body with
  | nil => simp [lines]
  | cons c body ih =>
      have hc : c ≠ '\n' := fun e => h (e ▸ List.mem_cons_self)
      have hbody : '\n' ∉ body := fun hmem => h (List.mem_cons_of_mem c hmem)
      rw [List.cons_append, lines, if_neg hc, ih hbody]
      rfl

theorem lines_of_not_mem (hne : body ≠ []) (h : '\n' ∉ body) : lines body = [body] := by
  induction body with
  | nil => exact absurd rfl hne
  | cons c body ih =>
      have hc : c ≠ '\n' := fun e => h (e ▸ List.mem_cons_self)
      have hbody : '\n' ∉ body := fun hmem => h (List.mem_cons_of_mem c hmem)
      rw [lines, if_neg hc]
      cases body with
      | nil => rfl
      | cons d rest => rw [ih (by simp) hbody]

/-- A line feed that stands nowhere else in a line stands at its end. -/
theorem eq_dropLast_append {line : List Char} (hinside : '\n' ∉ line.dropLast) (h : '\n' ∈ line) :
    line = line.dropLast ++ ['\n'] := by
  have hne : line ≠ [] := List.ne_nil_of_mem h
  have hlast := List.dropLast_append_getLast hne
  rw [← hlast] at h
  rcases List.mem_append.1 h with h | h
  · exact absurd h hinside
  · rw [List.mem_singleton.1 h]
    exact hlast.symm

theorem IsCut.tail {line : List Char} (h : IsCut text (line :: cut)) : IsCut cut.flatten cut where
  flatten_eq := rfl
  ne_nil l hl := h.ne_nil l (List.mem_cons_of_mem _ hl)
  inside l hl := h.inside l (List.mem_cons_of_mem _ hl)
  ends l hl := by
    have hne : cut ≠ [] := by
      rintro rfl
      simp at hl
    exact h.ends l (by rw [List.dropLast_cons_of_ne_nil hne]; exact List.mem_cons_of_mem _ hl)

theorem IsCut.eq_lines (h : IsCut text cut) : cut = lines text := by
  induction cut generalizing text with
  | nil =>
      rw [← h.flatten_eq]
      rfl
  | cons line rest ih =>
      have hline := h.inside line List.mem_cons_self
      have hrest := ih h.tail
      rw [← h.flatten_eq, List.flatten_cons]
      by_cases hfeed : '\n' ∈ line
      · rw [eq_dropLast_append hline hfeed, List.append_assoc, List.singleton_append,
          lines_append hline, ← hrest]
      · cases rest with
        | nil =>
            rw [List.flatten_nil, List.append_nil,
              lines_of_not_mem (h.ne_nil line List.mem_cons_self) hfeed]
        | cons next more => exact absurd (h.ends line (by simp)) hfeed

theorem IsCut.cons {rest : List Char} (h : IsCut rest cut) (hbody : '\n' ∉ body) :
    IsCut (body ++ '\n' :: rest) ((body ++ ['\n']) :: cut) where
  flatten_eq := by rw [List.flatten_cons, h.flatten_eq, List.append_assoc, List.singleton_append]
  ne_nil := List.forall_mem_cons.2 ⟨by simp, h.ne_nil⟩
  inside := List.forall_mem_cons.2 ⟨by rwa [List.dropLast_concat], h.inside⟩
  ends l hl := by
    cases cut with
    | nil => simp at hl
    | cons first more =>
        rw [List.dropLast_cons_cons] at hl
        rcases List.mem_cons.1 hl with rfl | hl
        · simp
        · exact h.ends l hl

/-- By induction on the number of line feeds. -/
theorem isCut_lines (text : List Char) : IsCut text (lines text) := by
  induction hcount : text.count '\n' generalizing text with
  | zero =>
      have hfeed : '\n' ∉ text := List.count_eq_zero.1 hcount
      by_cases hne : text = []
      · subst hne
        exact ⟨rfl, by simp [lines], by simp [lines], by simp [lines]⟩
      · rw [lines_of_not_mem hne hfeed]
        refine ⟨by simp, by simpa using hne, ?_, by simp⟩
        intro line hline hmem
        rw [List.mem_singleton.1 hline] at hmem
        exact hfeed ((List.dropLast_sublist text).subset hmem)
  | succ count ih =>
      have hfeed : '\n' ∈ text := List.count_pos_iff.1 (by omega)
      obtain ⟨body, rest, rfl, hbody⟩ := List.eq_append_cons_of_mem hfeed
      rw [List.count_append, List.count_eq_zero.2 hbody, List.count_cons_self] at hcount
      rw [lines_append hbody]
      exact (ih rest (by omega)).cons hbody

theorem isCut_iff : IsCut text cut ↔ cut = lines text :=
  ⟨IsCut.eq_lines, fun h => h ▸ isCut_lines text⟩

/-! ## Lines with their numbers -/

variable {vars : Variables} {file : String} {first : Nat} {template outs : List (List Char)}

theorem substituteIfMarked_eq (vars : Variables) (place : Place) (line : List Char) :
    substituteIfMarked vars place line = substitute vars place line := by
  unfold substituteIfMarked hasMarker
  split
  · rfl
  · rename_i hmarker
    rw [substitute_plain (by simpa using hmarker)]

theorem substituteLines_step (vars : Variables) (file : String) (first : Nat) (line : List Char)
    (rest : List (List Char)) :
    substituteLines vars file first (line :: rest) =
      (substitute vars ⟨file, first⟩ line).bind fun out =>
        (substituteLines vars file (first + 1) rest).map (out :: ·) := by
  rw [substituteLines_cons, substituteIfMarked_eq]

/-- That each of some lines, numbered from `first` on, comes to what stands in its place. -/
def Become (vars : Variables) (file : String) (first : Nat) (template outs : List (List Char)) :
    Prop :=
  ∀ i line, template[i]? = some line →
    ∃ out, outs[i]? = some out ∧ substitute vars ⟨file, i + first⟩ line = .ok out

theorem become_nil : Become vars file first [] outs := by
  intro i line h
  simp at h

theorem Become.cons {line out : List Char} (hline : substitute vars ⟨file, first⟩ line = .ok out)
    (h : Become vars file (first + 1) template outs) :
    Become vars file first (line :: template) (out :: outs) := by
  intro i l hl
  cases i with
  | zero =>
      obtain rfl := Option.some.inj hl
      exact ⟨out, rfl, by rwa [Nat.zero_add]⟩
  | succ i =>
      have hnumber : i + 1 + first = i + (first + 1) := by omega
      rw [hnumber]
      exact h i l hl

theorem Become.balanced (h : Become vars file first template outs) :
    ∀ line ∈ template, Balanced line := by
  intro line hline
  obtain ⟨i, hi⟩ := List.getElem?_of_mem hline
  obtain ⟨out, -, hout⟩ := h i line hi
  by_contra hbad
  simp [substitute_of_not_balanced hbad] at hout

theorem become_of_substituteLines (h : substituteLines vars file first template = .ok outs) :
    outs.length = template.length ∧ Become vars file first template outs := by
  induction template generalizing first outs with
  | nil =>
      obtain rfl := Except.ok.inj h
      exact ⟨rfl, become_nil⟩
  | cons line rest ih =>
      rw [substituteLines_step] at h
      obtain ⟨out, hline, hmore⟩ := Result.bind_eq_ok_iff.1 h
      obtain ⟨more, hrest, rfl⟩ := Result.map_eq_ok_iff.1 hmore
      obtain ⟨hlength, hbecome⟩ := ih hrest
      exact ⟨by rw [List.length_cons, List.length_cons, hlength], hbecome.cons hline⟩

theorem first_of_substituteLines {fault : Fault}
    (h : substituteLines vars file first template = .error fault) :
    ∃ earlier line later, template = earlier ++ line :: later ∧
      (∃ outs, Become vars file first earlier outs) ∧
      substitute vars ⟨file, earlier.length + first⟩ line = .error fault := by
  induction template generalizing first with
  | nil => simp [substituteLines] at h
  | cons line rest ih =>
      rw [substituteLines_step] at h
      rcases Result.bind_eq_error_iff.1 h with hline | ⟨out, hline, hmore⟩
      · exact ⟨[], line, rest, rfl, ⟨[], become_nil⟩, by simpa using hline⟩
      · obtain ⟨earlier, bad, later, rfl, ⟨outs, hbecome⟩, hbad⟩ :=
          ih (Result.map_eq_error_iff.1 hmore)
        have hnumber : earlier.length + (first + 1) = (line :: earlier).length + first := by
          rw [List.length_cons]
          omega
        refine ⟨line :: earlier, bad, later, rfl, ⟨out :: outs, hbecome.cons hline⟩, ?_⟩
        rw [← hnumber]
        exact hbad

/-! ## Ends of lines -/

/-- Text without markers at the end of a line stays there. -/
theorem suffix_substitute {place : Place} {line ending out : List Char} (hmarker : marker ∉ ending)
    (hends : ending <:+ line) (h : substitute vars place line = .ok out) : ending <:+ out := by
  obtain ⟨front, rfl⟩ := hends
  have hcount : (front ++ ending).count marker = front.count marker := by
    rw [List.count_append, List.count_eq_zero.2 hmarker, Nat.add_zero]
  -- Either the text is outside of all tokens, or a marker of the line is left over.
  by_cases hfront : Balanced front
  · rw [substitute_append hfront (.plain hmarker), substitute_plain hmarker] at h
    obtain ⟨before, -, hout⟩ := Result.bind_eq_ok_iff.1 h
    exact ⟨before, Except.ok.inj hout⟩
  · rw [balanced_iff, ← hcount, ← balanced_iff] at hfront
    simp [substitute_of_not_balanced hfront] at h

/-- A line feed may come to stand behind a carriage return, if no text is put between the two. -/
example : substitute (.named (.ofList [("v", .vector [])])) ⟨"a.g", 1⟩ "\r?v?\n".toList =
    .ok "\r\n".toList := rfl

end Template

/-! ## Templates in files -/

namespace Deck

variable {fs : FileSystem} {path : Path} {text : List Char}

theorem on_read_text (hfile : fs.read path = .ok (.bytes (String.ofList text).toUTF8))
    (vars : Variables) : Job.on (read vars path) fs = (ofTemplate vars path text, fs) := by
  rw [on_read, FileSystem.deck, FileSystem.text_of_read hfile]
  rfl

theorem on_render_text (hfile : fs.read path = .ok (.bytes (String.ofList text).toUTF8))
    (vars : Variables) :
    Job.on (render vars path) fs =
      ((Template.substituteLines vars path.display 1 (Template.lines text)).map List.flatten,
        fs) := by
  rw [on_render, FileSystem.deck, FileSystem.text_of_read hfile]
  show ((ofTemplate vars path text).map contents, fs) = _
  rw [ofTemplate_eq]
  cases Template.substituteLines vars path.display 1 (Template.lines text) <;> rfl

end Deck

namespace Template

/-- Reading a template from a text file cuts it into its lines and substitutes each under its
number, also those without markers, and the line feed or the carriage return and line feed that a
line ends in stay at its end.  If lines fail, reading ends with the fault of the first. -/
theorem read_line_by_line {fs : FileSystem} {path : Path} {text : List Char}
    (hfile : fs.read path = .ok (.bytes (String.ofList text).toUTF8)) (vars : Variables) :
    ∃ cut, (∀ cut', IsCut text cut' ↔ cut' = cut) ∧
      ((∃ deck, Job.on (Deck.read vars path) fs = (.ok deck, fs) ∧ deck.template = cut ∧
        deck.substituted.length = cut.length ∧
        ∀ i line, cut[i]? = some line → ∃ out, deck.substituted[i]? = some out ∧
          substitute vars ⟨path.display, i + 1⟩ line = .ok out ∧
          ∀ ending ∈ [['\n'], ['\r', '\n']], ending <:+ line → ending <:+ out) ∨
      ∃ earlier line later fault, cut = earlier ++ line :: later ∧
        (∀ i l, earlier[i]? = some l → ∃ out, substitute vars ⟨path.display, i + 1⟩ l = .ok out) ∧
        substitute vars ⟨path.display, earlier.length + 1⟩ line = .error fault ∧
        Job.on (Deck.read vars path) fs = (.error fault, fs)) := by
  refine ⟨lines text, fun cut' => isCut_iff, ?_⟩
  rw [Deck.on_read_text hfile, Deck.ofTemplate_eq]
  cases hpass : substituteLines vars path.display 1 (lines text) with
  | ok outs =>
      obtain ⟨hlength, hbecome⟩ := become_of_substituteLines hpass
      refine Or.inl ⟨_, rfl, rfl, hlength, ?_⟩
      intro i line hline
      obtain ⟨out, hout, hsubstitute⟩ := hbecome i line hline
      refine ⟨out, hout, hsubstitute, ?_⟩
      intro ending hending hends
      have hmarker : marker ∉ ending := by
        simp only [List.mem_cons, List.not_mem_nil, or_false] at hending
        rcases hending with rfl | rfl <;> decide
      exact suffix_substitute hmarker hends hsubstitute
  | error fault =>
      obtain ⟨earlier, line, later, hcut, ⟨outs, hbecome⟩, hline⟩ := first_of_substituteLines hpass
      refine Or.inr ⟨earlier, line, later, fault, hcut, ?_, hline, rfl⟩
      intro i l hl
      obtain ⟨out, -, hsubstitute⟩ := hbecome i l hl
      exact ⟨out, hsubstitute⟩

/-! A template with line ends of all kinds. -/

def mixedText : List Char := "?m? a\r\n\r\nb ?m?\nc\r".toList

def mixedFile : FileSystem :=
  FileSystem.root.insert [Text.utf8 "a.g"] (.file (.bytes (String.ofList mixedText).toUTF8))

theorem read_line_by_line_mixedFile :
    mixedFile.read (.ofString "a.g") = .ok (.bytes (String.ofList mixedText).toUTF8) ∧
      IsCut mixedText
        ["?m? a\r\n".toList, "\r\n".toList, "b ?m?\n".toList, "c\r".toList] ∧
      ∃ deck, Job.on (Deck.read gridVariables (.ofString "a.g")) mixedFile =
          (.ok deck, mixedFile) ∧
        deck.substituted.length = 4 ∧
        ∃ out, deck.substituted[0]? = some out ∧
          substitute gridVariables ⟨"a.g", 1⟩ "?m? a\r\n".toList = .ok out ∧
          ['\r', '\n'] <:+ out := by
  have hfile : mixedFile.read (.ofString "a.g") =
      .ok (.bytes (String.ofList mixedText).toUTF8) := rfl
  have hdeck : Deck.ofTemplate gridVariables (.ofString "a.g") mixedText =
      .ok ⟨Text.utf8 "a.g", lines mixedText,
        ["1 2\n3 4 a\r\n".toList, "\r\n".toList, "b 1 2\n3 4\n".toList, "c\r".toList]⟩ := rfl
  have hlines : lines mixedText =
      ["?m? a\r\n".toList, "\r\n".toList, "b ?m?\n".toList, "c\r".toList] := rfl
  obtain ⟨cut, hcut, hread⟩ := read_line_by_line hfile gridVariables
  obtain rfl := (hcut _).1 (isCut_lines mixedText)
  refine ⟨hfile, (hcut _).2 hlines.symm, ?_⟩
  rcases hread with ⟨deck, hjob, -, hlength, hline⟩ | ⟨_, _, _, fault, -, -, -, hjob⟩
  · have hends : ['\r', '\n'] <:+ "?m? a\r\n".toList := ⟨"?m? a".toList, rfl⟩
    obtain ⟨out, hout, hsubstitute, hkept⟩ := hline 0 "?m? a\r\n".toList rfl
    exact ⟨deck, hjob, hlength, out, hout, hsubstitute, hkept _ (by decide) hends⟩
  · rw [Deck.on_read_text hfile, hdeck] at hjob
    simp at hjob

end Template
end InputDeck
