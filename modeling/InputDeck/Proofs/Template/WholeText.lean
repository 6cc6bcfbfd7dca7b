/-
Templates substituted as a whole.

A template is cut into lines and these are substituted one by one.  If all its lines are balanced,
substituting the text as one long line comes to the same: what the lines come to one after another
is what the text comes to, and the first line that fails holds the first token of the text without
a value.  Only the number of that line is lost (`render_as_one_line`).

Lines have to be balanced, since a marker in one could otherwise find its counterpart in the next.
-/
import InputDeck.Proofs.Template.Lines

namespace InputDeck
namespace Template

variable {text : List Char} {template : List (List Char)}

theorem balanced_flatten (h : ∀ line ∈ template, Balanced line) : Balanced template.flatten := by
  induction template with
  | nil => exact .plain (by simp)
  | cons line rest ih =>
      exact (h line List.mem_cons_self).append (ih fun l hl => h l (List.mem_cons_of_mem _ hl))

/-- What substituting lines from the given number on has to do with substituting them as one.  The
induction is on the lines; a line that succeeds goes in front of what the rest comes to. -/
theorem substituteLines_cases (vars : Variables) (file : String) (number first : Nat)
    (h : ∀ line ∈ template, Balanced line) :
    (∃ outs, substituteLines vars file first template = .ok outs ∧
      substitute vars ⟨file, number⟩ template.flatten = .ok outs.flatten) ∨
    ∃ earlier line later fault out, template = earlier ++ line :: later ∧
      substitute vars ⟨file, number⟩ earlier.flatten = .ok out ∧
      substitute vars ⟨file, number⟩ line = .error fault ∧
      substitute vars ⟨file, number⟩ template.flatten = .error fault ∧
      substituteLines vars file first template = .error (fault.onLine (first + earlier.length)) := by
  induction template generalizing first with
  | nil => exact Or.inl ⟨[], rfl, substitute_plain (by simp)⟩
  | cons line rest ih =>
      have hline := h line List.mem_cons_self
      have hrest : ∀ l ∈ rest, Balanced l := fun l hl => h l (List.mem_cons_of_mem _ hl)
      rw [List.flatten_cons, substitute_append hline (balanced_flatten hrest),
        substituteLines_cons, substituteIfMarked_eq, substitute_onLine vars file number first]
      cases hout : substitute vars ⟨file, number⟩ line with
      | error fault =>
          exact Or.inr ⟨[], line, rest, fault, [], rfl, substitute_plain (by simp), hout, rfl, rfl⟩
      | ok out =>
          rcases ih (first + 1) hrest with ⟨outs, houts, hflat⟩ |
            ⟨earlier, bad, later, fault, before, rfl, hbefore, hbad, hflat, hlines⟩
          · refine Or.inl ⟨out :: outs, ?_, ?_⟩
            · show (substituteLines vars file (first + 1) rest).map (out :: ·) = _
              rw [houts]
              rfl
            · show (substitute vars ⟨file, number⟩ rest.flatten).map (out ++ ·) = _
              rw [hflat]
              rfl
          · have hearlier : ∀ l ∈ earlier, Balanced l := fun l hl => hrest l (by simp [hl])
            refine Or.inr ⟨line :: earlier, bad, later, fault, out ++ before, rfl, ?_, hbad, ?_, ?_⟩
            · rw [List.flatten_cons, substitute_append hline (balanced_flatten hearlier), hout,
                hbefore]
              rfl
            · show (substitute vars ⟨file, number⟩ _).map (out ++ ·) = _
              rw [hflat]
              rfl
            · show (substituteLines vars file (first + 1) _).map (out :: ·) = _
              have hnumber : first + 1 + earlier.length = first + (line :: earlier).length := by
                rw [List.length_cons]
                omega
              rw [hlines, hnumber]
              rfl

/-- If all lines of a text file are balanced, rendering it gives what substituting the text as one
line gives, and where they fail, they fail for the same token and in the same way.  The line that
rendering tells is the one which holds that token. -/
theorem render_as_one_line {fs : FileSystem} {path : Path}
    (hfile : fs.read path = .ok (.bytes (String.ofList text).toUTF8))
    (hbalanced : ∀ line ∈ lines text, line.count marker % 2 = 0) (vars : Variables)
    (number : Nat) :
    (∃ out, substitute vars ⟨path.display, number⟩ text = .ok out ∧
      Job.on (Deck.render vars path) fs = (.ok out, fs)) ∨
    ∃ earlier front token back later fault,
      lines text = earlier ++ (front ++ marker :: (token ++ marker :: back)) :: later ∧
      Fails vars ⟨path.display, number⟩ (earlier.flatten ++ front) token fault ∧
      substitute vars ⟨path.display, number⟩ text = .error fault ∧
      Job.on (Deck.render vars path) fs =
        (.error (fault.onLine (earlier.length + 1)), fs) := by
  have hlines : ∀ line ∈ lines text, Balanced line := fun line hline =>
    balanced_iff.2 (hbalanced line hline)
  have hrender : Job.on (Deck.render vars path) fs =
      ((substituteLines vars path.display 1 (lines text)).map List.flatten, fs) := by
    rw [Deck.on_render, FileSystem.deck, FileSystem.text_of_read hfile]
    show ((Deck.ofTemplate vars path text).map Deck.contents, fs) = _
    rw [Deck.ofTemplate_eq]
    cases substituteLines vars path.display 1 (lines text) <;> rfl
  rw [hrender]
  rcases substituteLines_cases vars path.display number 1 hlines with ⟨outs, houts, hflat⟩ |
    ⟨earlier, line, later, fault, before, hcut, hbefore, hline, hflat, hfails⟩
  · rw [flatten_lines] at hflat
    rw [houts]
    exact Or.inl ⟨outs.flatten, hflat, rfl⟩
  · rw [flatten_lines] at hflat
    have hearlier : Balanced earlier.flatten :=
      balanced_flatten fun l hl => hlines l (by simp [hcut, hl])
    obtain ⟨front, token, back, rfl, htoken⟩ :=
      fails_of_substitute (hlines line (by simp [hcut])) hline
    refine Or.inr ⟨earlier, front, token, back, later, fault, hcut, ?_, hflat, ?_⟩
    · refine ⟨hearlier.append htoken.balanced, htoken.marker_not_mem, ?_, htoken.fails⟩
      rw [hearlier.tokens_append]
      intro t ht
      rcases List.mem_append.1 ht with ht | ht
      · exact resolve_of_substitute hearlier hbefore t ht
      · exact htoken.resolved t ht
    · rw [hfails, Nat.add_comm]
      rfl

/-! A template whose second line has a token without a value. -/

def faultyText : List Char := "?m? a\nb ?m??n?\n?n?".toList

def faultyFile : FileSystem :=
  FileSystem.root.insert [Text.utf8 "a.g"] (.file (.bytes (String.ofList faultyText).toUTF8))

theorem render_faultyFile :
    (∀ line ∈ lines faultyText, line.count marker % 2 = 0) ∧
    ∃ earlier front token back later fault,
      lines faultyText = earlier ++ (front ++ marker :: (token ++ marker :: back)) :: later ∧
      Fails gridVariables ⟨"a.g", 7⟩ (earlier.flatten ++ front) token fault ∧
      substitute gridVariables ⟨"a.g", 7⟩ faultyText = .error fault ∧
      Job.on (Deck.render gridVariables (.ofString "a.g")) faultyFile =
        (.error (fault.onLine (earlier.length + 1)), faultyFile) := by
  have hfile : faultyFile.read (.ofString "a.g") =
      .ok (.bytes (String.ofList faultyText).toUTF8) := rfl
  have hbalanced : ∀ line ∈ lines faultyText, line.count marker % 2 = 0 := by decide
  have hfault : substitute gridVariables ⟨"a.g", 7⟩ faultyText =
      .error (.missingKey "n" ⟨"a.g", 7⟩) := rfl
  refine ⟨hbalanced, (render_as_one_line hfile hbalanced gridVariables 7).resolve_left ?_⟩
  rintro ⟨out, hout, -⟩
  have hsame := hfault.symm.trans hout
  simp at hsame

end Template
end InputDeck
