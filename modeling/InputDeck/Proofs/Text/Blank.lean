/-
Text between blanks.

Trimming takes the blanks off both ends of a text and leaves one without: `trim_between` says so of
a text that has none there, and `trimmed_trim` that every text comes to such a one, or to nothing.
-/
import Mathlib.Data.List.DropRight
import InputDeck.Text.Blank

namespace InputDeck
namespace Text

/-- That there is text, and that it neither begins nor ends with a blank. -/
structure Trimmed (cs : List Char) : Prop where
  ne_nil : cs ≠ []
  first : ∀ c ∈ cs.head?, isBlank c = false
  last : ∀ c ∈ cs.getLast?, isBlank c = false

theorem trim_eq (cs : List Char) : trim cs = (cs.dropWhile isBlank).rdropWhile isBlank := rfl

variable {before cs after : List Char}

theorem rdropWhile_append {α : Type} {p : α → Bool} (items : List α) {more : List α}
    (h : ∀ a ∈ more, p a = true) : (items ++ more).rdropWhile p = items.rdropWhile p := by
  induction more using List.reverseRecOn with
  | nil => rw [List.append_nil]
  | append_singleton more a ih =>
      rw [← List.append_assoc, List.rdropWhile_concat_pos _ _ _ (h a (by simp))]
      exact ih fun b hb => h b (List.mem_append_left _ hb)

theorem trimmed_of_forall (hne : cs ≠ []) (h : ∀ c ∈ cs, isBlank c = false) : Trimmed cs where
  ne_nil := hne
  first c hc := h c (List.mem_of_mem_head? hc)
  last c hc := h c (List.mem_of_getLast? hc)

theorem Trimmed.append (hbefore : Trimmed before) (hafter : Trimmed after) (cs : List Char) :
    Trimmed (before ++ cs ++ after) where
  ne_nil := by simp [hbefore.ne_nil]
  first c hc := by
    rw [List.append_assoc, List.head?_append_of_ne_nil _ hbefore.ne_nil] at hc
    exact hbefore.first c hc
  last c hc := by
    rw [List.getLast?_append_of_ne_nil _ hafter.ne_nil] at hc
    exact hafter.last c hc

theorem trimmed_intercalate {pieces : List (List Char)} (hne : pieces ≠ [])
    (h : ∀ piece ∈ pieces, Trimmed piece) (sep : List Char) : Trimmed (sep.intercalate pieces) := by
  induction pieces with
  | nil => exact absurd rfl hne
  | cons first rest ih =>
      cases rest with
      | nil =>
          rw [List.intercalate_singleton]
          exact h first (by simp)
      | cons next rest =>
          rw [List.intercalate_cons_cons]
          have hrest := ih (by simp) fun piece hpiece => h piece (List.mem_cons_of_mem _ hpiece)
          exact (h first List.mem_cons_self).append hrest sep

theorem trim_between (h : Trimmed cs) (hbefore : ∀ c ∈ before, isBlank c = true)
    (hafter : ∀ c ∈ after, isBlank c = true) : trim (before ++ cs ++ after) = cs := by
  obtain ⟨c, rest, rfl⟩ := List.exists_cons_of_ne_nil h.ne_nil
  have hfirst : ¬isBlank c = true := by simp [h.first c (by simp)]
  have hself : (c :: rest).rdropWhile isBlank = c :: rest := by
    rw [List.rdropWhile_eq_self_iff]
    intro hne
    have hlast := h.last _ (List.getLast?_eq_some_getLast hne)
    simp [hlast]
  rw [trim_eq, List.append_assoc, List.dropWhile_append_of_pos hbefore, List.cons_append,
    List.dropWhile_cons_of_neg hfirst, ← List.cons_append, rdropWhile_append _ hafter, hself]

theorem trim_of_trimmed (h : Trimmed cs) : trim cs = cs := by
  have hbetween : trim ([] ++ cs ++ []) = cs := trim_between h (by simp) (by simp)
  simpa using hbetween

/-- Blanks put around a text are gone when it is trimmed, whatever the text is. -/
theorem trim_append_blanks (hbefore : ∀ c ∈ before, isBlank c = true)
    (hafter : ∀ c ∈ after, isBlank c = true) : trim (before ++ cs ++ after) = trim cs := by
  rw [trim_eq, trim_eq, List.append_assoc, List.dropWhile_append_of_pos hbefore]
  by_cases hcs : ∀ c ∈ cs, isBlank c = true
  · have hall : ∀ c ∈ cs ++ after, isBlank c = true := by
      intro c hc
      exact (List.mem_append.1 hc).elim (hcs c) (hafter c)
    rw [List.dropWhile_eq_nil_iff.2 hall, List.dropWhile_eq_nil_iff.2 hcs]
  · have hne : cs.dropWhile isBlank ≠ [] := fun hnil => hcs (List.dropWhile_eq_nil_iff.1 hnil)
    rw [List.dropWhile_append, if_neg (by simpa using hne), rdropWhile_append _ hafter]

theorem exists_trim (cs : List Char) :
    ∃ before after, (∀ c ∈ before, isBlank c = true) ∧ (∀ c ∈ after, isBlank c = true) ∧
      cs = before ++ trim cs ++ after := by
  refine ⟨cs.takeWhile isBlank, (cs.dropWhile isBlank).rtakeWhile isBlank, ?_, ?_, ?_⟩
  · exact fun c hc => List.all_eq_true.1 List.all_takeWhile c hc
  · exact fun c hc => List.mem_rtakeWhile_imp hc
  · rw [trim_eq, List.append_assoc, List.rdropWhile_append_rtakeWhile,
      List.takeWhile_append_dropWhile]

theorem trim_eq_nil_iff : trim cs = [] ↔ ∀ c ∈ cs, isBlank c = true := by
  rw [trim_eq, List.rdropWhile_eq_nil_iff]
  constructor
  · intro h c hc
    rw [← List.takeWhile_append_dropWhile (p := isBlank) (l := cs)] at hc
    rcases List.mem_append.1 hc with hc | hc
    · exact List.all_eq_true.1 List.all_takeWhile c hc
    · exact h c hc
  · intro h c hc
    exact h c ((List.dropWhile_sublist isBlank).subset hc)

theorem trimmed_trim (h : trim cs ≠ []) : Trimmed (trim cs) where
  ne_nil := h
  first := by
    intro c hc
    obtain ⟨rest, hrest⟩ := List.head?_eq_some_iff.1 hc
    obtain ⟨tail, htail⟩ : trim cs <+: cs.dropWhile isBlank := List.rdropWhile_prefix _ _
    rw [hrest, List.cons_append] at htail
    have hhead := List.head?_dropWhile_not (p := isBlank) (l := cs)
    rw [← htail] at hhead
    simpa using hhead
  last := by
    intro c hc
    have hlast : ¬isBlank ((trim cs).getLast h) = true := List.rdropWhile_last_not _ _ h
    rw [List.getLast?_eq_some_getLast h] at hc
    obtain rfl := Option.some.inj hc
    simpa using hlast

end Text
end InputDeck
