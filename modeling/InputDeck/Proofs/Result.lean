/-
Results of steps that may fail, and of passes that take such a step for each item of a list.

A pass that succeeds has a result for every item; one that fails ends at the first item whose step
fails.
-/
import Mathlib.Data.List.Forall2

namespace InputDeck
namespace Result

variable {α β ε : Type}

/-! ## One step -/

theorem map_eq_ok_iff {x : Except ε α} {f : α → β} {b : β} :
    x.map f = .ok b ↔ ∃ a, x = .ok a ∧ f a = b := by
  cases x <;> simp [Except.map]

theorem map_eq_error_iff {x : Except ε α} {f : α → β} {fault : ε} :
    x.map f = .error fault ↔ x = .error fault := by
  cases x <;> simp [Except.map]

theorem bind_eq_ok_iff {x : Except ε α} {f : α → Except ε β} {b : β} :
    x.bind f = .ok b ↔ ∃ a, x = .ok a ∧ f a = .ok b := by
  cases x <;> simp [Except.bind]

theorem bind_eq_error_iff {x : Except ε α} {f : α → Except ε β} {fault : ε} :
    x.bind f = .error fault ↔ x = .error fault ∨ ∃ a, x = .ok a ∧ f a = .error fault := by
  cases x <;> simp [Except.bind]

/-! ## Passes -/

variable {f : α → Except ε β}

theorem mapM_cons (f : α → Except ε β) (item : α) (rest : List α) :
    (item :: rest).mapM f = (f item).bind fun image => (rest.mapM f).map (image :: ·) := by
  rw [List.mapM_cons]
  cases f item with
  | error fault => rfl
  | ok image => cases rest.mapM f <;> rfl

theorem forall₂_of_mapM {items : List α} {images : List β} (h : items.mapM f = .ok images) :
    List.Forall₂ (fun item image => f item = .ok image) items images := by
  induction items generalizing images with
  | nil =>
      obtain rfl := Except.ok.inj h
      exact .nil
  | cons item rest ih =>
      rw [mapM_cons] at h
      obtain ⟨image, hitem, hrest⟩ := bind_eq_ok_iff.1 h
      obtain ⟨more, hmore, rfl⟩ := map_eq_ok_iff.1 hrest
      exact .cons hitem (ih hmore)

theorem mapM_eq_ok_iff {items : List α} {images : List β} : items.mapM f = .ok images ↔
    List.Forall₂ (fun item image => f item = .ok image) items images := by
  refine ⟨forall₂_of_mapM, ?_⟩
  intro h
  induction h with
  | nil => rfl
  | cons hitem _ ih =>
      rw [mapM_cons, hitem, ih]
      rfl

theorem exists_right {R : α → β → Prop} {items : List α} {images : List β}
    (h : List.Forall₂ R items images) {item : α} (hmem : item ∈ items) :
    ∃ image ∈ images, R item image := by
  induction h with
  | nil => simp at hmem
  | @cons first image rest more hfirst hrest ih =>
      rcases List.mem_cons.1 hmem with rfl | hmem
      · exact ⟨image, List.mem_cons_self, hfirst⟩
      · obtain ⟨found, hfound, hR⟩ := ih hmem
        exact ⟨found, List.mem_cons_of_mem _ hfound, hR⟩

theorem exists_left {R : α → β → Prop} {items : List α} {images : List β}
    (h : List.Forall₂ R items images) {image : β} (hmem : image ∈ images) :
    ∃ item ∈ items, R item image :=
  exists_right h.flip hmem

theorem first_of_mapM {items : List α} {fault : ε} (h : items.mapM f = .error fault) :
    ∃ before item after, items = before ++ item :: after ∧ f item = .error fault ∧
      ∀ b ∈ before, ∃ image, f b = .ok image := by
  induction items with
  | nil => simp [pure, Except.pure] at h
  | cons item rest ih =>
      rw [mapM_cons] at h
      rcases bind_eq_error_iff.1 h with hitem | ⟨image, hitem, hrest⟩
      · exact ⟨[], item, rest, rfl, hitem, by simp⟩
      · obtain ⟨before, found, after, hsplit, hfound, hbefore⟩ := ih (map_eq_error_iff.1 hrest)
        refine ⟨item :: before, found, after, by rw [hsplit, List.cons_append], hfound, ?_⟩
        intro b hb
        rcases List.mem_cons.1 hb with rfl | hb
        · exact ⟨image, hitem⟩
        · exact hbefore b hb

theorem mapM_append_cons {before after : List α} {item : α} {fault : ε}
    (hbefore : ∀ b ∈ before, ∃ image, f b = .ok image) (hitem : f item = .error fault) :
    (before ++ item :: after).mapM f = .error fault := by
  induction before with
  | nil =>
      rw [List.nil_append, mapM_cons, hitem]
      rfl
  | cons b rest ih =>
      obtain ⟨image, himage⟩ := hbefore b List.mem_cons_self
      rw [List.cons_append, mapM_cons, himage,
        ih fun b hb => hbefore b (List.mem_cons_of_mem _ hb)]
      rfl

theorem mapM_eq_error_iff {items : List α} {fault : ε} : items.mapM f = .error fault ↔
    ∃ before item after, items = before ++ item :: after ∧ f item = .error fault ∧
      ∀ b ∈ before, ∃ image, f b = .ok image := by
  refine ⟨first_of_mapM, ?_⟩
  rintro ⟨before, item, after, rfl, hitem, hbefore⟩
  exact mapM_append_cons hbefore hitem

end Result
end InputDeck
