/-
Lists cut into pieces at a separator, and pieces put together with one.

A cut leaves no separator in a piece and one piece more than there are separators.  Of a list put
together from pieces, what stands before the first piece can be taken into it.
-/

namespace InputDeck
namespace Text

variable {α : Type}

theorem mem_intercalate {sep c : α} {pieces : List (List α)}
    (h : c ∈ [sep].intercalate pieces) : c = sep ∨ ∃ piece ∈ pieces, c ∈ piece := by
  induction pieces with
  | nil => simp at h
  | cons piece rest ih =>
      cases rest with
      | nil => exact Or.inr ⟨piece, by simp, by simpa using h⟩
      | cons next rest =>
          rw [List.intercalate_cons_cons] at h
          simp only [List.append_assoc, List.mem_append, List.mem_singleton] at h
          rcases h with h | h | h
          · exact Or.inr ⟨piece, by simp, h⟩
          · exact Or.inl h
          · rcases ih h with h | ⟨p, hp, hc⟩
            · exact Or.inl h
            · exact Or.inr ⟨p, List.mem_cons_of_mem _ hp, hc⟩

theorem mem_intercalate_of_mem {sep c : α} {piece : List α} {pieces : List (List α)}
    (h : piece ∈ pieces) (hc : c ∈ piece) : c ∈ [sep].intercalate pieces := by
  induction pieces with
  | nil => simp at h
  | cons first rest ih =>
      cases rest with
      | nil =>
          obtain rfl := List.mem_singleton.1 h
          simpa using hc
      | cons next rest =>
          rw [List.intercalate_cons_cons]
          rcases List.mem_cons.1 h with rfl | h
          · simp [hc]
          · simp [ih h]

theorem filter_intercalate {p : α → Bool} {sep : α} (h : p sep = false) (pieces : List (List α)) :
    ([sep].intercalate pieces).filter p = pieces.flatMap (List.filter p) := by
  induction pieces with
  | nil => simp
  | cons piece rest ih =>
      cases rest with
      | nil => simp
      | cons next rest =>
          have hsep : [sep].filter p = [] := by simp [h]
          simp only [List.intercalate_cons_cons, List.filter_append, hsep, ih, List.append_nil,
            List.flatMap_cons]

theorem append_intercalate (sep front piece : List α) (rest : List (List α)) :
    front ++ sep.intercalate (piece :: rest) = sep.intercalate ((front ++ piece) :: rest) := by
  cases rest with
  | nil => simp
  | cons next rest => simp [List.intercalate_cons_cons, List.append_assoc]

theorem length_splitOn [BEq α] (sep : α) (cs : List α) :
    (cs.splitOn sep).length = cs.count sep + 1 := by
  induction cs with
  | nil => simp
  | cons c rest ih =>
      rw [List.splitOn_cons_eq_if_modifyHead, List.count_cons]
      split <;> simp [ih]

theorem count_intercalate [BEq α] [LawfulBEq α] {sep : α} {pieces : List (List α)}
    (h : ∀ piece ∈ pieces, sep ∉ piece) :
    ([sep].intercalate pieces).count sep = pieces.length - 1 := by
  cases pieces with
  | nil => simp
  | cons piece rest =>
      have hlength := length_splitOn sep ([sep].intercalate (piece :: rest))
      rw [List.splitOn_intercalate sep h (by simp)] at hlength
      omega

theorem not_mem_of_mem_splitOn [BEq α] [LawfulBEq α] {sep : α} {cs piece : List α}
    (h : piece ∈ cs.splitOn sep) : sep ∉ piece := by
  induction cs generalizing piece with
  | nil =>
      rw [List.splitOn_nil, List.mem_singleton] at h
      simp [h]
  | cons c rest ih =>
      rw [List.splitOn_cons_eq_if_modifyHead] at h
      split at h
      · rcases List.mem_cons.1 h with rfl | h
        · simp
        · exact ih h
      · rename_i hc
        obtain ⟨first, more, hsplit⟩ := List.exists_cons_of_ne_nil (List.splitOn_ne_nil sep rest)
        rw [hsplit, List.modifyHead_cons] at h
        rcases List.mem_cons.1 h with rfl | h
        · have hne : sep ≠ c := fun e => hc (by simp [e])
          have hfirst : sep ∉ first := ih (by simp [hsplit])
          simp [hne, hfirst]
        · exact ih (by simp [hsplit, h])

theorem mem_of_mem_splitOn [BEq α] [LawfulBEq α] {sep c : α} {cs piece : List α}
    (h : piece ∈ cs.splitOn sep) (hc : c ∈ piece) : c ∈ cs := by
  have hmem : c ∈ [sep].intercalate (cs.splitOn sep) := mem_intercalate_of_mem h hc
  rwa [List.intercalate_splitOn] at hmem

end Text
end InputDeck
