/-
Strings stand in the order of their bytes.

UTF-8 keeps the order of characters: the bytes of two characters differ somewhere, and where they
first differ the smaller character has the smaller byte.  So comparing strings character by
character, as the keys of a table are compared, is comparing them byte by byte.
-/
import InputDeck.Text.Utf8

namespace InputDeck
namespace Text

/-! ## Characters -/

/-- The six-bit groups of a character, and the bytes that carry them. -/
theorem utf8EncodeChar_cases (c : Char) :
    (∃ w, c.val.toNat = w ∧ w < 128 ∧ String.utf8EncodeChar c = [.ofNat w]) ∨
    (∃ w x, c.val.toNat = 64 * w + x ∧ 2 ≤ w ∧ w < 32 ∧ x < 64 ∧
      String.utf8EncodeChar c = [.ofNat (w + 192), .ofNat (x + 128)]) ∨
    (∃ w x y, c.val.toNat = 4096 * w + 64 * x + y ∧ w < 16 ∧ x < 64 ∧ y < 64 ∧
      2048 ≤ c.val.toNat ∧
      String.utf8EncodeChar c = [.ofNat (w + 224), .ofNat (x + 128), .ofNat (y + 128)]) ∨
    (∃ w x y z, c.val.toNat = 262144 * w + 4096 * x + 64 * y + z ∧ w < 8 ∧ x < 64 ∧ y < 64 ∧
      z < 64 ∧ 65536 ≤ c.val.toNat ∧
      String.utf8EncodeChar c =
        [.ofNat (w + 240), .ofNat (x + 128), .ofNat (y + 128), .ofNat (z + 128)]) := by
  have hmax : c.val.toNat < 1114112 := by
    rcases c.valid with h | ⟨-, h⟩ <;> omega
  unfold String.utf8EncodeChar
  dsimp only
  by_cases h1 : c.val.toNat ≤ 127
  · exact Or.inl ⟨_, rfl, by omega, if_pos h1⟩
  right
  rw [if_neg h1]
  by_cases h2 : c.val.toNat ≤ 2047
  · exact Or.inl ⟨_, _, by omega, by omega, by omega, by omega, if_pos h2⟩
  right
  rw [if_neg h2]
  by_cases h3 : c.val.toNat ≤ 65535
  · exact Or.inl ⟨_, _, _, by omega, by omega, by omega, by omega, by omega, if_pos h3⟩
  · exact Or.inr ⟨_, _, _, _, by omega, by omega, by omega, by omega, by omega, by omega, if_neg h3⟩

/-- The first byte tells how many there are, and a longer character is a greater one. -/
theorem utf8EncodeChar_append_lt {c d : Char} (h : c < d) (back back' : List UInt8) :
    String.utf8EncodeChar c ++ back < String.utf8EncodeChar d ++ back' := by
  have hlt : c.val.toNat < d.val.toNat := h
  rcases utf8EncodeChar_cases c with ⟨w, hc⟩ | ⟨w, x, hc⟩ | ⟨w, x, y, hc⟩ | ⟨w, x, y, z, hc⟩ <;>
    rcases utf8EncodeChar_cases d with
      ⟨w', hd⟩ | ⟨w', x', hd⟩ | ⟨w', x', y', hd⟩ | ⟨w', x', y', z', hd⟩ <;>
    simp only [hc, hd, List.cons_append, List.nil_append, List.cons_lt_cons_iff,
      UInt8.lt_iff_toNat_lt, ← UInt8.toNat_inj, UInt8.toNat_ofNat'] <;>
    omega

/-! ## Strings -/

theorem utf8_eq_flatMap (s : String) : utf8 s = s.toList.flatMap String.utf8EncodeChar := by
  unfold utf8 String.toUTF8
  rw [← String.utf8Encode_toList, List.utf8Encode, List.toList_data_toByteArray]

theorem flatMap_utf8EncodeChar_lt {cs ds : List Char} (h : cs < ds) :
    cs.flatMap String.utf8EncodeChar < ds.flatMap String.utf8EncodeChar := by
  induction cs generalizing ds with
  | nil =>
      cases ds with
      | nil => exact absurd h (List.lt_irrefl _)
      | cons d ds =>
          obtain ⟨b, rest, hd⟩ := List.exists_cons_of_ne_nil (String.utf8EncodeChar_ne_nil (c := d))
          rw [List.flatMap_cons, hd]
          exact List.nil_lt_cons ..
  | cons c cs ih =>
      cases ds with
      | nil => exact absurd h (List.not_lt_nil _)
      | cons d ds =>
          rw [List.flatMap_cons, List.flatMap_cons]
          rcases List.cons_lt_cons_iff.1 h with hlt | ⟨rfl, hlt⟩
          · exact utf8EncodeChar_append_lt hlt _ _
          · exact List.append_left_lt (ih hlt)

theorem utf8_lt_of_compare {s t : String} (h : compare s t = .lt) : utf8 s < utf8 t := by
  have hlt : s < t := compareOfLessAndEq_eq_lt.1 h
  rw [utf8_eq_flatMap, utf8_eq_flatMap]
  exact flatMap_utf8EncodeChar_lt hlt

/-- The order in which tables keep names is the order of their bytes. -/
theorem compare_eq_lt_iff {s t : String} : compare s t = .lt ↔ utf8 s < utf8 t := by
  refine ⟨utf8_lt_of_compare, ?_⟩
  intro h
  match hcompare : compare s t with
  | .lt => rfl
  | .eq =>
      obtain rfl := Std.LawfulEqOrd.eq_of_compare hcompare
      exact absurd h (List.lt_irrefl _)
  | .gt =>
      have hback := utf8_lt_of_compare (Std.OrientedCmp.lt_of_gt hcompare)
      exact absurd (List.lt_trans h hback) (List.lt_irrefl _)

end Text
end InputDeck
