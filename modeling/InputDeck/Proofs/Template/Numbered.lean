/-
Variables by number and by name.

Numbered variables can be had by name as well, each under the decimal of its number.  A template
whose tokens are such decimals comes to the same either way, for each look-up finds the same number;
and since none fails, rendering ends with a deck or at the first line with an odd number of markers
(`render_by_number_or_name`).

The tokens of an unbalanced line are never looked up, so nothing is asked of them.  There are fewer
than 2^63 variables, as in every list that a memory holds: numbers from there on would be names, but
no indices.
-/
import InputDeck.Proofs.Number.Canonical
import InputDeck.Proofs.Table.Contents
import InputDeck.Proofs.Template.Indices
import InputDeck.Proofs.Template.Lines

namespace InputDeck

open Number

namespace Variables

/-- Numbered variables under the decimals of their numbers. -/
def numbered (values : List Scalar) : Table String Value :=
  .ofList ((values.zipIdx 1).map fun e => (String.ofList (Nat.toDigits 10 e.2), .scalar e.1))

theorem toDigits_injective : Function.Injective fun k => String.ofList (Nat.toDigits 10 k) := by
  intro a b h
  rw [← ofDigits_toDigits a, ← ofDigits_toDigits b, String.ofList_injective h]

theorem get?_numbered {values : List Scalar} {k : Nat} (hk : k < values.length) :
    (numbered values).get? (String.ofList (Nat.toDigits 10 (k + 1))) =
      some (.scalar values[k]) := by
  have hdistinct : ((values.zipIdx 1).map fun e =>
      (String.ofList (Nat.toDigits 10 e.2), Value.scalar e.1)).Pairwise fun a b => a.1 ≠ b.1 := by
    have hnumbers : ((values.zipIdx 1).map Prod.snd).Nodup := by
      rw [List.zipIdx_map_snd]
      exact List.nodup_range'
    rw [List.pairwise_map]
    exact (List.pairwise_map.1 hnumbers).imp fun hne => toDigits_injective.ne hne
  rw [numbered, Table.get?_ofList, Table.lookup_reverse hdistinct,
    Table.lookup_eq_some_iff hdistinct]
  refine List.mem_map.2 ⟨(values[k], k + 1), ?_, rfl⟩
  rw [List.mem_zipIdx_iff_le_and_getElem?_sub]
  exact ⟨by omega, by simp⟩

end Variables

namespace Template

open Variables

/-- That a token is the number of a variable, written as decimals are. -/
structure IsNumberOf (values : List Scalar) (token : List Char) : Prop where
  isTight : IsTight token
  pos : 1 ≤ ofDigits token
  le : ofDigits token ≤ values.length

variable {values : List Scalar} {token line : List Char}

theorem isNumberOf_toDigits {k : Nat} (hpos : 1 ≤ k) (hle : k ≤ values.length) :
    IsNumberOf values (Nat.toDigits 10 k) where
  isTight := isTight_toDigits k
  pos := by rwa [ofDigits_toDigits]
  le := by rwa [ofDigits_toDigits]

/-- The variable is found by number as by name. -/
theorem IsNumberOf.exists_text (hsize : values.length < 0x8000000000000000)
    (h : IsNumberOf values token) (place : Place) :
    ∃ text, numberedText values place token = .ok text ∧
      namedText (numbered values) place token = .ok text := by
  have hpos := h.pos
  have hle := h.le
  obtain ⟨k, hk⟩ : ∃ k, ofDigits token = k + 1 := ⟨ofDigits token - 1, by omega⟩
  have hlt : k < values.length := by omega
  have hwhole : IsWhole token (ofDigits token) := .unsigned h.isTight.toIsRow
  obtain ⟨i, hi⟩ := exists_int64? (n := (ofDigits token : Int)) ⟨by omega, by omega⟩
  have hread : readInt64 (Text.trim token) = some i := by
    rw [Text.trim_of_trimmed hwhole.trimmed, hwhole.readInt64_eq, hi]
  have hindex : i.toInt = k + 1 := by
    rw [toInt_of_int64? hi, hk]
    rfl
  have hname : String.ofList token = String.ofList (Nat.toDigits 10 (k + 1)) := by
    rw [← hk, toDigits_ofDigits h.isTight]
  refine ⟨values[k].text, numberedText_of_number place hlt hread hindex, ?_⟩
  rw [namedText, hname, get?_numbered hlt]
  rfl

theorem substitute_by_number_or_name (hsize : values.length < 0x8000000000000000)
    (h : Balanced line → ∀ token ∈ tokens line, IsNumberOf values token) (place : Place) :
    substitute (.positional values) place line =
      substitute (.named (numbered values)) place line := by
  by_cases hbalanced : Balanced line
  · refine substitute_congr (resolves_numberedText values place)
      (resolves_namedText (numbered values) place) hbalanced ?_
    intro token htoken
    obtain ⟨text, hnumber, hname⟩ := (h hbalanced token htoken).exists_text hsize place
    rw [hnumber, hname]
  · rw [substitute_of_not_balanced hbalanced, substitute_of_not_balanced hbalanced]

/-- Lines whose tokens are numbers come to something, one and all, unless a line is unbalanced. -/
theorem substituteLines_by_number (hsize : values.length < 0x8000000000000000) (file : String)
    {first : Nat} {template : List (List Char)}
    (h : ∀ line ∈ template, Balanced line → ∀ token ∈ tokens line, IsNumberOf values token) :
    ((∀ line ∈ template, Balanced line) ∧
      ∃ outs, substituteLines (.positional values) file first template = .ok outs) ∨
    ∃ earlier line later, template = earlier ++ line :: later ∧ (∀ l ∈ earlier, Balanced l) ∧
      ¬Balanced line ∧ substituteLines (.positional values) file first template =
        .error (.unbalanced ⟨file, earlier.length + first⟩) := by
  cases hpass : substituteLines (.positional values) file first template with
  | ok outs => exact Or.inl ⟨(become_of_substituteLines hpass).2.balanced, outs, rfl⟩
  | error fault =>
      obtain ⟨earlier, line, later, rfl, ⟨outs, hbecome⟩, hline⟩ := first_of_substituteLines hpass
      -- A balanced line cannot be the one that fails, for all its tokens have values.
      have hbad : ¬Balanced line := by
        intro hbalanced
        have hnumbers := h line (by simp) hbalanced
        obtain ⟨out, hout⟩ := substitute_of_lookUp
          (resolves_numberedText values ⟨file, earlier.length + first⟩) hbalanced fun token ht =>
            (IsNumberOf.exists_text hsize (hnumbers token ht) _).imp fun _ htext => htext.1
        simp [hout] at hline
      rw [substitute_of_not_balanced hbad] at hline
      rw [← Except.error.inj hline]
      exact Or.inr ⟨earlier, line, later, rfl, hbecome.balanced, hbad, rfl⟩

/-- If the tokens of a text file are decimals of the numbers of variables, rendering it with these
in their order is the same as with these under their decimals.  It gives a deck if all lines are
balanced, and else tells the first that is not. -/
theorem render_by_number_or_name {fs : FileSystem} {path : Path} {text : List Char}
    (hfile : fs.read path = .ok (.bytes (String.ofList text).toUTF8))
    (hsize : values.length < 0x8000000000000000)
    (htokens : ∀ line ∈ lines text, line.count marker % 2 = 0 →
      ∀ token ∈ tokens line, IsNumberOf values token) :
    Job.on (Deck.render (.positional values) path) fs =
        Job.on (Deck.render (.named (numbered values)) path) fs ∧
      (((∀ line ∈ lines text, line.count marker % 2 = 0) ∧
          ∃ out, Job.on (Deck.render (.positional values) path) fs = (.ok out, fs)) ∨
        ∃ earlier line later, lines text = earlier ++ line :: later ∧
          (∀ l ∈ earlier, l.count marker % 2 = 0) ∧ line.count marker % 2 = 1 ∧
          Job.on (Deck.render (.positional values) path) fs =
            (.error (.unbalanced ⟨path.display, earlier.length + 1⟩), fs)) := by
  simp only [← balanced_iff] at htokens ⊢
  rw [Deck.on_render_text hfile, Deck.on_render_text hfile]
  constructor
  · rw [substituteLines_congr fun line hline place =>
      substitute_by_number_or_name hsize (htokens line hline) place]
  · rcases substituteLines_by_number hsize path.display htokens with
      ⟨hbalanced, outs, houts⟩ | ⟨earlier, line, later, hcut, hearlier, hline, hfault⟩
    · rw [houts]
      exact Or.inl ⟨hbalanced, outs.flatten, rfl⟩
    · rw [balanced_iff] at hline
      rw [hfault]
      exact Or.inr ⟨earlier, line, later, hcut, hearlier, Nat.mod_two_ne_zero.1 hline, rfl⟩

/-! The first ten squares, of which the tenth comes second in the order of names. -/

def squares : List Scalar := (List.range 10).map fun k => .integer (.ofNat (k * k))

def squaresText : List Char := "a ?10?\n?2? ?1?\n".toList

def squaresFile : FileSystem :=
  FileSystem.root.insert [Text.utf8 "a.g"] (.file (.bytes (String.ofList squaresText).toUTF8))

theorem render_by_number_or_name_squares :
    squaresFile.read (.ofString "a.g") = .ok (.bytes (String.ofList squaresText).toUTF8) ∧
      squares.length < 0x8000000000000000 ∧
      (∀ line ∈ lines squaresText, line.count marker % 2 = 0 →
        ∀ token ∈ tokens line, IsNumberOf squares token) ∧
      Job.on (Deck.render (.named (numbered squares)) (.ofString "a.g")) squaresFile =
        (.ok "a 81\n1 0\n".toList, squaresFile) := by
  have hfile : squaresFile.read (.ofString "a.g") =
      .ok (.bytes (String.ofList squaresText).toUTF8) := rfl
  have hsize : squares.length < 0x8000000000000000 := by decide
  have htokens : ∀ line ∈ lines squaresText, line.count marker % 2 = 0 →
      ∀ token ∈ tokens line, IsNumberOf squares token := by
    intro line hline _ token htoken
    have hnumber : ∃ k ∈ [10, 2, 1], token = Nat.toDigits 10 k := by
      revert line token
      decide
    obtain ⟨k, hk, rfl⟩ := hnumber
    have hrange : ∀ k ∈ [10, 2, 1], 1 ≤ k ∧ k ≤ squares.length := by decide
    exact isNumberOf_toDigits (hrange k hk).1 (hrange k hk).2
  refine ⟨hfile, hsize, htokens, ?_⟩
  rw [← (render_by_number_or_name hfile hsize htokens).1, Deck.on_render_text hfile]
  rfl

end Template
end InputDeck
