/-
Which documents describe variables, and why the others do not.

`Loads` tells it by the shape of a document, without looking ahead: which values are there, in
which order, and for a document that describes nothing the one thing that is reported.  Every
document has one such description, and reading it comes to that: `ofDocument_eq_iff`.  What is read
holds the numbers of the document, each as the scalar that represents it.  A whole number which is
too large for a scalar is represented by another number (`ofDocument_too_large`).

A list of items is numbers up to some item, or throughout, and likewise rows of numbers up to some
item.  All cases come from cutting a list there (`map_or_first`).
-/
import InputDeck.Proofs.Table.Contents
import InputDeck.Proofs.Text.ByteOrder
import InputDeck.Proofs.Variables.Numbers

namespace InputDeck
namespace Variables

open Json (Kind)

/-- The array of some numbers. -/
def numbers (row : List Json.Number) : Json.Value := .array (row.map .number)

/-- What a member of a document stands for. -/
inductive Describes : Json.Value → Value → Prop
  | scalar {n : Json.Number} {s : Scalar} (h : Represents n s) : Describes (.number n) (.scalar s)
  | vector {row : List Json.Number} {items : List Scalar} (h : List.Forall₂ Represents row items) :
      Describes (numbers row) (.vector items)
  | matrix {rows : List (List Json.Number)} {items : List (List Scalar)} (hne : rows ≠ [])
      (heven : ∀ row ∈ rows, ∀ other ∈ rows, row.length = other.length)
      (h : List.Forall₂ (List.Forall₂ Represents) rows items) :
      Describes (.array (rows.map numbers)) (.matrix items)

/-- Why a member of a document stands for nothing.  One array makes all items rows; the first item
that is no row of numbers is reported, or the first element in it that is no number, and only of
rows of numbers the lengths. -/
inductive Refuses (key : String) : Json.Value → Mismatch → Prop
  | other {v : Json.Value} (hnumber : v.kind ≠ .number) (harray : v.kind ≠ .array) :
      Refuses key v (.element key v.kind)
  | item {row : List Json.Number} {item : Json.Value} {after : List Json.Value}
      (hitem : item.kind ≠ .number) (hflat : ∀ i ∈ item :: after, i.kind ≠ .array) :
      Refuses key (.array (row.map .number ++ item :: after)) (.element key item.kind)
  | row {rows : List (List Json.Number)} {item : Json.Value} {after : List Json.Value}
      (hitem : item.kind ≠ .array) (hnested : rows ≠ [] ∨ ∃ i ∈ after, i.kind = .array) :
      Refuses key (.array (rows.map numbers ++ item :: after)) (.element key item.kind)
  | cell {rows : List (List Json.Number)} {left : List Json.Number} {cell : Json.Value}
      {right after : List Json.Value} (hcell : cell.kind ≠ .number) :
      Refuses key (.array (rows.map numbers ++ .array (left.map .number ++ cell :: right) :: after))
        (.element key cell.kind)
  | lengths {rows : List (List Json.Number)} {row other : List Json.Number} (hrow : row ∈ rows)
      (hother : other ∈ rows) (hne : row.length ≠ other.length) :
      Refuses key (.array (rows.map numbers)) (.rowLengths key)

/-- What a document is read as.  Of the members of one name the last counts, and of several that
stand for nothing the one whose name has the smallest bytes. -/
inductive Loads : Json.Value → Except Fault Variables → Prop
  | null : Loads .null (.ok .absent)
  | positional {row : List Json.Number} {values : List Scalar}
      (h : List.Forall₂ Represents row values) : Loads (numbers row) (.ok (.positional values))
  | named {members : List (String × Json.Value)} {values : Table String Value}
      (h : ∀ key, Option.Rel Describes (members.reverse.lookup key) (values.get? key)) :
      Loads (.object members) (.ok (.named values))
  | item {row : List Json.Number} {item : Json.Value} {after : List Json.Value}
      (hitem : item.kind ≠ .number) :
      Loads (.array (row.map .number ++ item :: after))
        (.error (.mismatch (.positional (row.length + 1) item.kind)))
  | member {members : List (String × Json.Value)} {key : String} {v : Json.Value}
      {mismatch : Mismatch} (hmember : members.reverse.lookup key = some v)
      (h : Refuses key v mismatch)
      (hfirst : ∀ {other v'}, members.reverse.lookup other = some v' →
        Text.utf8 other < Text.utf8 key → ∃ value, Describes v' value) :
      Loads (.object members) (.error (.mismatch mismatch))
  | other {v : Json.Value} (hnull : v.kind ≠ .null) (harray : v.kind ≠ .array)
      (hobject : v.kind ≠ .object) : Loads v (.error (.mismatch (.document v.kind)))

/-! ## Numbers and rows of numbers -/

/-- The scalars of a row of numbers. -/
def scalarsOf (row : List Json.Number) : List Scalar := row.map scalarOf

theorem forall₂_represents_iff {row : List Json.Number} {items : List Scalar} :
    List.Forall₂ Represents row items ↔ scalarsOf row = items := by
  rw [scalarsOf, ← List.forall₂_eq_eq_eq, List.forall₂_map_left_iff]
  simp only [scalarOf_eq_iff]

theorem forall₂_forall₂_represents_iff {rows : List (List Json.Number)}
    {items : List (List Scalar)} :
    List.Forall₂ (List.Forall₂ Represents) rows items ↔ rows.map scalarsOf = items := by
  rw [← List.forall₂_eq_eq_eq, List.forall₂_map_left_iff]
  simp only [← forall₂_represents_iff]

theorem represents_scalarsOf (row : List Json.Number) :
    List.Forall₂ Represents row (scalarsOf row) := forall₂_represents_iff.2 rfl

theorem represents_map_scalarsOf (rows : List (List Json.Number)) :
    List.Forall₂ (List.Forall₂ Represents) rows (rows.map scalarsOf) :=
  forall₂_forall₂_represents_iff.2 rfl

theorem number?_eq_none {v : Json.Value} (h : v.kind ≠ .number) : number? v = none := by
  cases v with
  | number n => exact absurd rfl h
  | _ => rfl

theorem kind_ne_number {v : Json.Value} (h : ∀ n, v ≠ .number n) : v.kind ≠ .number := by
  cases v with
  | number n => exact absurd rfl (h n)
  | _ => simp [Json.Value.kind]

theorem map_or_first {α β : Type} (f : α → β) (items : List β) :
    ∃ front : List α, items = front.map f ∨
      ∃ item after, (∀ a, item ≠ f a) ∧ items = front.map f ++ item :: after := by
  induction items with
  | nil => exact ⟨[], Or.inl rfl⟩
  | cons first rest ih =>
      by_cases hfirst : ∃ a, first = f a
      · obtain ⟨a, rfl⟩ := hfirst
        obtain ⟨front, rfl | ⟨item, after, hitem, rfl⟩⟩ := ih
        · exact ⟨a :: front, Or.inl rfl⟩
        · exact ⟨a :: front, Or.inr ⟨item, after, hitem, rfl⟩⟩
      · exact ⟨[], Or.inr ⟨first, rest, fun a he => hfirst ⟨a, he⟩, rfl⟩⟩

theorem readNumbers_map (key : String) (row : List Json.Number) :
    readNumbers key (row.map .number) = .ok (scalarsOf row) := by
  induction row with
  | nil => rfl
  | cons n rest ih => simp [readNumbers, number?, ih, Except.map, scalarsOf]

theorem readNumbers_first (key : String) (row : List Json.Number) {item : Json.Value}
    (hitem : item.kind ≠ .number) (after : List Json.Value) :
    readNumbers key (row.map .number ++ item :: after) =
      .error (.mismatch (.element key item.kind)) := by
  induction row with
  | nil => simp [readNumbers, number?_eq_none hitem]
  | cons n rest ih => simp [readNumbers, number?, ih, Except.map]

theorem readRows_numbers (key : String) (row : List Json.Number) (rest : List Json.Value) :
    readRows key (numbers row :: rest) = (readRows key rest).map (scalarsOf row :: ·) := by
  rw [numbers, readRows, readNumbers_map]
  cases readRows key rest <;> rfl

theorem readRows_map (key : String) (rows : List (List Json.Number)) :
    readRows key (rows.map numbers) = .ok (rows.map scalarsOf) := by
  induction rows with
  | nil => rfl
  | cons row rest ih =>
      rw [List.map_cons, readRows_numbers, ih]
      rfl

theorem readRows_append (key : String) (rows : List (List Json.Number)) {items : List Json.Value}
    {fault : Fault} (h : readRows key items = .error fault) :
    readRows key (rows.map numbers ++ items) = .error fault := by
  induction rows with
  | nil => exact h
  | cons row rest ih =>
      rw [List.map_cons, List.cons_append, readRows_numbers, ih]
      rfl

theorem readRows_item (key : String) {item : Json.Value} (hitem : item.kind ≠ .array)
    (after : List Json.Value) :
    readRows key (item :: after) = .error (.mismatch (.element key item.kind)) := by
  cases item with
  | array items => exact absurd rfl hitem
  | _ => rfl

theorem readRows_cell (key : String) (left : List Json.Number) {cell : Json.Value}
    (hcell : cell.kind ≠ .number) (right after : List Json.Value) :
    readRows key (.array (left.map .number ++ cell :: right) :: after) =
      .error (.mismatch (.element key cell.kind)) := by
  rw [readRows, readNumbers_first key left hcell]
  rfl

theorem sameLengths_iff {rows : List (List Scalar)} : sameLengths rows = true ↔
    ∀ row ∈ rows, ∀ other ∈ rows, row.length = other.length := by
  cases rows with
  | nil => simp [sameLengths]
  | cons first rest =>
      simp only [sameLengths, List.all_eq_true, beq_iff_eq]
      constructor
      · intro h
        have hfirst : ∀ row ∈ first :: rest, row.length = first.length := by
          intro row hrow
          rcases List.mem_cons.1 hrow with rfl | hrow
          · rfl
          · exact h row hrow
        intro row hrow other hother
        rw [hfirst row hrow, hfirst other hother]
      · intro h row hrow
        exact h row (List.mem_cons_of_mem _ hrow) first List.mem_cons_self

theorem sameLengths_map_iff {rows : List (List Json.Number)} :
    sameLengths (rows.map scalarsOf) = true ↔
      ∀ row ∈ rows, ∀ other ∈ rows, row.length = other.length := by
  simp [sameLengths_iff, scalarsOf]

theorem matrixOfRows_ok (key : String) {rows : List (List Json.Number)}
    (h : ∀ row ∈ rows, ∀ other ∈ rows, row.length = other.length) :
    matrixOfRows key (rows.map scalarsOf) = .ok (.matrix (rows.map scalarsOf)) := by
  rw [matrixOfRows, if_pos (sameLengths_map_iff.2 h)]

theorem matrixOfRows_error (key : String) {rows : List (List Json.Number)}
    {row other : List Json.Number} (hrow : row ∈ rows) (hother : other ∈ rows)
    (hne : row.length ≠ other.length) :
    matrixOfRows key (rows.map scalarsOf) = .error (.mismatch (.rowLengths key)) := by
  rw [matrixOfRows, if_neg fun h => hne (sameLengths_map_iff.1 h row hrow other hother)]

/-! ## Members -/

/-- Whether one of the items is an array. -/
def Nested (items : List Json.Value) : Prop := ∃ i ∈ items, i.kind = .array

theorem readValue_nested (key : String) {items : List Json.Value} (h : Nested items) :
    readValue key (.array items) = (readRows key items).bind (matrixOfRows key) := by
  have hany : (items.any fun item => item.kind == .array) = true := by
    simpa [Nested] using h
  rw [readValue, if_pos hany]

theorem readValue_flat (key : String) {items : List Json.Value} (h : ¬Nested items) :
    readValue key (.array items) = (readNumbers key items).map .vector := by
  have hany : ¬(items.any fun item => item.kind == .array) = true := by simpa [Nested] using h
  rw [readValue, if_neg hany]

theorem not_nested_numbers (row : List Json.Number) : ¬Nested (row.map .number) := by
  rintro ⟨i, hi, hkind⟩
  obtain ⟨s, -, rfl⟩ := List.mem_map.1 hi
  simp [Json.Value.kind] at hkind

theorem nested_rows {rows : List (List Json.Number)} (hne : rows ≠ []) (items : List Json.Value) :
    Nested (rows.map numbers ++ items) := by
  obtain ⟨row, rest, rfl⟩ := List.exists_cons_of_ne_nil hne
  exact ⟨numbers row, by simp, rfl⟩

theorem readValue_of_describes (key : String) {v : Json.Value} {value : Value}
    (h : Describes v value) : readValue key v = .ok value := by
  cases h with
  | @scalar n s h =>
      obtain rfl := h.eq_scalarOf
      rfl
  | @vector row items h =>
      obtain rfl := forall₂_represents_iff.1 h
      rw [numbers, readValue_flat key (not_nested_numbers row), readNumbers_map]
      rfl
  | @matrix rows items hne heven h =>
      obtain rfl := forall₂_forall₂_represents_iff.1 h
      have hnested := nested_rows hne []
      rw [List.append_nil] at hnested
      rw [readValue_nested key hnested, readRows_map]
      exact matrixOfRows_ok key heven

theorem readValue_of_refuses {key : String} {v : Json.Value} {mismatch : Mismatch}
    (h : Refuses key v mismatch) : readValue key v = .error (.mismatch mismatch) := by
  cases h with
  | other hnumber harray =>
      cases v with
      | number s => exact absurd rfl hnumber
      | array items => exact absurd rfl harray
      | _ => rfl
  | @item row item after hitem hflat =>
      have hnot : ¬Nested (row.map .number ++ item :: after) := by
        rintro ⟨i, hi, hkind⟩
        rcases List.mem_append.1 hi with hi | hi
        · exact not_nested_numbers row ⟨i, hi, hkind⟩
        · exact hflat i hi hkind
      rw [readValue_flat key hnot, readNumbers_first key row hitem]
      rfl
  | @row rows item after hitem hnested =>
      have hsome : Nested (rows.map numbers ++ item :: after) := by
        rcases hnested with hne | ⟨i, hi, hkind⟩
        · exact nested_rows hne _
        · exact ⟨i, by simp [hi], hkind⟩
      rw [readValue_nested key hsome, readRows_append key rows (readRows_item key hitem after)]
      rfl
  | @cell rows left cell right after hcell =>
      have hsome : Nested (rows.map numbers ++ .array (left.map .number ++ cell :: right) :: after) :=
        ⟨.array (left.map .number ++ cell :: right), by simp, rfl⟩
      rw [readValue_nested key hsome,
        readRows_append key rows (readRows_cell key left hcell right after)]
      rfl
  | @lengths rows row other hrow hother hne =>
      have hsome := nested_rows (List.ne_nil_of_mem hrow) []
      rw [List.append_nil] at hsome
      rw [readValue_nested key hsome, readRows_map]
      exact matrixOfRows_error key hrow hother hne

theorem describes_or_refuses (key : String) (v : Json.Value) :
    (∃ value, Describes v value) ∨ ∃ mismatch, Refuses key v mismatch := by
  cases v with
  | number n => exact Or.inl ⟨_, .scalar (represents_scalarOf n)⟩
  | array items =>
      by_cases hnested : Nested items
      · obtain ⟨rows, rfl | ⟨item, after, hitem, rfl⟩⟩ := map_or_first numbers items
        · have hne : rows ≠ [] := by
            rintro rfl
            obtain ⟨i, hi, -⟩ := hnested
            simp at hi
          by_cases heven : ∀ row ∈ rows, ∀ other ∈ rows, row.length = other.length
          · exact Or.inl ⟨_, .matrix hne heven (represents_map_scalarsOf rows)⟩
          · push Not at heven
            obtain ⟨row, hrow, other, hother, hlength⟩ := heven
            exact Or.inr ⟨_, .lengths hrow hother hlength⟩
        · right
          by_cases harray : item.kind = .array
          · cases item with
            | array cells =>
                obtain ⟨left, rfl | ⟨cell, right, hcell, rfl⟩⟩ := map_or_first .number cells
                · exact absurd rfl (hitem left)
                · exact ⟨_, .cell (kind_ne_number hcell)⟩
            | _ => simp [Json.Value.kind] at harray
          · refine ⟨_, .row harray ?_⟩
            obtain ⟨i, hi, hkind⟩ := hnested
            rcases List.mem_append.1 hi with hi | hi
            · left
              rintro rfl
              simp at hi
            · rcases List.mem_cons.1 hi with rfl | hi
              · exact absurd hkind harray
              · exact Or.inr ⟨i, hi, hkind⟩
      · obtain ⟨row, rfl | ⟨item, after, hitem, rfl⟩⟩ := map_or_first .number items
        · exact Or.inl ⟨_, .vector (represents_scalarsOf row)⟩
        · refine Or.inr ⟨_, .item (kind_ne_number hitem) ?_⟩
          intro i hi hkind
          exact hnested ⟨i, List.mem_append_right _ hi, hkind⟩
  | _ => exact Or.inr ⟨_, .other (by simp [Json.Value.kind]) (by simp [Json.Value.kind])⟩

theorem readValue_eq_ok_iff {key : String} {v : Json.Value} {value : Value} :
    readValue key v = .ok value ↔ Describes v value := by
  refine ⟨?_, readValue_of_describes key⟩
  intro h
  rcases describes_or_refuses key v with ⟨value', hvalue⟩ | ⟨mismatch, hrefuses⟩
  · rw [readValue_of_describes key hvalue] at h
    exact Except.ok.inj h ▸ hvalue
  · simp [readValue_of_refuses hrefuses] at h

/-! ## Whole documents -/

theorem readPositional_map (index : Nat) (row : List Json.Number) :
    readPositional index (row.map .number) = .ok (scalarsOf row) := by
  induction row generalizing index with
  | nil => rfl
  | cons n rest ih => simp [readPositional, number?, ih, Except.map, scalarsOf]

theorem readPositional_first (index : Nat) (row : List Json.Number) {item : Json.Value}
    (hitem : item.kind ≠ .number) (after : List Json.Value) :
    readPositional index (row.map .number ++ item :: after) =
      .error (.mismatch (.positional (index + row.length) item.kind)) := by
  induction row generalizing index with
  | nil => simp [readPositional, number?_eq_none hitem]
  | cons n rest ih =>
      simp [readPositional, number?, ih, Except.map, Nat.add_comm, Nat.add_left_comm]

theorem get?_members (members : List (String × Json.Value)) (key : String) :
    (Table.ofList members).get? key = members.reverse.lookup key := by
  rw [Table.get?_ofList, Table.lookup_eq_list_lookup]

theorem ofDocument_of_loads {document : Json.Value} {result : Except Fault Variables}
    (h : Loads document result) : ofDocument document = result := by
  cases h with
  | null => rfl
  | @positional row values h =>
      obtain rfl := forall₂_represents_iff.1 h
      rw [numbers, ofDocument, readPositional_map]
      rfl
  | @named members values hrel =>
      have hread : (Table.ofList members).mapM readValue = .ok values := by
        rw [Table.mapM_eq_ok_iff]
        intro key
        rw [get?_members]
        have hkey := hrel key
        generalize members.reverse.lookup key = v at hkey ⊢
        generalize values.get? key = value at hkey ⊢
        cases hkey with
        | none => exact .none
        | some hv => exact .some (readValue_of_describes key hv)
      rw [ofDocument, hread]
      rfl
  | item hitem =>
      rw [ofDocument, readPositional_first 1 _ hitem, Nat.add_comm]
      rfl
  | @member members key v mismatch hmember hrefuses hfirst =>
      have hread : (Table.ofList members).mapM readValue = .error (.mismatch mismatch) := by
        rw [Table.mapM_eq_error_iff]
        refine ⟨key, ⟨v, get?_members members key ▸ hmember, readValue_of_refuses hrefuses⟩, ?_⟩
        intro other v' hlt hother
        rw [get?_members] at hother
        obtain ⟨value, hvalue⟩ := hfirst hother (Text.compare_eq_lt_iff.1 hlt)
        exact ⟨value, readValue_of_describes other hvalue⟩
      rw [ofDocument, hread]
      rfl
  | other hnull harray hobject =>
      cases document with
      | null => exact absurd rfl hnull
      | array items => exact absurd rfl harray
      | object members => exact absurd rfl hobject
      | _ => rfl

theorem exists_loads (document : Json.Value) : ∃ result, Loads document result := by
  cases document with
  | null => exact ⟨_, .null⟩
  | array items =>
      obtain ⟨row, rfl | ⟨item, after, hitem, rfl⟩⟩ := map_or_first .number items
      · exact ⟨_, .positional (represents_scalarsOf row)⟩
      · exact ⟨_, .item (kind_ne_number hitem)⟩
  | object members =>
      cases hread : (Table.ofList members).mapM readValue with
      | ok values =>
          have hrel : ∀ key, Option.Rel Describes (members.reverse.lookup key)
              (values.get? key) := by
            intro key
            have hkey := Table.get?_of_mapM hread key
            rw [get?_members] at hkey
            simpa only [readValue_eq_ok_iff] using hkey
          exact ⟨_, .named hrel⟩
      | error fault =>
          obtain ⟨key, ⟨v, hmember, hfails⟩, hbefore⟩ := Table.firstError_of_mapM hread
          rw [get?_members] at hmember
          rcases describes_or_refuses key v with ⟨value, hvalue⟩ | ⟨mismatch, hrefuses⟩
          · simp [readValue_of_describes key hvalue] at hfails
          · refine ⟨_, .member hmember hrefuses ?_⟩
            intro other v' hother hlt
            rw [← get?_members] at hother
            obtain ⟨value, hvalue⟩ := hbefore (Text.compare_eq_lt_iff.2 hlt) hother
            exact ⟨value, readValue_eq_ok_iff.1 hvalue⟩
  | _ => exact ⟨_, .other (by simp [Json.Value.kind]) (by simp [Json.Value.kind])
      (by simp [Json.Value.kind])⟩

/-- A document describes variables just if it has one of the shapes of `Loads` that say so, and of
every other document one cause is reported.  The numbers are represented one by one: as the same
number if it is a whole one of 64 bits with a sign or a real, and else as the nearest real. -/
theorem ofDocument_eq_iff (document : Json.Value) (result : Except Fault Variables) :
    ofDocument document = result ↔ Loads document result := by
  refine ⟨?_, ofDocument_of_loads⟩
  rintro rfl
  obtain ⟨result, hloads⟩ := exists_loads document
  rw [ofDocument_of_loads hloads]
  exact hloads

/-- The literal 9223372036854775809. -/
def secondTooLarge : Json.Literal :=
  ⟨false, ['9', '2', '2', '3', '3', '7', '2', '0', '3', '6', '8', '5', '4', '7', '7', '5', '8', '0',
    '9'], none, none⟩

/-- The second whole number that is too large is taken for the first one. -/
theorem ofDocument_too_large :
    Json.Value.ofText? "[9223372036854775809]".toList =
        some (numbers [.natural 9223372036854775809]) ∧
      ofDocument (numbers [.natural 9223372036854775809]) =
        .ok (.positional [.real (.signed false Binary64.tooLarge)]) ∧
      (Binary64.signed false Binary64.tooLarge).value? = some 0x8000000000000000 ∧
      ((9223372036854775809 : UInt64).toNat : ℚ) ≠ 0x8000000000000000 := by
  have htree : Json.Tree.ofText "[9223372036854775809]".toList =
      (.array [.number secondTooLarge] true, true) := rfl
  have hnumber : secondTooLarge.number? = some (.natural 9223372036854775809) := by decide +kernel
  have hscalar : scalarOf (.natural 9223372036854775809) =
      .real (.signed false Binary64.tooLarge) := by decide +kernel
  have hnat : (9223372036854775809 : UInt64).toNat = 9223372036854775809 := rfl
  refine ⟨?_, ?_, Binary64.value?_tooLarge, by rw [hnat]; norm_num⟩
  · rw [Json.Value.ofText?, htree]
    simp [Json.Value.depthLimit, Json.Value.ofTree?, Json.Value.ofItems?, hnumber, numbers]
  · rw [numbers, ofDocument, readPositional_map, scalarsOf, List.map_singleton, hscalar]
    rfl

end Variables
end InputDeck
