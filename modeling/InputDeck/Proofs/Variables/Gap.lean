/-
Documents of variables with a gap for one number.

Whether a document describes variables depends on the numbers in it only in that they have to stand
for something.  So if it does with one number in its gap, it does with every other, and the number
is found at the address that the place of the gap gives it (`ofJsonText_of_fits`).  A number with
few digits is written with just its value wherever its variable is asked for
(`short_literal_written`).
-/
import InputDeck.Proofs.Json.Literal
import InputDeck.Proofs.Variables.Address
import InputDeck.Proofs.Variables.Document

namespace InputDeck
namespace Variables

open Json (Tree Literal)

variable {κ α : Type}

/-! ## Gaps -/

/-- A place for a number in what a name stands for. -/
inductive Slot (α : Type) where
  | scalar
  | vector (left right : List α)
  | matrix (above left right below : List α)

/-- A place for a number in a document. -/
inductive Gap (κ α : Type) where
  | numbered (left right : List α)
  | named (before : List (κ × α)) (key : κ) (slot : Slot α) (after : List (κ × α))

namespace Slot

def fill (array : List α → α) (x : α) : Slot α → α
  | .scalar => x
  | .vector left right => array (left ++ x :: right)
  | .matrix above left right below => array (above ++ array (left ++ x :: right) :: below)

def position : Slot α → Position
  | .scalar => .scalar
  | .vector left _ => .vector left.length
  | .matrix above left _ _ => .matrix above.length left.length

def tree (slot : Slot Tree) (l : Literal) : Tree := slot.fill (Tree.array · true) (.number l)

def value (slot : Slot Json.Value) (n : Json.Number) : Json.Value := slot.fill .array (.number n)

end Slot

namespace Gap

/-- The tree of a document with a literal in its gap. -/
def tree (l : Literal) : Gap (List Char) Tree → Tree
  | .numbered left right => .array (left ++ .number l :: right) true
  | .named before key slot after => .object (before ++ (key, slot.tree l) :: after) true

def value (n : Json.Number) : Gap String Json.Value → Json.Value
  | .numbered left right => .array (left ++ .number n :: right)
  | .named before key slot after => .object (before ++ (key, slot.value n) :: after)

/-- The address of what stands in the gap. -/
def address? : Gap (List Char) Tree → Option Address
  | .numbered left _ => some (.numbered left.length)
  | .named _ key slot _ => (Json.Escape.decode key).map fun cs =>
      .named (String.ofList cs) slot.position

def address : Gap String Json.Value → Address
  | .numbered left _ => .numbered left.length
  | .named _ key slot _ => .named key slot.position

/-- That no later member has the name again. -/
def IsLast {ν : Type} (name : κ → ν) : Gap κ α → Prop
  | .numbered _ _ => True
  | .named _ key _ after => ∀ m ∈ after, name m.1 ≠ name key

/-- That the document is one of variables when some number stands in its gap, and that the number
then counts. -/
structure Fits (g : Gap (List Char) Tree) : Prop where
  loads : ∃ l v vars, Json.Value.ofTree? Json.Value.depthLimit (g.tree l) = some v ∧
    ofDocument v = .ok vars
  isLast : g.IsLast Json.Escape.decode

end Gap

/-! ## Values with a gap -/

section Values

variable {left right : List Json.Value} {n₀ : Json.Number}

theorem exists_of_map_number {row : List Json.Number}
    (h : left ++ .number n₀ :: right = row.map Json.Value.number) :
    ∃ front back, front.length = left.length ∧
      ∀ n, (front ++ n :: back).length = row.length ∧
        left ++ .number n :: right = (front ++ n :: back).map Json.Value.number := by
  obtain ⟨front, rest, rfl, hfront, hrest⟩ := List.map_eq_append_iff.1 h.symm
  obtain ⟨n', back, rfl, -, hback⟩ := List.map_eq_cons_iff.1 hrest
  refine ⟨front, back, by rw [← hfront, List.length_map], ?_⟩
  intro n
  constructor
  · simp only [List.length_append, List.length_cons]
  · rw [List.map_append, List.map_cons, hfront, hback]

/-- A row may give way to one of the same length. -/
theorem even_of_replace {above below : List (List Json.Number)} {row row' : List Json.Number}
    (hlength : row'.length = row.length)
    (heven : ∀ r ∈ above ++ row :: below, ∀ r' ∈ above ++ row :: below, r.length = r'.length) :
    ∀ r ∈ above ++ row' :: below, ∀ r' ∈ above ++ row' :: below, r.length = r'.length := by
  have hall : ∀ r ∈ above ++ row' :: below, r.length = row.length := by
    intro r hr
    rcases List.mem_append.1 hr with hr | hr
    · exact heven r (by simp [hr]) row (by simp)
    · rcases List.mem_cons.1 hr with rfl | hr
      · exact hlength
      · exact heven r (by simp [hr]) row (by simp)
  intro r hr r' hr'
  exact (hall r hr).trans (hall r' hr').symm

theorem Slot.exists_describes {slot : Slot Json.Value} {v₀ : Value}
    (h : Describes (slot.value n₀) v₀) (n : Json.Number) :
    ∃ v, Describes (slot.value n) v ∧ v.at? slot.position = some (scalarOf n) := by
  cases slot with
  | scalar => exact ⟨.scalar (scalarOf n), .scalar (represents_scalarOf n), rfl⟩
  | vector left right =>
      generalize hvalue : (Slot.vector left right).value n₀ = whole at h
      cases h with
      | scalar => simp [Slot.value, Slot.fill] at hvalue
      | vector =>
          obtain ⟨front, back, hlength, hfill⟩ :=
            exists_of_map_number (Json.Value.array.inj hvalue)
          refine ⟨.vector (scalarsOf (front ++ n :: back)), ?_, ?_⟩
          · have hdescribes := Describes.vector (represents_scalarsOf (front ++ n :: back))
            rw [numbers, ← (hfill n).2] at hdescribes
            exact hdescribes
          · show (scalarsOf (front ++ n :: back))[left.length]? = some (scalarOf n)
            simp [scalarsOf, ← hlength]
      | @matrix rows _ hne heven =>
          have hmem : Json.Value.number n₀ ∈ rows.map numbers := by
            rw [← Json.Value.array.inj hvalue]
            simp
          obtain ⟨row, -, hrow⟩ := List.mem_map.1 hmem
          simp [numbers] at hrow
  | matrix above left right below =>
      generalize hvalue : (Slot.matrix above left right below).value n₀ = whole at h
      cases h with
      | scalar => simp [Slot.value, Slot.fill] at hvalue
      | @vector row _ _ =>
          have hmem : Json.Value.array (left ++ .number n₀ :: right) ∈ row.map .number := by
            rw [← Json.Value.array.inj hvalue]
            simp
          obtain ⟨n', -, hn'⟩ := List.mem_map.1 hmem
          simp at hn'
      | @matrix rows _ hne heven =>
          obtain ⟨front, rest, rfl, hfront, hrest⟩ :=
            List.map_eq_append_iff.1 (Json.Value.array.inj hvalue).symm
          obtain ⟨row, back, rfl, hrow, hback⟩ := List.map_eq_cons_iff.1 hrest
          obtain ⟨cells, more, hlength, hfill⟩ :=
            exists_of_map_number (Json.Value.array.inj hrow).symm
          obtain ⟨hsame, hcells⟩ := hfill n
          refine ⟨.matrix ((front ++ (cells ++ n :: more) :: back).map scalarsOf), ?_, ?_⟩
          · have hdescribes := Describes.matrix (by simp) (even_of_replace hsame heven)
              (represents_map_scalarsOf _)
            rw [List.map_append, List.map_cons, hfront, hback, numbers, ← hcells] at hdescribes
            exact hdescribes
          · show ((front ++ (cells ++ n :: more) :: back).map scalarsOf)[above.length]?.bind
              (fun items => items[left.length]?) = some (scalarOf n)
            have habove : above.length = front.length := by rw [← hfront, List.length_map]
            simp [habove, scalarsOf, ← hlength]

theorem lookup_members_self {before after : List (String × Json.Value)} {key : String}
    (hlast : ∀ m ∈ after, m.1 ≠ key) (v : Json.Value) :
    (before ++ (key, v) :: after).reverse.lookup key = some v := by
  have hafter : after.reverse.lookup key = none := by
    rw [List.lookup_eq_none_iff]
    intro m hm
    exact bne_iff_ne.2 fun he => hlast m (List.mem_reverse.1 hm) he.symm
  simp [List.lookup_append, hafter]

theorem lookup_members_ne {before after : List (String × Json.Value)} {key other : String}
    (hne : other ≠ key) (v v' : Json.Value) :
    (before ++ (key, v) :: after).reverse.lookup other =
      (before ++ (key, v') :: after).reverse.lookup other := by
  have hkey : (other == key) = false := by simpa using hne
  simp [List.lookup_append, List.lookup_cons, hkey]

/-- With another number in its gap a document describes other variables. -/
theorem Gap.exists_loads {g : Gap String Json.Value} {vars₀ : Variables} (hlast : g.IsLast id)
    (h : Loads (g.value n₀) (.ok vars₀)) (n : Json.Number) :
    ∃ vars, Loads (g.value n) (.ok vars) ∧ vars.at? g.address = some (scalarOf n) := by
  cases g with
  | numbered left right =>
      generalize hvalue : (Gap.numbered left right).value n₀ = whole at h
      cases h with
      | null => simp [Gap.value] at hvalue
      | positional =>
          obtain ⟨front, back, hlength, hfill⟩ :=
            exists_of_map_number (Json.Value.array.inj hvalue)
          refine ⟨.positional (scalarsOf (front ++ n :: back)), ?_, ?_⟩
          · have hloads := Loads.positional (represents_scalarsOf (front ++ n :: back))
            rw [numbers, ← (hfill n).2] at hloads
            exact hloads
          · show (scalarsOf (front ++ n :: back))[left.length]? = some (scalarOf n)
            simp [scalarsOf, ← hlength]
      | named hrel => simp [Gap.value] at hvalue
  | named before key slot after =>
      have hafter : ∀ m ∈ after, m.1 ≠ key := hlast
      generalize hvalue : (Gap.named before key slot after).value n₀ = whole at h
      cases h with
      | null => simp [Gap.value] at hvalue
      | positional => simp [Gap.value, numbers] at hvalue
      | @named members values hrel =>
          obtain rfl := Json.Value.object.inj hvalue
          have hkey := hrel key
          rw [lookup_members_self hafter] at hkey
          obtain ⟨v₀, hv₀⟩ : ∃ v₀, values.get? key = some v₀ := by
            cases hget : values.get? key with
            | none => simp [hget] at hkey
            | some v₀ => exact ⟨v₀, rfl⟩
          rw [hv₀] at hkey
          cases hkey with
          | some hdescribes =>
          obtain ⟨v, hv, hat⟩ := Slot.exists_describes hdescribes n
          refine ⟨.named (values.insert key v), .named ?_, ?_⟩
          · intro other
            by_cases hother : other = key
            · rw [hother, lookup_members_self hafter, Table.get?_insert_self]
              exact .some hv
            · rw [lookup_members_ne hother _ (slot.value n₀), Table.get?_insert_ne hother]
              exact hrel other
          · show ((values.insert key v).get? key).bind _ = some (scalarOf n)
            rw [Table.get?_insert_self, Option.bind_some, hat]

end Values

/-! ## Trees with a gap -/

section Trees

variable {depth : Nat} {left right : List Tree}

/-- The items around one that stands for something are read alike whatever it is. -/
theorem exists_items {t₀ : Tree} {items : List Json.Value}
    (h : Json.Value.ofItems? depth (left ++ t₀ :: right) = some items) :
    ∃ front v₀ back, front.length = left.length ∧ items = front ++ v₀ :: back ∧
      Json.Value.ofTree? depth t₀ = some v₀ ∧
      ∀ t v, Json.Value.ofTree? depth t = some v →
        Json.Value.ofItems? depth (left ++ t :: right) = some (front ++ v :: back) := by
  induction left generalizing items with
  | nil =>
      rw [List.nil_append, Json.Value.ofItems?] at h
      obtain ⟨v₀, hv₀, h⟩ := Option.bind_eq_some_iff.1 h
      obtain ⟨back, hback, h⟩ := Option.bind_eq_some_iff.1 h
      obtain rfl := Option.some.inj h
      refine ⟨[], v₀, back, rfl, rfl, hv₀, ?_⟩
      intro t v hv
      rw [List.nil_append, Json.Value.ofItems?, hv, hback]
      rfl
  | cons first rest ih =>
      rw [List.cons_append, Json.Value.ofItems?] at h
      obtain ⟨v, hv, h⟩ := Option.bind_eq_some_iff.1 h
      obtain ⟨more, hmore, h⟩ := Option.bind_eq_some_iff.1 h
      obtain rfl := Option.some.inj h
      obtain ⟨front, v₀, back, hlength, rfl, hv₀, hfill⟩ := ih hmore
      refine ⟨v :: front, v₀, back, by rw [List.length_cons, List.length_cons, hlength], rfl, hv₀,
        ?_⟩
      intro t v' hv'
      rw [List.cons_append, Json.Value.ofItems?, hv, hfill t v' hv']
      rfl

theorem exists_array {t₀ : Tree} {v₀ : Json.Value}
    (h : Json.Value.ofTree? depth (.array (left ++ t₀ :: right) true) = some v₀) :
    ∃ inner front v back, depth = inner + 1 ∧ front.length = left.length ∧
      Json.Value.ofTree? inner t₀ = some v ∧ v₀ = .array (front ++ v :: back) ∧
      ∀ t v, Json.Value.ofTree? inner t = some v →
        Json.Value.ofTree? depth (.array (left ++ t :: right) true) =
          some (.array (front ++ v :: back)) := by
  cases depth with
  | zero => simp [Json.Value.ofTree?] at h
  | succ inner =>
      rw [Json.Value.ofTree?, if_pos rfl] at h
      obtain ⟨items, hitems, rfl⟩ := Option.map_eq_some_iff.1 h
      obtain ⟨front, v, back, hlength, rfl, hv, hfill⟩ := exists_items hitems
      refine ⟨inner, front, v, back, rfl, hlength, hv, rfl, ?_⟩
      intro t v' hv'
      rw [Json.Value.ofTree?, if_pos rfl, hfill t v' hv']
      rfl

theorem ofTree?_number {l : Literal} {v : Json.Value} :
    Json.Value.ofTree? depth (.number l) = some v ↔ ∃ n, l.number? = some n ∧ v = .number n := by
  cases depth <;> simp [Json.Value.ofTree?, eq_comm]

theorem Slot.exists_value {slot : Slot Tree} {l₀ : Literal} {v₀ : Json.Value}
    (h : Json.Value.ofTree? depth (slot.tree l₀) = some v₀) :
    ∃ (slot' : Slot Json.Value) (n₀ : Json.Number), l₀.number? = some n₀ ∧
      slot'.position = slot.position ∧ v₀ = slot'.value n₀ ∧ ∀ l n, l.number? = some n →
        Json.Value.ofTree? depth (slot.tree l) = some (slot'.value n) := by
  cases slot with
  | scalar =>
      obtain ⟨n₀, hn₀, rfl⟩ := ofTree?_number.1 h
      exact ⟨.scalar, n₀, hn₀, rfl, rfl, fun l n hn => ofTree?_number.2 ⟨n, hn, rfl⟩⟩
  | vector left right =>
      obtain ⟨inner, front, v, back, rfl, hlength, hv, rfl, hfill⟩ := exists_array h
      obtain ⟨n₀, hn₀, rfl⟩ := ofTree?_number.1 hv
      refine ⟨.vector front back, n₀, hn₀, congrArg Position.vector hlength, rfl, ?_⟩
      intro l n hn
      exact hfill _ _ (ofTree?_number.2 ⟨n, hn, rfl⟩)
  | matrix above left right below =>
      obtain ⟨inner, front, v, back, rfl, habove, hv, rfl, hfill⟩ := exists_array h
      obtain ⟨inner', cells, v', more, rfl, hlength, hv', rfl, hrow⟩ := exists_array hv
      obtain ⟨n₀, hn₀, rfl⟩ := ofTree?_number.1 hv'
      refine ⟨.matrix front cells more back, n₀, hn₀, congrArg₂ Position.matrix habove hlength,
        rfl, ?_⟩
      intro l n hn
      exact hfill _ _ (hrow _ _ (ofTree?_number.2 ⟨n, hn, rfl⟩))

theorem exists_name_of_member {trees : List (List Char × Tree)}
    {members : List (String × Json.Value)} (h : Json.Value.ofMembers? depth trees = some members) :
    ∀ m ∈ members, ∃ t ∈ trees, Json.Escape.decode t.1 = some m.1.toList := by
  induction trees generalizing members with
  | nil =>
      rw [Json.Value.ofMembers?] at h
      obtain rfl := Option.some.inj h
      simp
  | cons t rest ih =>
      rw [Json.Value.ofMembers?] at h
      obtain ⟨name, hname, h⟩ := Option.bind_eq_some_iff.1 h
      obtain ⟨v, -, h⟩ := Option.bind_eq_some_iff.1 h
      obtain ⟨more, hmore, h⟩ := Option.bind_eq_some_iff.1 h
      obtain rfl := Option.some.inj h
      intro m hm
      rcases List.mem_cons.1 hm with rfl | hm
      · exact ⟨t, List.mem_cons_self, by rw [String.toList_ofList, hname]⟩
      · obtain ⟨t', ht', hdecode⟩ := ih hmore m hm
        exact ⟨t', List.mem_cons_of_mem _ ht', hdecode⟩

theorem exists_members {before after : List (List Char × Tree)} {key : List Char} {t₀ : Tree}
    {members : List (String × Json.Value)}
    (h : Json.Value.ofMembers? depth (before ++ (key, t₀) :: after) = some members) :
    ∃ front name v₀ back, Json.Escape.decode key = some name ∧
      Json.Value.ofTree? depth t₀ = some v₀ ∧
      members = front ++ (String.ofList name, v₀) :: back ∧
      (∀ m ∈ back, ∃ t ∈ after, Json.Escape.decode t.1 = some m.1.toList) ∧
      ∀ t v, Json.Value.ofTree? depth t = some v →
        Json.Value.ofMembers? depth (before ++ (key, t) :: after) =
          some (front ++ (String.ofList name, v) :: back) := by
  induction before generalizing members with
  | nil =>
      rw [List.nil_append, Json.Value.ofMembers?] at h
      obtain ⟨name, hname, h⟩ := Option.bind_eq_some_iff.1 h
      obtain ⟨v₀, hv₀, h⟩ := Option.bind_eq_some_iff.1 h
      obtain ⟨back, hback, h⟩ := Option.bind_eq_some_iff.1 h
      obtain rfl := Option.some.inj h
      refine ⟨[], name, v₀, back, hname, hv₀, rfl, exists_name_of_member hback, ?_⟩
      intro t v hv
      rw [List.nil_append, Json.Value.ofMembers?, hname, hv, hback]
      rfl
  | cons first rest ih =>
      rw [List.cons_append, Json.Value.ofMembers?] at h
      obtain ⟨other, hother, h⟩ := Option.bind_eq_some_iff.1 h
      obtain ⟨v, hv, h⟩ := Option.bind_eq_some_iff.1 h
      obtain ⟨more, hmore, h⟩ := Option.bind_eq_some_iff.1 h
      obtain rfl := Option.some.inj h
      obtain ⟨front, name, v₀, back, hname, hv₀, rfl, hback, hfill⟩ := ih hmore
      refine ⟨(String.ofList other, v) :: front, name, v₀, back, hname, hv₀, rfl, hback, ?_⟩
      intro t v' hv'
      rw [List.cons_append, Json.Value.ofMembers?, hother, hv, hfill t v' hv']
      rfl

theorem Gap.exists_value {g : Gap (List Char) Tree} {l₀ : Literal} {v₀ : Json.Value}
    (hlast : g.IsLast Json.Escape.decode)
    (h : Json.Value.ofTree? depth (g.tree l₀) = some v₀) :
    ∃ (g' : Gap String Json.Value) (n₀ : Json.Number), l₀.number? = some n₀ ∧
      g.address? = some g'.address ∧ g'.IsLast id ∧ v₀ = g'.value n₀ ∧ ∀ l n, l.number? = some n →
        Json.Value.ofTree? depth (g.tree l) = some (g'.value n) := by
  cases g with
  | numbered left right =>
      obtain ⟨inner, front, v, back, rfl, hlength, hv, rfl, hfill⟩ := exists_array h
      obtain ⟨n₀, hn₀, rfl⟩ := ofTree?_number.1 hv
      refine ⟨.numbered front back, n₀, hn₀, ?_, trivial, rfl, ?_⟩
      · rw [address?, address, hlength]
      · intro l n hn
        exact hfill _ _ (ofTree?_number.2 ⟨n, hn, rfl⟩)
  | named before key slot after =>
      cases depth with
      | zero => simp [tree, Json.Value.ofTree?] at h
      | succ inner =>
          rw [tree, Json.Value.ofTree?, if_pos rfl] at h
          obtain ⟨members, hmembers, rfl⟩ := Option.map_eq_some_iff.1 h
          obtain ⟨front, name, v, back, hname, hv, rfl, hback, hfill⟩ := exists_members hmembers
          obtain ⟨slot', n₀, hn₀, hposition, rfl, hslot⟩ := Slot.exists_value hv
          refine ⟨.named front (String.ofList name) slot' back, n₀, hn₀, ?_, ?_, rfl, ?_⟩
          · rw [address?, hname, Option.map_some, address, hposition]
          · intro m hm he
            obtain ⟨t, ht, hdecode⟩ := hback m hm
            have hname' : m.1 = String.ofList name := he
            rw [hname', String.toList_ofList] at hdecode
            exact hlast t ht (hdecode.trans hname.symm)
          · intro l n hn
            rw [tree, Json.Value.ofTree?, if_pos rfl, hfill _ _ (hslot l n hn)]
            rfl

end Trees

/-! ## Texts with a gap -/

/-- The number in the gap of a document is a variable, at the address of the gap. -/
theorem ofJsonText_of_fits {g : Gap (List Char) Tree} (hfits : g.Fits) {l : Literal} {s : Scalar}
    (hs : l.scalar? = some s) {cs : List Char} (hcs : Tree.ofText cs = (g.tree l, true)) :
    ∃ vars a, ofJsonText cs = .ok vars ∧ g.address? = some a ∧ vars.at? a = some s := by
  obtain ⟨l₀, v₀, vars₀, hv₀, hvars₀⟩ := hfits.loads
  obtain ⟨g', n₀, -, haddress, hlast, rfl, hfill⟩ := Gap.exists_value hfits.isLast hv₀
  obtain ⟨result, hloads₀⟩ := exists_loads (g'.value n₀)
  obtain rfl : result = .ok vars₀ := (ofDocument_of_loads hloads₀).symm.trans hvars₀
  obtain ⟨n, hn, rfl⟩ := Option.map_eq_some_iff.1 hs
  obtain ⟨vars, hloads, hat⟩ := Gap.exists_loads hlast hloads₀ n
  refine ⟨vars, g'.address, ?_, haddress, hat⟩
  have hvalue : Json.Value.ofText? cs = some (g'.value n) := by
    rw [Json.Value.ofText?, hcs]
    exact hfill l n hn
  rw [ofJsonText, hvalue]
  exact ofDocument_of_loads hloads

/-- A literal that stands for nothing makes a fault of the document. -/
theorem ofJsonText_of_scalar?_eq_none {g : Gap (List Char) Tree} (hfits : g.Fits) {l : Literal}
    (hl : l.scalar? = none) {cs : List Char} (hcs : Tree.ofText cs = (g.tree l, true)) :
    ofJsonText cs = .error (.json .malformed) := by
  have hvalue : Json.Value.ofText? cs = none := by
    rw [Json.Value.ofText?, hcs]
    dsimp only
    rw [if_pos rfl]
    cases hv : Json.Value.ofTree? Json.Value.depthLimit (g.tree l) with
    | none => rfl
    | some v =>
        obtain ⟨-, n, hn, -⟩ := Gap.exists_value hfits.isLast hv
        simp [Literal.scalar?, hn] at hl
  rw [ofJsonText, hvalue]

/-- A short literal is loaded as the nearest number, and is written with its own value again. -/
theorem short_literal_written {g : Gap (List Char) Tree} (hfits : g.Fits) {l : Literal}
    (hshort : l.IsShort) {cs : List Char} (hcs : Tree.ofText cs = (g.tree l, true)) :
    ∃ vars a x, ofJsonText cs = .ok vars ∧ g.address? = some a ∧ vars.at? a = some (.real x) ∧
      x.IsNearest (Number.sign l.negative * l.size) ∧
      ∀ token, a.AskedBy token → Template.marker ∉ token → ∃ text piece,
        Template.Writes vars token text ∧ a.piece? text = some piece ∧
          Number.readExact piece = some (l.negative, l.size) := by
  obtain ⟨x, hx, hnearest, hexact⟩ := Literal.scalar?_of_isShort hshort
  obtain ⟨vars, a, hvars, haddress, hat⟩ := ofJsonText_of_fits hfits hx hcs
  refine ⟨vars, a, x, hvars, haddress, hat, hnearest, ?_⟩
  intro token hasked hmarker
  obtain ⟨text, hwrites, hpiece⟩ := exists_writes hat hmarker hasked
  exact ⟨text, _, hwrites, hpiece, hexact⟩

/-! A matrix with a gap in its second row, behind a vector. -/

/-- The literal of a digit. -/
def digit (c : Char) : Tree := .number ⟨false, [c], none, none⟩

def gridGap : Gap (List Char) Tree :=
  .named [("load".toList, .array [digit '3'] true)] "grid".toList
    (.matrix [.array [digit '1', digit '2'] true] [digit '4'] [] []) []

/-- The literal -1.50e-7. -/
def smallLiteral : Literal := ⟨true, ['1'], some ['5', '0'], some ⟨true, ['7']⟩⟩

def gridDocument : List Char := "\x7b\"load\": [3], \"grid\": [[1, 2], [4, -1.50e-7]]\x7d".toList

theorem fits_gridGap : gridGap.Fits :=
  ⟨⟨⟨false, ['5'], none, none⟩, _, _, rfl, rfl⟩, by simp [gridGap, Gap.IsLast]⟩

theorem short_literal_written_gridDocument :
    gridGap.Fits ∧ smallLiteral.IsShort ∧
      Tree.ofText gridDocument = (gridGap.tree smallLiteral, true) ∧
      ∃ vars a x, ofJsonText gridDocument = .ok vars ∧ gridGap.address? = some a ∧
        vars.at? a = some (.real x) ∧
        x.IsNearest (Number.sign smallLiteral.negative * smallLiteral.size) ∧
        ∀ token, a.AskedBy token → Template.marker ∉ token → ∃ text piece,
          Template.Writes vars token text ∧ a.piece? text = some piece ∧
            Number.readExact piece = some (smallLiteral.negative, smallLiteral.size) := by
  have hshort : smallLiteral.IsShort := by constructor <;> decide
  have htree : Tree.ofText gridDocument = (gridGap.tree smallLiteral, true) := rfl
  exact ⟨fits_gridGap, hshort, htree, short_literal_written fits_gridGap hshort htree⟩

end Variables
end InputDeck
