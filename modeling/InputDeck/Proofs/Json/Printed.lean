/-
JSON written without spaces is read as it was written.

`Tree.tokens` are the tokens that a tree is written with and `Token.text` is the text of each.  The
statement this file exists for is `ofText_text`: the text of a whole tree, of which the leaves are
strings as `Escape.encode` writes them and words, has that tree and nothing behind it.  There are no
numbers among the leaves, since a number ends only where something else begins.
-/
import InputDeck.Proofs.Json.Grammar

namespace InputDeck
namespace Json

/-! ## Tokens -/

namespace Token

/-- The text of a token that ends by itself. -/
def text : Token → List Char
  | .openArray => ['[']
  | .closeArray => [']']
  | .openObject => ['{']
  | .closeObject => ['}']
  | .comma => [',']
  | .colon => [':']
  | .null => ['n', 'u', 'l', 'l']
  | .boolean true => ['t', 'r', 'u', 'e']
  | .boolean false => ['f', 'a', 'l', 's', 'e']
  | .string raw => '"' :: (raw ++ ['"'])
  | .number _ | .fault => []

/-- That a token ends by itself. -/
def Printed : Token → Prop
  | .string raw => ∃ cs, raw = Escape.encode cs
  | .number _ | .fault => False
  | _ => True

theorem Printed.isText {t : Token} (h : t.Printed) : t.IsText t.text := by
  cases t with
  | string raw =>
      obtain ⟨cs, rfl⟩ := h
      exact .string (Escape.isBody_encode cs)
  | boolean b =>
      cases b with
      | true => exact .yes
      | false => exact .no
  | number l => exact h.elim
  | fault => exact h.elim
  | _ => constructor

theorem areTexts_flatMap_text {ts : List Token} (h : ∀ t ∈ ts, t.Printed) :
    AreTexts ts (ts.flatMap text) := by
  have hspace : IsSpaces [] := fun _ hc => absurd hc List.not_mem_nil
  induction ts with
  | nil => exact .nil hspace
  | cons t ts ih =>
      exact .cons hspace (h t List.mem_cons_self).isText
        (ih fun t' ht' => h t' (List.mem_cons_of_mem _ ht'))

end Token

/-! ## Texts of trees -/

namespace Tree

/-- The text of a tree without spaces. -/
def text (t : Tree) : List Char := t.tokens.flatMap Token.text

def memberText (member : List Char × Tree) : List Char :=
  Token.text (.string member.1) ++ ':' :: member.2.text

theorem text_string (cs : List Char) : text (.string (Escape.encode cs)) = Escape.quoted cs :=
  List.append_nil _

theorem intercalate_comma (piece : List Char) (pieces : List (List Char)) :
    [','].intercalate (piece :: pieces) = piece ++ pieces.flatMap (',' :: ·) := by
  induction pieces generalizing piece with
  | nil => simp
  | cons next rest ih => rw [List.intercalate_cons_cons, ih]; simp

theorem text_laterItems (items : List Tree) :
    (laterItemTokens items).flatMap Token.text = (items.map text).flatMap (',' :: ·) ++ [']'] := by
  induction items with
  | nil => rfl
  | cons t rest ih =>
      rw [laterItemTokens, List.flatMap_cons, List.flatMap_append, ih]
      simp [text, Token.text]

theorem text_array (items : List Tree) (closed : Bool) :
    text (.array items closed) = '[' :: ([','].intercalate (items.map text) ++ [']']) := by
  cases items with
  | nil => rfl
  | cons t rest =>
      rw [text, tokens, itemTokens, List.flatMap_cons, List.flatMap_append, text_laterItems,
        List.map_cons, intercalate_comma, List.append_assoc]
      rfl

theorem text_laterMembers (members : List (List Char × Tree)) :
    (laterMemberTokens members).flatMap Token.text =
      (members.map memberText).flatMap (',' :: ·) ++ ['}'] := by
  induction members with
  | nil => rfl
  | cons member rest ih =>
      obtain ⟨key, t⟩ := member
      rw [laterMemberTokens, List.flatMap_cons, List.flatMap_cons, List.flatMap_cons,
        List.flatMap_append, ih]
      simp [memberText, text, Token.text]

theorem text_object (members : List (List Char × Tree)) (closed : Bool) :
    text (.object members closed) =
      '{' :: ([','].intercalate (members.map memberText) ++ ['}']) := by
  cases members with
  | nil => rfl
  | cons member rest =>
      obtain ⟨key, t⟩ := member
      rw [text, tokens, memberTokens, List.flatMap_cons, List.flatMap_cons, List.flatMap_cons,
        List.flatMap_append, text_laterMembers, List.map_cons, intercalate_comma]
      simp [memberText, text, Token.text]

/-! ## Trees that are printed -/

/-- That a tree is whole and its leaves end by themselves. -/
structure Printed (t : Tree) : Prop where
  whole : t.isWhole = true
  token : ∀ token ∈ t.tokens, token.Printed

theorem printed_null : Printed .null :=
  ⟨rfl, by simp [tokens, Token.Printed]⟩

theorem printed_string (cs : List Char) : Printed (.string (Escape.encode cs)) := by
  refine ⟨rfl, ?_⟩
  intro token hmem
  obtain rfl := List.mem_singleton.1 hmem
  exact ⟨cs, rfl⟩

theorem printed_laterItems {items : List Tree} (h : ∀ t ∈ items, t.Printed) :
    itemsWhole items = true ∧ ∀ token ∈ laterItemTokens items, token.Printed := by
  induction items with
  | nil => simp [itemsWhole, laterItemTokens, Token.Printed]
  | cons t rest ih =>
      have hfirst := h t List.mem_cons_self
      obtain ⟨hwhole, hrest⟩ := ih fun t' ht' => h t' (List.mem_cons_of_mem _ ht')
      refine ⟨by rw [itemsWhole, hfirst.whole, hwhole]; rfl, ?_⟩
      simp only [laterItemTokens, List.mem_cons, List.mem_append]
      rintro token (rfl | hmem | hmem)
      · trivial
      · exact hfirst.token token hmem
      · exact hrest token hmem

theorem printed_array {items : List Tree} (h : ∀ t ∈ items, t.Printed) :
    Printed (.array items true) := by
  obtain ⟨hwhole, htokens⟩ := printed_laterItems h
  refine ⟨by rw [isWhole, hwhole]; rfl, ?_⟩
  have hitems : ∀ token ∈ itemTokens items, token.Printed := by
    cases items with
    | nil => exact htokens
    | cons t rest => exact fun token hmem => htokens token (List.mem_cons_of_mem _ hmem)
  rw [tokens, List.forall_mem_cons]
  exact ⟨trivial, hitems⟩

theorem printed_laterMembers {members : List (List Char × Tree)}
    (h : ∀ member ∈ members, (∃ cs, member.1 = Escape.encode cs) ∧ member.2.Printed) :
    membersWhole members = true ∧ ∀ token ∈ laterMemberTokens members, token.Printed := by
  induction members with
  | nil => simp [membersWhole, laterMemberTokens, Token.Printed]
  | cons member rest ih =>
      obtain ⟨key, t⟩ := member
      obtain ⟨hkey, hfirst⟩ := h (key, t) List.mem_cons_self
      obtain ⟨hwhole, hrest⟩ := ih fun m hm => h m (List.mem_cons_of_mem _ hm)
      refine ⟨by rw [membersWhole, hfirst.whole, hwhole]; rfl, ?_⟩
      simp only [laterMemberTokens, List.mem_cons, List.mem_append]
      rintro token (rfl | rfl | rfl | hmem | hmem)
      · trivial
      · exact hkey
      · trivial
      · exact hfirst.token token hmem
      · exact hrest token hmem

theorem printed_object {members : List (List Char × Tree)}
    (h : ∀ member ∈ members, (∃ cs, member.1 = Escape.encode cs) ∧ member.2.Printed) :
    Printed (.object members true) := by
  obtain ⟨hwhole, htokens⟩ := printed_laterMembers h
  refine ⟨by rw [isWhole, hwhole]; rfl, ?_⟩
  have hmembers : ∀ token ∈ memberTokens members, token.Printed := by
    cases members with
    | nil => exact htokens
    | cons member rest => exact fun token hmem => htokens token (List.mem_cons_of_mem _ hmem)
  rw [tokens, List.forall_mem_cons]
  exact ⟨trivial, hmembers⟩

theorem ofText_text {t : Tree} (ht : t.Printed) : ofText t.text = (t, true) :=
  ofText_of_isText ⟨ht.whole, Token.areTexts_flatMap_text ht.token⟩

end Tree
end Json
end InputDeck
