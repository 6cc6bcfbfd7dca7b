/-
Texts that follow the grammar of JSON.

The grammar is told from the tree: a text of it is made of its tokens, each written in one of the
ways it may be, with white space wherever it may stand (`Tree.IsText`).  Words, strings and marks
end by themselves.  A number ends only where something else begins, but among the tokens of a tree
it is always followed by one that does (`separated_tokens`).  So whatever text the grammar has for a
tree is read as that tree, which is `ofText_of_isText`.
-/
import InputDeck.Json.Tree
import InputDeck.Proofs.Json.Escape
import InputDeck.Proofs.Json.LiteralText

namespace InputDeck
namespace Json

/-! ## Tokens -/

namespace Token

open Literal

variable {rest : List Char}

inductive IsText : Token → List Char → Prop
  | openArray : IsText .openArray ['[']
  | closeArray : IsText .closeArray [']']
  | openObject : IsText .openObject ['{']
  | closeObject : IsText .closeObject ['}']
  | comma : IsText .comma [',']
  | colon : IsText .colon [':']
  | null : IsText .null ['n', 'u', 'l', 'l']
  | yes : IsText (.boolean true) ['t', 'r', 'u', 'e']
  | no : IsText (.boolean false) ['f', 'a', 'l', 's', 'e']
  | number {l : Literal} {cs : List Char} (h : l.IsText cs) : IsText (.number l) cs
  | string {raw : List Char} (h : Escape.IsBody raw) : IsText (.string raw) ('"' :: (raw ++ ['"']))

theorem first_of_splitLiteral {c : Char} {cs rest : List Char} {l : Literal}
    (hc : c = '-' ∨ c.isDigit = true) (h : splitLiteral (c :: cs) = some (l, rest)) :
    first (c :: cs) = some (.number l, rest) := by
  unfold first
  split
  case h_1 he => simp at he
  case h_12 => rw [h]
  all_goals
    rename_i he
    obtain ⟨rfl, -⟩ := List.cons.inj he
    exact absurd hc (by decide)

/-- What can follow a token without running into it. -/
def Ends (rest : List Char) : Token → Prop
  | .number _ => EndsLiteral rest
  | _ => True

theorem first_of_isText {t : Token} {cs : List Char} (h : t.IsText cs) (hrest : t.Ends rest) :
    first (cs ++ rest) = some (t, rest) := by
  cases h with
  | number h =>
      obtain ⟨c, more, rfl, hc⟩ := h.exists_head
      exact first_of_splitLiteral hc (splitLiteral_of_isText h hrest)
  | @string raw h =>
      rw [List.cons_append, first, List.append_assoc, List.singleton_append,
        Escape.splitString_of_isBody h]
  | _ => rfl

theorem IsText.exists_head {t : Token} {cs : List Char} (h : t.IsText cs) :
    ∃ c more, cs = c :: more ∧ isSpace c = false := by
  cases h with
  | @number l _ h =>
      obtain ⟨c, more, rfl, hc⟩ := h.exists_head
      refine ⟨c, more, rfl, ?_⟩
      rcases hc with rfl | hc
      · rfl
      · rw [Bool.eq_false_iff]
        intro hspace
        simp only [isSpace, Bool.or_eq_true, beq_iff_eq] at hspace
        rcases hspace with ((rfl | rfl) | rfl) | rfl <;> exact absurd hc (by decide)
  | _ => exact ⟨_, _, rfl, rfl⟩

def IsSpaces (cs : List Char) : Prop := ∀ c ∈ cs, isSpace c = true

theorem next_of_isText {t : Token} {space cs : List Char} (hspace : IsSpaces space)
    (h : t.IsText cs) (hrest : t.Ends rest) :
    next (space ++ (cs ++ rest)) = some (t, rest) := by
  have hdrop : (cs ++ rest).dropWhile isSpace = cs ++ rest := by
    obtain ⟨c, more, rfl, hc⟩ := h.exists_head
    rw [List.cons_append, List.dropWhile_cons_of_neg (by simp [hc])]
  rw [next, List.dropWhile_append_of_pos hspace, hdrop, first_of_isText h hrest]

/-! ## Tokens one after the other -/

/-- Tokens written one after the other, with white space around them. -/
inductive AreTexts : List Token → List Char → Prop
  | nil {space : List Char} (hspace : IsSpaces space) : AreTexts [] space
  | cons {t : Token} {ts : List Token} {space cs rest : List Char} (hspace : IsSpaces space)
      (ht : t.IsText cs) (hts : AreTexts ts rest) : AreTexts (t :: ts) (space ++ (cs ++ rest))

inductive IsNumber : Token → Prop
  | number (l : Literal) : IsNumber (.number l)

/-- The tokens that may stand behind a number. -/
def endsNumber : Token → Bool
  | .comma | .closeArray | .closeObject => true
  | _ => false

/-- That a token which ends it stands behind each number. -/
def Separated (ts : List Token) : Prop :=
  ts.IsChain fun t next => t.IsNumber → next.endsNumber = true

theorem endsLiteral_of_endsNumber {t : Token} {cs : List Char} (ht : t.endsNumber = true)
    (h : t.IsText cs) : EndsLiteral (cs ++ rest) := by
  cases h with
  | comma | closeArray | closeObject =>
      intro c hc
      obtain rfl := Option.some.inj hc
      decide
  | _ => simp [endsNumber] at ht

theorem endsLiteral_of_space {space : List Char} (hspace : IsSpaces space)
    (hrest : EndsLiteral rest) : EndsLiteral (space ++ rest) := by
  cases space with
  | nil => exact hrest
  | cons c more =>
      intro c' hc
      obtain rfl := Option.some.inj hc
      have hc := hspace c List.mem_cons_self
      simp only [isSpace, Bool.or_eq_true, beq_iff_eq] at hc
      rcases hc with ((rfl | rfl) | rfl) | rfl <;> decide

theorem Separated.ends {t : Token} {ts : List Token} {cs : List Char} (h : Separated (t :: ts))
    (hcs : AreTexts ts cs) : t.Ends cs := by
  cases t with
  | number l =>
      cases hcs with
      | nil hspace =>
          have hends := endsLiteral_of_space hspace endsLiteral_nil
          rwa [List.append_nil] at hends
      | cons hspace ht hts =>
          have hnext := (List.isChain_cons_cons.1 h).1 (.number l)
          exact endsLiteral_of_space hspace (endsLiteral_of_endsNumber hnext ht)
  | _ => trivial

theorem AreTexts.length_le {ts : List Token} {cs : List Char} (h : AreTexts ts cs) :
    ts.length ≤ cs.length := by
  induction h with
  | nil => exact Nat.zero_le _
  | cons hspace ht _ ih =>
      obtain ⟨c, more, rfl, -⟩ := ht.exists_head
      simp only [List.length_cons, List.length_append]
      omega

theorem take_of_areTexts {ts : List Token} {cs : List Char} (h : AreTexts ts cs)
    (hts : Separated ts) {count : Nat} (hcount : ts.length ≤ count) : take count cs = ts := by
  induction h generalizing count with
  | @nil space hspace =>
      cases count with
      | zero => rfl
      | succ count =>
          have hdrop : space.dropWhile isSpace = [] := List.dropWhile_eq_nil_iff.2 hspace
          rw [take, next, hdrop]
          rfl
  | @cons t ts space cs rest hspace ht hrest ih =>
      obtain ⟨count, rfl⟩ : ∃ less, count = less + 1 := ⟨count - 1, by simp at hcount; omega⟩
      rw [take, next_of_isText hspace ht (hts.ends hrest)]
      dsimp only
      rw [ih hts.tail (by simpa using hcount)]

end Token

theorem tokens_of_areTexts {ts : List Token} {cs : List Char} (h : Token.AreTexts ts cs)
    (hts : Token.Separated ts) : tokens cs = ts :=
  Token.take_of_areTexts h hts h.length_le

/-! ## Trees -/

namespace Tree

mutual

/-- The tokens that a whole tree is written with. -/
def tokens : Tree → List Token
  | .null => [.null]
  | .boolean b => [.boolean b]
  | .number l => [.number l]
  | .string raw => [.string raw]
  | .array items _ => .openArray :: itemTokens items
  | .object members _ => .openObject :: memberTokens members
  | .broken => []

def itemTokens : List Tree → List Token
  | [] => [.closeArray]
  | t :: rest => tokens t ++ laterItemTokens rest

def laterItemTokens : List Tree → List Token
  | [] => [.closeArray]
  | t :: rest => .comma :: (tokens t ++ laterItemTokens rest)

def memberTokens : List (List Char × Tree) → List Token
  | [] => [.closeObject]
  | (key, t) :: rest => .string key :: .colon :: (tokens t ++ laterMemberTokens rest)

def laterMemberTokens : List (List Char × Tree) → List Token
  | [] => [.closeObject]
  | (key, t) :: rest => .comma :: .string key :: .colon :: (tokens t ++ laterMemberTokens rest)

end

/-- That a text is one of a tree. -/
structure IsText (t : Tree) (cs : List Char) : Prop where
  whole : t.isWhole = true
  tokens : Token.AreTexts t.tokens cs

/-! ## Numbers among the tokens -/

theorem separated_cons {t : Token} {ts : List Token} (ht : ¬t.IsNumber) (h : Token.Separated ts) :
    Token.Separated (t :: ts) :=
  List.isChain_cons.2 ⟨fun _ _ hnumber => absurd hnumber ht, h⟩

theorem separated_leaf {t : Token} {ts : List Token} (h : Token.Separated ts)
    (hends : ∀ next ∈ ts.head?, next.endsNumber = true) : Token.Separated (t :: ts) :=
  List.isChain_cons.2 ⟨fun next hnext _ => hends next hnext, h⟩

theorem endsNumber_laterItems (items : List Tree) (rest : List Token) :
    ∀ next ∈ (laterItemTokens items ++ rest).head?, next.endsNumber = true := by
  cases items <;> simp [laterItemTokens, Token.endsNumber]

theorem endsNumber_laterMembers (members : List (List Char × Tree)) (rest : List Token) :
    ∀ next ∈ (laterMemberTokens members ++ rest).head?, next.endsNumber = true := by
  cases members <;> simp [laterMemberTokens, Token.endsNumber]

mutual

theorem separated_tokens (t : Tree) {rest : List Token} (hrest : Token.Separated rest)
    (hends : ∀ next ∈ rest.head?, next.endsNumber = true) : Token.Separated (t.tokens ++ rest) := by
  cases t with
  | array items closed =>
      cases items with
      | nil => exact separated_cons nofun (separated_cons nofun hrest)
      | cons first more =>
          rw [tokens, itemTokens, List.cons_append, List.append_assoc]
          exact separated_cons nofun (separated_tokens first (separated_laterItems more hrest)
            (endsNumber_laterItems more rest))
  | object members closed =>
      cases members with
      | nil => exact separated_cons nofun (separated_cons nofun hrest)
      | cons first more =>
          rw [tokens, memberTokens, List.cons_append, List.cons_append, List.cons_append,
            List.append_assoc]
          exact separated_cons nofun (separated_cons nofun (separated_cons nofun
            (separated_tokens first.2 (separated_laterMembers more hrest)
              (endsNumber_laterMembers more rest))))
  | broken => exact hrest
  | _ => exact separated_leaf hrest hends

theorem separated_laterItems (items : List Tree) {rest : List Token}
    (hrest : Token.Separated rest) : Token.Separated (laterItemTokens items ++ rest) := by
  cases items with
  | nil => exact separated_cons nofun hrest
  | cons next more =>
      rw [laterItemTokens, List.cons_append, List.append_assoc]
      exact separated_cons nofun (separated_tokens next (separated_laterItems more hrest)
        (endsNumber_laterItems more rest))

theorem separated_laterMembers (members : List (List Char × Tree)) {rest : List Token}
    (hrest : Token.Separated rest) : Token.Separated (laterMemberTokens members ++ rest) := by
  cases members with
  | nil => exact separated_cons nofun hrest
  | cons next more =>
      rw [laterMemberTokens, List.cons_append, List.cons_append, List.cons_append,
        List.append_assoc]
      exact separated_cons nofun (separated_cons nofun (separated_cons nofun
        (separated_tokens next.2 (separated_laterMembers more hrest)
          (endsNumber_laterMembers more rest))))

end

/-! ## Building the tree -/

/-- A first item is built as a value in its array. -/
theorem build_itemOrEnd {t : Tree} (ht : t.isWhole = true) (stack : List Frame)
    (rest : List Token) :
    build .itemOrEnd stack (t.tokens ++ rest) =
      build .value (.array [] :: stack) (t.tokens ++ rest) := by
  cases t with
  | broken => simp [isWhole] at ht
  | _ => simp [tokens, build, ofLeaf]

mutual

/-- Reading the tokens of a whole tree comes to where the tree has been read. -/
theorem build_tokens (t : Tree) (ht : t.isWhole = true) (stack : List Frame) (rest : List Token) :
    build .value stack (t.tokens ++ rest) = build (.after t) stack rest := by
  cases t with
  | null => rfl
  | boolean b => rfl
  | number l => rfl
  | string raw => rfl
  | broken => simp [isWhole] at ht
  | array items closed =>
      obtain ⟨hitems, rfl⟩ : itemsWhole items = true ∧ closed = true := by
        simpa [isWhole] using ht
      rw [tokens, List.cons_append, build]
      cases items with
      | nil => rfl
      | cons first more =>
          obtain ⟨hfirst, hmore⟩ : first.isWhole = true ∧ itemsWhole more = true := by
            simpa [itemsWhole] using hitems
          rw [itemTokens, List.append_assoc, build_itemOrEnd hfirst,
            build_tokens first hfirst, build_laterItems more hmore]
          rfl
  | object members closed =>
      obtain ⟨hmembers, rfl⟩ : membersWhole members = true ∧ closed = true := by
        simpa [isWhole] using ht
      rw [tokens, List.cons_append, build]
      cases members with
      | nil => rfl
      | cons first more =>
          obtain ⟨key, t⟩ := first
          obtain ⟨hfirst, hmore⟩ : t.isWhole = true ∧ membersWhole more = true := by
            simpa [membersWhole] using hmembers
          rw [memberTokens, List.cons_append, List.cons_append, build, build, List.append_assoc,
            build_tokens t hfirst, build_laterMembers more hmore]
          rfl

theorem build_laterItems (items : List Tree) (hitems : itemsWhole items = true) (t : Tree)
    (done : List Tree) (stack : List Frame) (rest : List Token) :
    build (.after t) (.array done :: stack) (laterItemTokens items ++ rest) =
      build (.after (.array (done.reverse ++ t :: items) true)) stack rest := by
  cases items with
  | nil => simp [laterItemTokens, build]
  | cons next more =>
      obtain ⟨hnext, hmore⟩ : next.isWhole = true ∧ itemsWhole more = true := by
        simpa [itemsWhole] using hitems
      rw [laterItemTokens, List.cons_append, build, List.append_assoc, build_tokens next hnext,
        build_laterItems more hmore]
      simp

theorem build_laterMembers (members : List (List Char × Tree))
    (hmembers : membersWhole members = true) (t : Tree) (key : List Char)
    (done : List (List Char × Tree)) (stack : List Frame) (rest : List Token) :
    build (.after t) (.object done key :: stack) (laterMemberTokens members ++ rest) =
      build (.after (.object (done.reverse ++ (key, t) :: members) true)) stack rest := by
  cases members with
  | nil => simp [laterMemberTokens, build]
  | cons next more =>
      obtain ⟨key', t'⟩ := next
      obtain ⟨hnext, hmore⟩ : t'.isWhole = true ∧ membersWhole more = true := by
        simpa [membersWhole] using hmembers
      rw [laterMemberTokens, List.cons_append, List.cons_append, List.cons_append, build, build,
        build, List.append_assoc, build_tokens t' hnext, build_laterMembers more hmore]
      simp

end

theorem ofText_of_isText {t : Tree} {cs : List Char} (h : t.IsText cs) : ofText cs = (t, true) := by
  have hseparated := separated_tokens t (List.isChain_nil) (by simp)
  have hbuild := build_tokens t h.whole [] []
  rw [List.append_nil] at hseparated hbuild
  rw [ofText, tokens_of_areTexts h.tokens hseparated, hbuild, build]
  rfl

end Tree
end Json
end InputDeck
