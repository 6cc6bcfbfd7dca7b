/-
The structure of a JSON text as far as it follows the grammar.

Reading never fails: where the text leaves the grammar, or ends too early, the value that should
stand there is `broken` and the arrays and objects around it are not closed.  What a tree is good
for is the reader's business.  A reader that goes through the tree in order meets faults of grammar
and of its own in the order of the text.
-/
import InputDeck.Json.Token

namespace InputDeck
namespace Json

inductive Tree where
  | null
  | boolean (b : Bool)
  | number (l : Literal)
  | string (raw : List Char)
  | array (items : List Tree) (closed : Bool)
  | object (members : List (List Char × Tree)) (closed : Bool)
  | broken

namespace Tree

/-- An array or object being read, with what it holds so far, the last first. -/
inductive Frame where
  | array (items : List Tree)
  | object (members : List (List Char × Tree)) (key : List Char)

/-- What may come next. -/
inductive Place where
  | value
  | itemOrEnd
  | keyOrEnd
  | key (members : List (List Char × Tree))
  | colon (members : List (List Char × Tree)) (key : List Char)
  | after (t : Tree)

def Frame.complete (closed : Bool) (t : Tree) : Frame → Tree
  | .array items => .array (t :: items).reverse closed
  | .object members key => .object ((key, t) :: members).reverse closed

/-- The tree of a text that cannot go on, given the value where it stops. -/
def cut (t : Tree) (stack : List Frame) : Tree := stack.foldl (fun t f => f.complete false t) t

def ofLeaf : Token → Option Tree
  | .null => some .null
  | .boolean b => some (.boolean b)
  | .number l => some (.number l)
  | .string raw => some (.string raw)
  | _ => none

/-- The tree, and whether the text ends with it. -/
def build : Place → List Frame → List Token → Tree × Bool
  | .value, stack, [] => (cut .broken stack, false)
  | .value, stack, t :: rest =>
      match t with
      | .openArray => build .itemOrEnd stack rest
      | .openObject => build .keyOrEnd stack rest
      | t =>
          match ofLeaf t with
          | some leaf => build (.after leaf) stack rest
          | none => (cut .broken stack, false)
  | .itemOrEnd, stack, [] => (cut (.array [] false) stack, false)
  | .itemOrEnd, stack, t :: rest =>
      match t with
      | .closeArray => build (.after (.array [] true)) stack rest
      | .openArray => build .itemOrEnd (.array [] :: stack) rest
      | .openObject => build .keyOrEnd (.array [] :: stack) rest
      | t =>
          match ofLeaf t with
          | some leaf => build (.after leaf) (.array [] :: stack) rest
          | none => (cut (.array [.broken] false) stack, false)
  | .keyOrEnd, stack, .closeObject :: rest => build (.after (.object [] true)) stack rest
  | .keyOrEnd, stack, .string raw :: rest => build (.colon [] raw) stack rest
  | .keyOrEnd, stack, _ => (cut (.object [] false) stack, false)
  | .key members, stack, .string raw :: rest => build (.colon members raw) stack rest
  | .key members, stack, _ => (cut (.object members.reverse false) stack, false)
  | .colon members key, stack, .colon :: rest => build .value (.object members key :: stack) rest
  | .colon members key, stack, _ =>
      (cut (.object ((key, .broken) :: members).reverse false) stack, false)
  | .after t, [], rest => (t, rest.isEmpty)
  | .after t, .array items :: stack, .comma :: rest =>
      build .value (.array (t :: items) :: stack) rest
  | .after t, .array items :: stack, .closeArray :: rest =>
      build (.after (.array (t :: items).reverse true)) stack rest
  | .after t, .object members key :: stack, .comma :: rest =>
      build (.key ((key, t) :: members)) stack rest
  | .after t, .object members key :: stack, .closeObject :: rest =>
      build (.after (.object ((key, t) :: members).reverse true)) stack rest
  | .after t, stack, _ => (cut t stack, false)

/-- The tree of a text, and whether nothing but white space follows it. -/
def ofText (cs : List Char) : Tree × Bool := build .value [] (tokens cs)

mutual

/-- Whether the tree is that of a complete value. -/
def isWhole : Tree → Bool
  | .array items closed => itemsWhole items && closed
  | .object members closed => membersWhole members && closed
  | .broken => false
  | _ => true

def itemsWhole : List Tree → Bool
  | [] => true
  | t :: rest => isWhole t && itemsWhole rest

def membersWhole : List (List Char × Tree) → Bool
  | [] => true
  | (_, t) :: rest => isWhole t && membersWhole rest

end

end Tree

end Json
end InputDeck
