import TypedClient.Document.Node
import TypedClient.Text.Digit
/-!
# Pointer — addresses inside a document

A pointer is `#` followed by one `/` and one escaped token for every step down: the key of a mapping, or the index of a
list item.  Inside a token `~` is written `~0` and `/` is written `~1`.
-/
namespace TypedClient
namespace Pointer

def escapeChar (c : Char) : List Char :=
  if c = '~' then ['~', '0'] else if c = '/' then ['~', '1'] else [c]

def escape (token : String) : String :=
  String.ofList (token.toList.flatMap escapeChar)

/-- Reads escaped characters; a `~` that starts no escape stands for itself. -/
def unescapeChars : List Char → List Char
  | '~' :: '1' :: rest => '/' :: unescapeChars rest
  | '~' :: '0' :: rest => '~' :: unescapeChars rest
  | c :: rest => c :: unescapeChars rest
  | [] => []

def unescape (token : String) : String :=
  String.ofList (unescapeChars token.toList)

def child (pointer token : String) : String :=
  pointer ++ "/" ++ escape token

def item (pointer : String) (index : Nat) : String :=
  pointer ++ "/" ++ toString index

/-- A token of digit forms that spells no index. -/
structure UnreadableIndex where
  token : String
  deriving DecidableEq

/-- One step down.  A list is stepped into by a numeral only; a mapping by any of its keys; a scalar not at all. -/
def step (node : Node) (token : String) : Except UnreadableIndex (Option Node) :=
  match node with
  | .list _ items =>
    if Text.isNumeral token then
      match Text.readInt? token with
      | some index => .ok (items[index.toNat]?)
      | none => .error ⟨token⟩
    else .ok none
  | .map _ entries => .ok (entries.lookup token)
  | _ => .ok none

def descend : Node → List String → Except UnreadableIndex (Option Node)
  | node, [] => .ok (some node)
  | node, token :: rest =>
    match step node token with
    | .ok (some next) => descend next rest
    | other => other

def tokens? (pointer : String) : Option (List String) :=
  match pointer.toList with
  | ['#'] => some []
  | '#' :: '/' :: rest => some ((Text.splitBy (· == '/') rest).map fun cs => unescape (String.ofList cs))
  | _ => none

/-- **The node that a pointer designates**, `none` if it designates none. -/
def resolve (document : Node) (pointer : String) : Except UnreadableIndex (Option Node) :=
  match tokens? pointer with
  | some tokens => descend document tokens
  | none => .ok none

end Pointer
end TypedClient
