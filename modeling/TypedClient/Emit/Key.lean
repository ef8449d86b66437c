import TypedClient.Naming.Identifier
import TypedClient.Document.Node
/-!
# Key — literals and property keys

A value of the document is printed as the literal type that holds it alone.  A property key is printed bare when it is an
identifier and as a quoted literal when it is not.
-/
namespace TypedClient
namespace Emit

inductive Unwritable where
  /-- A whole number has more digits than are written. -/
  | tooLong
  /-- No literal denotes a value of this kind. -/
  | kind
  /-- The value contains itself. -/
  | endless
  deriving DecidableEq

/-- The literal of a number that may be none, or infinite. -/
def floatLiteral : Binary64 → String
  | .nan => "NaN"
  | .infinite negative => if negative then "-Infinity" else "Infinity"
  | x => x.toText

def atomLiteral (quote : String → String) : Atom → Except Unwritable String
  | .str s => .ok (quote s)
  | .bool b => .ok (if b then "true" else "false")
  | .null => .ok "null"
  | .int i =>
    match Text.intText? i with
    | some text => .ok text
    | none => .error .tooLong
  | .float x => .ok (floatLiteral x)
  | .day _ | .moment _ | .bytes _ => .error .kind

/-- The literal of a key of a mapping: always a string. -/
def keyLiteral : Atom → Except Unwritable String
  | .str s => .ok (Text.quoteAscii s)
  | a => (atomLiteral id a).map Text.quoteAscii

mutual
/-- The literal of a value with parts.  Its strings are written in ASCII; a pair is a list of two. -/
def datumLiteral : Datum → Except Unwritable String
  | .atom a => atomLiteral Text.quoteAscii a
  | .list items => (itemLiterals items).map fun ss => "[" ++ ", ".intercalate ss ++ "]"
  | .map entries => (entryLiterals entries).map fun ss => "\x7b" ++ ", ".intercalate ss ++ "\x7d"
  | .pair a b =>
    match datumLiteral a, datumLiteral b with
    | .ok s, .ok t => .ok ("[" ++ s ++ ", " ++ t ++ "]")
    | .error e, _ | _, .error e => .error e
  | .set _ => .error .kind
  | .again _ => .error .endless

def itemLiterals : List Datum → Except Unwritable (List String)
  | [] => .ok []
  | x :: xs =>
    match datumLiteral x, itemLiterals xs with
    | .ok s, .ok ss => .ok (s :: ss)
    | .error e, _ | _, .error e => .error e

def entryLiterals : List (Atom × Datum) → Except Unwritable (List String)
  | [] => .ok []
  | (k, x) :: xs =>
    match keyLiteral k, datumLiteral x, entryLiterals xs with
    | .ok s, .ok t, .ok ss => .ok ((s ++ ": " ++ t) :: ss)
    | .error e, _, _ | _, .error e, _ | _, _, .error e => .error e
end

/-- **The literal of a value.**  A string by itself keeps its characters. -/
def literal (node : Node) : Except Unwritable String :=
  match node.datum with
  | .atom a => atomLiteral Text.quote a
  | d => datumLiteral d

def textOf (node : Node) : Except Unwritable String :=
  match node.toText? with
  | some text => .ok text
  | none => .error .tooLong

/-- Whether a key may stand bare: it is an identifier, a single line feed behind it not counted. -/
def isBareKey (name : String) : Bool :=
  Naming.isIdentifier name.toList ||
    (name.toList.getLast? == some '\n' && Naming.isIdentifier name.toList.dropLast)

/-- **The key of a property.** -/
def propertyKey (name : String) : String :=
  if isBareKey name then name else Text.quote name

end Emit
end TypedClient
