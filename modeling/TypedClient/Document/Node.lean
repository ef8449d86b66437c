import TypedClient.Document.Datum
/-!
# Node — the values of a document

A document is a tree of mappings, lists and scalars.  The entries of a mapping keep the order in which they are written,
and no key occurs twice.  A container that the expansion of references produced carries the pointer it was read at, its
**canonical path**; a container of a source document carries none.
-/
namespace TypedClient

/-- A document value.  `other` is a value that documents give no meaning to: a day, a moment, bytes, a set or a pair. -/
inductive Node where
  | null
  | bool (value : Bool)
  | int (value : Int)
  | float (value : Binary64)
  | str (value : String)
  | other (value : Datum)
  | list (path : Option String) (items : List Node)
  | map (path : Option String) (entries : List (String × Node))
  deriving Inhabited

namespace Node

mutual
/-- Equality of nodes as trees, canonical paths included. -/
def decEq : (a b : Node) → Decidable (a = b)
  | .null, .null => isTrue rfl
  | .bool a, .bool b => decidable_of_iff (a = b) (by simp)
  | .int a, .int b => decidable_of_iff (a = b) (by simp)
  | .float a, .float b => decidable_of_iff (a = b) (by simp)
  | .str a, .str b => decidable_of_iff (a = b) (by simp)
  | .other a, .other b => decidable_of_iff (a = b) (by simp)
  | .list p a, .list q b =>
    match decEqItems a b with
    | isTrue h => decidable_of_iff (p = q) (by simp [h])
    | isFalse h => isFalse (by simp [h])
  | .map p a, .map q b =>
    match decEqEntries a b with
    | isTrue h => decidable_of_iff (p = q) (by simp [h])
    | isFalse h => isFalse (by simp [h])
  | .null, .bool _ | .null, .int _ | .null, .float _ | .null, .str _ | .null, .other _ | .null, .list .. | .null, .map ..
  | .bool _, .null | .bool _, .int _ | .bool _, .float _ | .bool _, .str _ | .bool _, .other _ | .bool _, .list ..
  | .bool _, .map .. | .int _, .null | .int _, .bool _ | .int _, .float _ | .int _, .str _ | .int _, .other _
  | .int _, .list .. | .int _, .map .. | .float _, .null | .float _, .bool _ | .float _, .int _ | .float _, .str _
  | .float _, .other _ | .float _, .list .. | .float _, .map .. | .str _, .null | .str _, .bool _ | .str _, .int _
  | .str _, .float _ | .str _, .other _ | .str _, .list .. | .str _, .map .. | .other _, .null | .other _, .bool _
  | .other _, .int _ | .other _, .float _ | .other _, .str _ | .other _, .list .. | .other _, .map ..
  | .list .., .null | .list .., .bool _ | .list .., .int _ | .list .., .float _ | .list .., .str _ | .list .., .other _
  | .list .., .map .. | .map .., .null | .map .., .bool _ | .map .., .int _ | .map .., .float _ | .map .., .str _
  | .map .., .other _ | .map .., .list .. => isFalse (by simp)

def decEqItems : (a b : List Node) → Decidable (a = b)
  | [], [] => isTrue rfl
  | x :: xs, y :: ys =>
    match decEq x y, decEqItems xs ys with
    | isTrue h, isTrue k => isTrue (by rw [h, k])
    | isFalse h, _ => isFalse (by simp [h])
    | _, isFalse k => isFalse (by simp [k])
  | [], _ :: _ | _ :: _, [] => isFalse (by simp)

def decEqEntries : (a b : List (String × Node)) → Decidable (a = b)
  | [], [] => isTrue rfl
  | (k, x) :: xs, (l, y) :: ys =>
    if h : k = l then
      match decEq x y, decEqEntries xs ys with
      | isTrue hx, isTrue hxs => isTrue (by rw [h, hx, hxs])
      | isFalse hx, _ => isFalse (by simp [hx])
      | _, isFalse hxs => isFalse (by simp [hxs])
    else isFalse (by simp [h])
  | [], _ :: _ | _ :: _, [] => isFalse (by simp)
end

instance : DecidableEq Node := decEq

def get? (key : String) : Node → Option Node
  | .map _ entries => entries.lookup key
  | _ => none

def entries? : Node → Option (List (String × Node))
  | .map _ entries => some entries
  | _ => none

def items? : Node → Option (List Node)
  | .list _ items => some items
  | _ => none

def text? : Node → Option String
  | .str s => some s
  | _ => none

def isMap : Node → Bool
  | .map .. => true
  | _ => false

def textAt? (key : String) (node : Node) : Option String :=
  (node.get? key).bind text?

/-- The pointer at which an expanded container was read. -/
def path? : Node → Option String
  | .list path _ | .map path _ => path
  | _ => none

def ofAtom : Atom → Node
  | .null => .null
  | .bool b => .bool b
  | .int i => .int i
  | .float x => .float x
  | .str s => .str s
  | a => .other (.atom a)

mutual
/-- The node as a datum: canonical paths do not count. -/
def datum : Node → Datum
  | .null => .atom .null
  | .bool b => .atom (.bool b)
  | .int i => .atom (.int i)
  | .float x => .atom (.float x)
  | .str s => .atom (.str s)
  | .other d => d
  | .list _ items => .list (dataOf items)
  | .map _ entries => .map (entriesOf entries)

def dataOf : List Node → List Datum
  | [] => []
  | x :: xs => x.datum :: dataOf xs

def entriesOf : List (String × Node) → List (Atom × Datum)
  | [] => []
  | (k, x) :: xs => (.str k, x.datum) :: entriesOf xs
end

def truth (node : Node) : Bool := node.datum.truth

/-- **Whether two nodes are the same value.** -/
def same (a b : Node) : Bool := a.datum.same b.datum

/-- The node as text: a string is its own text.  There is none if a number has more digits than are written. -/
def toText? (node : Node) : Option String := node.datum.text?

mutual
def erasePaths : Node → Node
  | .list _ items => .list none (erasePathsItems items)
  | .map _ entries => .map none (erasePathsEntries entries)
  | node => node

def erasePathsItems : List Node → List Node
  | [] => []
  | x :: xs => x.erasePaths :: erasePathsItems xs

def erasePathsEntries : List (String × Node) → List (String × Node)
  | [] => []
  | (k, x) :: xs => (k, x.erasePaths) :: erasePathsEntries xs
end

end Node
end TypedClient
