import TypedClient.Document.Pointer
/-!
# Expand — references replaced by what they refer to

Expansion copies a tree, stamps every container with its canonical path, and replaces every **reference** (a mapping with
text under `$ref`) by the expansion of its target.  A reference to a place that is still being expanded would go round in
circles: it becomes a **stub**, a mapping of the reference alone.

An expansion without stubs does not depend on where it was begun, so it is remembered and used again.  One with stubs is
not: begun elsewhere, it might be cut elsewhere.

The walk over a tree is structural.  Following a reference jumps to another place of the document, so the number of jumps
inside one another is bounded by a depth; a walk that goes deeper is endless.
-/
namespace TypedClient

inductive ExpandError where
  /-- The reference points outside the document. -/
  | remote (reference : String)
  /-- The reference designates nothing. -/
  | unresolvable (reference : String)
  /-- The reference indexes a list by a numeral that spells no number. -/
  | unreadableIndex (token : String)
  /-- References lead on and on. -/
  | endless
  deriving DecidableEq

namespace ExpandError

def message : ExpandError → String
  | .remote reference => "Only local references are currently supported: " ++ reference
  | .unresolvable reference => "Unresolvable reference: " ++ reference
  | .unreadableIndex token => "Unreadable list index: " ++ token
  | .endless => "References without end"

end ExpandError

/-- What an expansion keeps: the places that are being expanded, the finished expansions without stubs by their place, the
latest first, and the number of stubs made so far. -/
structure Expansion where
  active : List String
  finished : List (String × Node)
  stubs : Nat
  deriving Inhabited

namespace Expansion

def empty : Expansion := ⟨[], [], 0⟩

/-- A step of an expansion; what it learned stays when it fails. -/
abbrev Step := EStateM ExpandError Expansion

/-- The place is being expanded. -/
def begin (path : String) (s : Expansion) : Expansion :=
  { s with active := if s.active.contains path then s.active else path :: s.active }

def finish (path : String) (s : Expansion) : Expansion :=
  { s with active := s.active.filter (· != path) }

/-- **Expands one place.**  A finished expansion is used again.  Otherwise the place is active while `body` runs, and the
result is remembered if `body` made no stub. -/
def place (path : String) (body : Step Node) : Step Node := fun s =>
  match s.finished.lookup path with
  | some node => .ok node s
  | none =>
    match body (s.begin path) with
    | .ok node t =>
      let t := t.finish path
      -- with a stub inside, the node depends on what was active when it was made
      .ok node (if t.stubs = s.stubs then { t with finished := (path, node) :: t.finished } else t)
    | .error e t => .error e (t.finish path)

/-- The key that makes a mapping a reference. -/
def referenceKey : String := "$ref"

def reference? (entries : List (String × Node)) : Option String :=
  (entries.lookup referenceKey).bind Node.text?

/-- What stands where a reference would go round in circles. -/
def stub (reference : String) : Node :=
  .map (some reference) [(referenceKey, .str reference)]

/-- The entries with a key set: in its place if it is there, at the end if not. -/
def setEntry (entries : List (String × Node)) (key : String) (value : Node) : List (String × Node) :=
  match entries with
  | [] => [(key, value)]
  | (k, v) :: rest => if k = key then (key, value) :: rest else (k, v) :: setEntry rest key value

def setEntries (entries changes : List (String × Node)) : List (String × Node) :=
  changes.foldl (fun acc (key, value) => setEntry acc key value) entries

/-- Follows a reference unless it is remote or its target is being expanded. -/
def followUnlessActive (follow : String → Step Node) (reference : String) : Step (Node × Bool) := fun s =>
  if !Text.startsWith reference "#" then .error (.remote reference) s
  else if s.active.contains reference then .ok (stub reference, true) { s with stubs := s.stubs + 1 }
  else
    match follow reference s with
    | .ok node t => .ok (node, false) t
    | .error e t => .error e t

mutual
/-- **Expands a tree that stands at `path`**, with `follow` to expand what a reference designates.  A reference to a mapping
becomes a mapping at the target's place: the mark of the reference, the target's entries, and the entries that stand beside
the reference. -/
def expandNode (follow : String → Step Node) : Node → String → Step Node
  | .list _ items, path => place path do
    return .list (some path) (← expandItems follow items path 0)
  | .map _ entries, path => place path (
    match reference? entries with
    | none => do
      return .map (some path) (← expandEntries follow (fun _ => true) entries path)
    | some reference => do
      match ← followUnlessActive follow reference with
      | (.map _ found, false) =>
        let siblings ← expandEntries follow (· != referenceKey) entries path
        return .map (some reference) (setEntries (setEntries [(referenceKey, .str reference)] found) siblings)
      | (node, _) => return node)
  | scalar, _ => pure scalar

def expandItems (follow : String → Step Node) : List Node → String → Nat → Step (List Node)
  | [], _, _ => pure []
  | x :: xs, path, index => do
    let y ← expandNode follow x (Pointer.item path index)
    return y :: (← expandItems follow xs path (index + 1))

/-- Expands the entries of a mapping whose keys are wanted. -/
def expandEntries (follow : String → Step Node) (wanted : String → Bool) :
    List (String × Node) → String → Step (List (String × Node))
  | [], _ => pure []
  | (key, x) :: rest, path =>
    if wanted key then do
      let y ← expandNode follow x (Pointer.child path key)
      return (key, y) :: (← expandEntries follow wanted rest path)
    else expandEntries follow wanted rest path
end

/-- What a reference designates in the document. -/
def target (document : Node) (reference : String) : Except ExpandError Node :=
  match Pointer.resolve document reference with
  | .error e => .error (.unreadableIndex e.token)
  | .ok none | .ok (some .null) => .error (.unresolvable reference)
  | .ok (some node) => .ok node

/-- **Expands what a reference designates in the document**, with at most `depth` jumps inside one another. -/
def follow (document : Node) : Nat → String → Step Node
  | 0, _ => throw .endless
  | depth + 1, reference =>
    match target document reference with
    | .error e => throw e
    | .ok node => expandNode (follow document depth) node reference

mutual
def references : Node → List String
  | .list _ items => referencesOfItems items
  | .map _ entries => (reference? entries).toList ++ referencesOfEntries entries
  | _ => []

def referencesOfItems : List Node → List String
  | [] => []
  | x :: xs => references x ++ referencesOfItems xs

def referencesOfEntries : List (String × Node) → List String
  | [] => []
  | (_, x) :: rest => references x ++ referencesOfEntries rest
end

/-- How many jumps inside one another an expansion has room for.  Without a cycle no reference is met inside itself, so that
there is room for every expansion without one; cycles are mostly cut soon after they close. -/
def depthLimit (document node : Node) : Nat :=
  (references document).length + (references node).length + 600

/-- Expands a node of the document that stands at `path`, with at most `depth` jumps inside one another. -/
def within (document : Node) (depth : Nat) (node : Node) (path : String) : Step Node :=
  expandNode (follow document depth) node path

/-- The node that is expanded when `node` is asked for: null asks for the whole document. -/
def asked (document node : Node) : Node :=
  match node with
  | .null => document
  | node => node

/-- Expands what is asked for as if it stood at `path`. -/
def expandAt (document node : Node) (path : String) : Step Node :=
  let node := asked document node
  within document (depthLimit document node) node path

end Expansion

/-- **What is asked for with every reference expanded**, or the reason why there is no such thing. -/
def Node.expandAt (document node : Node) (path : String) : Except ExpandError Node :=
  match Expansion.expandAt document node path .empty with
  | .ok result _ => .ok result
  | .error e _ => .error e

def Node.expand (document : Node) : Except ExpandError Node :=
  document.expandAt document "#"

end TypedClient
