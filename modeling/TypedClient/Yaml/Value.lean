import TypedClient.Yaml.Merge
import TypedClient.Yaml.Reader
import TypedClient.Yaml.Scalar
/-!
# Value — what a YAML text says

The vertices of a document become values.  Scalars are read as what they are tagged with.  A collection is begun where it is met,
and filled later: collections are filled in rounds, one round for what the round before began.  So a text with several faults
tells the one that is nearest to the root, and of those the first.  A collection that is met again is the same collection.
-/
namespace TypedClient
namespace Yaml

/-- A value in its place: an atom, or the collection that a vertex stands for. -/
inductive Item where
  | atom (a : Atom)
  | collection (vertex : Nat)
  deriving DecidableEq, Inhabited

/-- A collection.  Keys and members are atoms. -/
inductive Collection where
  | list (items : List Item)
  | map (entries : List (Atom × Item))
  | set (members : List Atom)
  /-- A list of pairs. -/
  | pairs (entries : List (Item × Item))
  deriving DecidableEq, Inhabited

structure Value where
  root : Item
  collections : Array (Option Collection)
  deriving Inhabited

namespace Value

def collection (v : Value) (vertex : Nat) : Collection :=
  (v.collections[vertex]?.join).getD default

/-- Sets a key of a mapping: an equal key keeps its place and its form. -/
def setKey : List (Atom × Item) → Atom → Item → List (Atom × Item)
  | [], key, item => [(key, item)]
  | (k, x) :: rest, key, item => if k.alike key then (k, item) :: rest else (k, x) :: setKey rest key item

/-! ## Making -/

/-- The graph as far as it is flattened, the collections that are begun, and those of them that the next round fills, the latest
first. -/
structure Maker where
  graph : Graph
  collections : Array (Option Collection)
  next : List Nat

abbrev Make := StateT Maker (Except Fault)

/-- The text of a vertex: of a scalar its own, of a mapping that of its default value.  A mapping may be its own default value. -/
def textOf (g : Graph) : Nat → Nat → Except Fault String
  | 0, _ => .error .endless
  | fuel + 1, i =>
    match (g.vertex i).content with
    | .scalar text => .ok text
    | .sequence _ => .error .malformed
    | .mapping entries =>
      match entries.find? fun (key, _) => g.tag key = .value with
      | some (_, value) => textOf g fuel value
      | none => .error .malformed

def start (i : Nat) : Make Unit :=
  modify fun m =>
    match m.collections[i]?.join with
    | some _ => m
    | none => { m with collections := m.collections.setIfInBounds i (some default), next := i :: m.next }

/-- The atom that a vertex of a kind stands for.  A time has to be written as a scalar. -/
def atomOf (g : Graph) (i : Nat) (tag : Tag) : Except Fault Atom :=
  match textOf g (g.size + 1) i with
  | .error e => .error e
  | .ok text => if tag = .timestamp && (g.entries? i).isSome then .error .notScalar else Scalar.read tag text

/-- **The value of a vertex.** -/
def item (i : Nat) : Make Item := do
  let g := (← get).graph
  match g.tag i with
  | .seq | .map | .set | .omap | .pairs =>
    start i
    return .collection i
  | .merge | .value | .unknown => throw .malformed
  | tag =>
    match atomOf g i tag with
    | .ok a => return .atom a
    | .error e => throw e

def key (i : Nat) : Make Atom := do
  match ← item i with
  | .atom a => return a
  | .collection _ => throw .malformed

def mapOf (acc : List (Atom × Item)) : List (Nat × Nat) → Make (List (Atom × Item))
  | [] => return acc
  | (k, x) :: rest => do
    let k ← key k
    let x ← item x
    mapOf (setKey acc k x) rest

def entriesOf (i : Nat) : Make (List (Nat × Nat)) := do
  match (← get).graph.entries? i with
  | some entries => return entries
  | none => throw .malformed

def flatMap (i : Nat) : Make (List (Atom × Item)) := do
  let _ ← entriesOf i
  let m ← get
  match (Graph.flatten (m.graph.entryCount + 2) i).run m.graph with
  | .error e => throw e
  | .ok (_, g) =>
    set { m with graph := g }
    mapOf [] (← entriesOf i)

def itemsOf (i : Nat) : Make (List Nat) := do
  match ((← get).graph.vertex i).content with
  | .sequence items => return items
  | _ => throw .malformed

def pairOf (i : Nat) : Make (Item × Item) := do
  match ← entriesOf i with
  | [(k, x)] => return (← item k, ← item x)
  | _ => throw .malformed

def fill (i : Nat) : Make Unit := do
  let found ← match (← get).graph.tag i with
    | .map => pure (.map (← flatMap i))
    | .set => pure (.set ((← flatMap i).map (·.1)))
    | .omap | .pairs => pure (.pairs (← (← itemsOf i).mapM pairOf))
    | _ => pure (.list (← (← itemsOf i).mapM item))
  modify fun m => { m with collections := m.collections.setIfInBounds i (some found) }

/-- Fills collections round after round.  Every collection is filled once, so that as many rounds as vertices are enough. -/
def rounds : Nat → List Nat → Make Unit
  | _, [] => return
  | 0, _ => throw .endless
  | fuel + 1, begun => do
    begun.forM fill
    let m ← get
    set { m with next := [] }
    rounds fuel m.next.reverse

/-- **The value of a graph** from a root on. -/
def ofGraph (g : Graph) (root : Nat) : Except Fault Value :=
  let all : Make Item := do
    let root ← item root
    let m ← get
    set { m with next := [] }
    rounds (g.size + 1) m.next
    return root
  match all.run ⟨g, Array.replicate g.size none, []⟩ with
  | .ok (root, m) => .ok ⟨root, m.collections⟩
  | .error e => .error e

/-- The value of a text; a text without a document is nothing. -/
def ofText (text : String) : Except Fault Value :=
  match Graph.ofText text with
  | .error e => .error e
  | .ok none => .ok ⟨.atom .null, #[]⟩
  | .ok (some (g, root)) => ofGraph g root

end Value

/-- A text as it is read from a file: every line end is a line feed. -/
def normalizeLineEnds : List Char → List Char
  | [] => []
  | '\r' :: '\n' :: rest => '\n' :: normalizeLineEnds rest
  | '\r' :: rest => '\n' :: normalizeLineEnds rest
  | c :: rest => c :: normalizeLineEnds rest

/-- A reader of YAML: the value that a text holds. -/
abbrev Loader := String → Except Fault Value

/-- **The value that a file with this text holds.** -/
def load : Loader := fun text =>
  Value.ofText (String.ofList (normalizeLineEnds text.toList))

end Yaml
end TypedClient
