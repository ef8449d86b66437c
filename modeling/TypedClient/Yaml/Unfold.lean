import TypedClient.Yaml.Value
import TypedClient.Document.Expand
/-!
# Unfold — values as trees

Lists and mappings of a value become the nodes of a document, one copy for every way that leads to them; a list or mapping inside
itself has no end.  Documents do not look into pairs, so what is in a pair becomes a datum, which may come again inside itself.
-/
namespace TypedClient
namespace Yaml
namespace Value

/-- A container on the way down: a collection, or one of its pairs. -/
abbrev Place := Nat × Option Nat

/-- The datum that an item is, inside the places of a path.  Every step inwards adds a place to the path. -/
def datum (v : Value) : Nat → List Place → Item → Datum
  | _, _, .atom a => .atom a
  | 0, _, .collection _ => .again .list
  | fuel + 1, path, .collection i =>
    let inside := (i, none) :: path
    match v.collection i with
    | .list items => if path.contains (i, none) then .again .list else .list (items.map (datum v fuel inside))
    | .map entries =>
      if path.contains (i, none) then .again .map else .map (entries.map fun (k, x) => (k, datum v fuel inside x))
    | .set members => .set members
    | .pairs entries =>
      if path.contains (i, none) then .again .list
      else .list (entries.mapIdx fun n (k, x) =>
        if path.contains (i, some n) then .again .pair
        else .pair (datum v fuel ((i, some n) :: inside) k) (datum v fuel ((i, some n) :: inside) x))

def pairNodes (v : Value) (i : Nat) (entries : List (Item × Item)) : List Node :=
  entries.mapIdx fun n (k, x) =>
    let path := [(i, some n)]
    .other (.pair (v.datum (v.collections.size + 1) path k) (v.datum (v.collections.size + 1) path x))

/-- **The node that an item is.**  The keys of mappings become text; of keys with one text the last one's value counts, at the place
of the first.  A way down that is longer than there are collections leads round in circles. -/
def node (v : Value) : Nat → Item → Except Fault Node
  | _, .atom a => .ok (.ofAtom a)
  | 0, .collection _ => .error .endless
  | fuel + 1, .collection i =>
    match v.collection i with
    | .list items => (items.mapM (node v fuel)).map (.list none)
    | .map entries =>
      let setEntry (acc : List (String × Node)) (entry : Atom × Item) : Except Fault (List (String × Node)) :=
        match entry.1.text? with
        | none => .error .tooLong
        | some key => (node v fuel entry.2).map (Expansion.setEntry acc key)
      (entries.foldlM setEntry []).map (.map none)
    | .set members => .ok (.other (.set members))
    | .pairs entries => .ok (.list none (v.pairNodes i entries))

def toNode (v : Value) : Except Fault Node :=
  v.node (v.collections.size + 1) v.root

/-- An item as a node without what is inside it. -/
def shallow (v : Value) : Item → Node
  | .atom a => .ofAtom a
  | .collection i =>
    match v.collection i with
    | .list _ | .pairs _ => .list none []
    | .map _ => .map none []
    | .set members => .other (.set members)

def kind (v : Value) : String := (v.shallow v.root).datum.kind

end Value
end Yaml
end TypedClient
