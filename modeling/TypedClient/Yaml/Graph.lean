import TypedClient.Yaml.Tag
/-!
# Graph — the structure of a YAML document

The vertices of a document are its scalars, sequences and mappings, and are numbered.  An alias leads to the vertex of its anchor,
so that a vertex can be reached on many ways, also from inside itself.
-/
namespace TypedClient
namespace Yaml

inductive Content where
  | scalar (text : String)
  | sequence (items : List Nat)
  | mapping (entries : List (Nat × Nat))
  deriving DecidableEq, Inhabited

structure Vertex where
  tag : Tag
  content : Content
  deriving DecidableEq, Inhabited

structure Graph where
  vertices : Array Vertex
  deriving Inhabited

namespace Graph

def empty : Graph := ⟨#[]⟩

def size (g : Graph) : Nat := g.vertices.size

def vertex (g : Graph) (i : Nat) : Vertex := g.vertices[i]?.getD default

def tag (g : Graph) (i : Nat) : Tag := (g.vertex i).tag

def entries? (g : Graph) (i : Nat) : Option (List (Nat × Nat)) :=
  match (g.vertex i).content with
  | .mapping entries => some entries
  | _ => none

/-- The graph with one vertex more; its number is the former size. -/
def add (g : Graph) (v : Vertex) : Graph := ⟨g.vertices.push v⟩

def put (g : Graph) (i : Nat) (v : Vertex) : Graph := ⟨g.vertices.setIfInBounds i v⟩

def setTag (g : Graph) (i : Nat) (tag : Tag) : Graph := g.put i ⟨tag, (g.vertex i).content⟩

def setEntries (g : Graph) (i : Nat) (entries : List (Nat × Nat)) : Graph := g.put i ⟨g.tag i, .mapping entries⟩

def entryCount (g : Graph) : Nat :=
  g.vertices.foldl (fun n v =>
    match v.content with
    | .mapping entries => n + entries.length
    | _ => n) 0

end Graph
end Yaml
end TypedClient
