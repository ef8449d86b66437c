import TypedClient.Document.Node
/-!
# Schema — the shapes of data

A schema is read out of an expanded document.  A **reference** is what the expansion left where it cut a cycle: it stands
for the schema at its pointer.
-/
namespace TypedClient

/-- What every schema body has: the place it was read at, if the document was expanded, and its description. -/
structure SchemaInfo where
  path : Option String
  description : Option String
  deriving DecidableEq, Inhabited

inductive Schema where
  /-- The schema at a pointer, left in place of a cycle. -/
  | reference (pointer : String)
  /-- An object: its properties in order, and the names it requires. -/
  | object (info : SchemaInfo) (properties : List (String × Schema)) (required : List String)
  /-- An array, with the schema of its items if it has one. -/
  | array (info : SchemaInfo) (items : Option Schema)
  /-- One of several scalars of one type. -/
  | enumeration (info : SchemaInfo) (type : String) (values : List Node)
  /-- All of several schemas at once. -/
  | merge (info : SchemaInfo) (members : List Schema)
  /-- A value of one of the named types. -/
  | primitive (info : SchemaInfo) (types : List String)
  /-- Any value. -/
  | untyped (info : SchemaInfo)
  deriving Inhabited

namespace Schema

def info? : Schema → Option SchemaInfo
  | .reference _ => none
  | .object info .. | .array info _ | .enumeration info .. | .merge info _ | .primitive info _ | .untyped info => some info

/-- The place of a schema in the document; a reference is at the place it refers to. -/
def path? : Schema → Option String
  | .reference pointer => some pointer
  | schema => schema.info?.bind (·.path)

def description? (schema : Schema) : Option String :=
  schema.info?.bind (·.description)

end Schema
end TypedClient
