import TypedClient.Schema.Basic
/-!
# Read — schemas out of documents

The shape of a schema is decided in a fixed order: a lone reference, `allOf`, the declared type `array`, the declared type
`object`, an enumeration of strings or numbers, no declared type, and else the declared types.  What is malformed is left
out.
-/
namespace TypedClient
namespace Schema

/-- The strings among the items of a list. -/
def texts (items : List Node) : List String :=
  items.filterMap Node.text?

/-- **The declared types.**  A nullable object or array counts as the object or array. -/
def declaredTypes : Option Node → List String
  | some (.str name) => [name]
  | some (.list _ items) =>
    let names := texts items
    match names.filter (· != "null") with
    | [one] => if one = "object" || one = "array" then [one] else names
    | _ => names
  | _ => []

def enumerableTypes : List String := ["string", "integer", "number"]

def isScalar : Node → Bool
  | .list .. | .map .. => false
  | _ => true

def infoOf (path : Option String) (entries : List (String × Node)) : SchemaInfo :=
  ⟨path, (entries.lookup "description").bind Node.text?⟩

def requiredNames (entries : List (String × Node)) : List String :=
  match entries.lookup "required" with
  | some (.list _ items) => texts items
  | _ => []

/-- The reference that a mapping consists of, if it is nothing but a reference. -/
def loneReference? : List (String × Node) → Option String
  | [("$ref", .str pointer)] => some pointer
  | _ => none

/-- The schema of a mapping that has no schemas inside it. -/
def leaf (info : SchemaInfo) (types : List String) (entries : List (String × Node)) : Schema :=
  match types, entries.lookup "enum" with
  | [], _ => .untyped info
  | [type], some (.list _ values) =>
    if enumerableTypes.contains type then .enumeration info type (values.filter isScalar) else .primitive info types
  | _, _ => .primitive info types

mutual
/-- **The schema of a node**, `none` if the node is no mapping. -/
def read? : Node → Option Schema
  | .map path entries =>
    match loneReference? entries with
    | some pointer => some (.reference pointer)
    | none =>
      let info := infoOf path entries
      let types := declaredTypes (entries.lookup "type")
      match membersIn? "allOf" entries with
      | some members => some (.merge info members)
      | none =>
        if types = ["array"] then some (.array info (schemaIn? "items" entries))
        else if types = ["object"] then some (.object info (propertiesIn "properties" entries) (requiredNames entries))
        else some (leaf info types entries)
  | _ => none

def schemaIn? (key : String) : List (String × Node) → Option Schema
  | [] => none
  | (k, value) :: rest => if k = key then read? value else schemaIn? key rest

def membersIn? (key : String) : List (String × Node) → Option (List Schema)
  | [] => none
  | (k, value) :: rest => if k = key then listed? value else membersIn? key rest

def listed? : Node → Option (List Schema)
  | .list _ items => some (readItems items)
  | _ => none

def propertiesIn (key : String) : List (String × Node) → List (String × Schema)
  | [] => []
  | (k, value) :: rest => if k = key then named value else propertiesIn key rest

def named : Node → List (String × Schema)
  | .map _ entries => readEntries entries
  | _ => []

def readItems : List Node → List Schema
  | [] => []
  | x :: xs =>
    match read? x with
    | some schema => schema :: readItems xs
    | none => readItems xs

def readEntries : List (String × Node) → List (String × Schema)
  | [] => []
  | (key, x) :: rest =>
    match read? x with
    | some schema => (key, schema) :: readEntries rest
    | none => readEntries rest
end

end Schema
end TypedClient
