import TypedClient.Codegen.Session
/-!
# Types — type expressions for schemas

A schema whose place already has a definition is that definition, imported if another module made it.  Any other schema is
spelled out; an object with a name of its own becomes a typedef of the module, entered under its name before its body is
made, so that references back to it find it.
-/
namespace TypedClient
namespace Codegen

open Emit (TypeExpr TypedefBody Field)

/-- The type of a primitive type's name. -/
def primitiveType (name : String) : TypeExpr :=
  .word (if name = "integer" then "number" else name)

def literals (values : List Node) : Gen (List TypeExpr) :=
  values.mapM fun value =>
    match Emit.literal value with
    | .ok text => pure (.literal text)
    | .error e => throw (.unwritable e)

def texts (values : List Node) : Gen (List String) :=
  values.mapM fun value =>
    match Emit.textOf value with
    | .ok text => pure text
    | .error e => throw (.unwritable e)

def enumerationType (values : List Node) : Gen TypeExpr :=
  if values.isEmpty then return .never else return .union (← literals values)

/-- The type of a definition, imported if need be. -/
def nameOf (d : Scope.Definition) : Gen String := do
  let localName ← importSymbol d.localName none
  reportBodiless localName d
  return localName

def showPlace (place : Option String) : String :=
  place.getD "None"

/-- **Enters a name for a schema.**  If its place has a definition, the name becomes an alias of that.  Otherwise the name
is defined, and `body` makes its typedef; without one, the name has no body. -/
def enterTypedef (name : String) (place description : Option String) (body : Gen (Option TypedefBody)) :
    Gen String := do
  match ← definition? place with
  | some d =>
    -- an alias has no place: references to this one keep leading to its first name
    let _ ← define name none false
    let target ← nameOf d
    addTypedef ⟨name, .synonym (.named target), description⟩
  | none =>
    let _ ← define name place false
    match ← body with
    | some body => addTypedef ⟨name, body, description⟩
    | none =>
      match place with
      | some place => markBodiless place
      | none => pure ()
      warn ("No typedef body generated for '" ++ name ++ "' (" ++ showPlace place ++ ")")
  return name

/-- The definition at a place if there is one, otherwise what else is to be done. -/
def orDefined (place : Option String) (otherwise : Gen TypeExpr) : Gen TypeExpr := do
  match ← definition? place with
  | some d => return .named (← nameOf d)
  | none => otherwise

mutual
/-- **The type expression of a schema.**  `name` is the name of the typedef that an object gets; an array passes it on to its
items with `Item` behind it. -/
def typeOf : Schema → Option String → Gen TypeExpr
  | .reference pointer, _ => orDefined (some pointer) do
    warn ("Unresolved cyclic reference " ++ pointer ++ " resolved as 'any'")
    return .any
  | .merge info members, _ => orDefined info.path do
    if members.isEmpty then return .any else return .both (← typesOf members)
  | .array info items, name => orDefined info.path do
    return .array (← itemType items (name.map (· ++ "Item")))
  | .object info properties required, name => orDefined info.path (
    match name with
    | some name => do
      return .named (← enterTypedef name info.path info.description (do
        return some (.object (← fieldsOf required properties))))
    | none => return .object)
  | .enumeration info _ values, _ => orDefined info.path (enumerationType values)
  | .primitive info types, _ => orDefined info.path (return .union (types.map primitiveType))
  | .untyped info, _ => orDefined info.path (return .any)

def itemType : Option Schema → Option String → Gen TypeExpr
  | some schema, name => typeOf schema name
  | none, _ => return .undefined

def typesOf : List Schema → Gen (List TypeExpr)
  | [] => return []
  | schema :: rest => do
    let type ← typeOf schema none
    return type :: (← typesOf rest)

def fieldsOf (required : List String) : List (String × Schema) → Gen (List Field)
  | [] => return []
  | (name, schema) :: rest => do
    let type ← typeOf schema none
    return ⟨name, type, required.contains name, schema.description?⟩ :: (← fieldsOf required rest)
end

/-- The type expressions of the members of a merge, each under a name of its own. -/
def memberTypes (name : String) : Nat → List Schema → Gen (List TypeExpr)
  | _, [] => return []
  | index, schema :: rest => do
    let type ← typeOf schema (some (name ++ "UnionMember" ++ toString index))
    return type :: (← memberTypes name (index + 1) rest)

/-- A scalar type as the body of a typedef, if such bodies are wanted. -/
def scalarBody (type : Gen TypeExpr) : Gen (Option TypedefBody) := do
  if (← get).draft.aliasScalars then return some (.synonym (← type)) else return none

/-- **The body of the typedef for a schema**, none for a reference, and for a scalar unless scalars are wanted. -/
def bodyOf (name : String) : Schema → Gen (Option TypedefBody)
  | .reference _ => return none
  | .object _ properties required => return some (.object (← fieldsOf required properties))
  | .array _ items => return some (.array (← itemType items none))
  | .merge _ members => return some (.members (← memberTypes name 0 members))
  | .enumeration _ type values =>
    if type = "string" then return some (.variants (← texts values)) else scalarBody (enumerationType values)
  | .primitive _ types => scalarBody (return .union (types.map primitiveType))
  | .untyped _ => scalarBody (return .any)

/-- The type expression of a schema, if there is one; the empty name counts as none. -/
def resolveType (schema : Option Schema) (name : Option String) : Gen TypeExpr :=
  itemType schema (name.filter (!·.isEmpty))

/-- **Makes the typedef of a named schema**, and gives back the name. -/
def generateTypedef (name : String) (schema : Schema) : Gen String :=
  enterTypedef name schema.path? schema.description? (bodyOf name schema)

end Codegen
end TypedClient
