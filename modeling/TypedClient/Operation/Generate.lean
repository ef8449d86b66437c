import TypedClient.Operation.Arguments
import TypedClient.Naming.Label
import TypedClient.Emit.PathTemplate
/-!
# Generate — operations as methods

A method returns the union of the types of all declared bodies.  A body is unwrapped where its media type asks for it by a
dotted path, and where it is an object of a single property that has no name of its own.
-/
namespace TypedClient
namespace Operation

open Emit (Argument Method Unwrapping TypeExpr)
open Codegen (Gen)

/-- The key under which an operation names its method. -/
def methodKey : String := "x-codegen-method-name"

/-- The key under which a media type says how its body is unwrapped. -/
def unwrapKey : String := "x-codegen-translate-response"

/-- **The name of an operation's method**: the one it declares, or else one made from path and request method. -/
def Spec.name (spec : Spec) : String :=
  match (trimmedAt? "operationId" spec.operation).orElse fun _ => trimmedAt? methodKey spec.operation with
  | some name => Naming.sanitize name
  | none => Naming.methodName spec.path spec.verb

/-- The property of an object of a single property that is read where the media type itself stands, or in a document that
was not expanded. -/
def soleProperty? (schema : Schema) (media : Node) : Option (String × Schema) :=
  match schema with
  | .object info [property] _ =>
    match info.path, media.path? with
    | some place, some mediaPlace => if place = mediaPlace ++ "/schema" then some property else none
    | _, _ => some property
  | _ => none

/-- How a body is unwrapped: the path, the schema it leads to, and its steps; `none` if it is returned whole. -/
def unwrap? (schema : Option Schema) (media : Node) :
    Except Schema.PathError (Option (String × Option Schema × List Schema.Step)) :=
  let asked := (media.textAt? unwrapKey).filter (!·.isEmpty)
  match asked with
  | some path => (Schema.followPath schema path).map fun (target, steps) => some (path, target, steps)
  | none =>
    .ok ((schema.bind (soleProperty? · media)).map fun (name, target) => (name, some target, [.property name]))

/-- The schema that the type of a body is made from: the one its unwrapping leads to, or its own. -/
def returned (schema : Option Schema) : Option (String × Option Schema × List Schema.Step) → Option Schema
  | some (_, target, _) => target
  | none => schema

structure Responses where
  types : List TypeExpr
  unwrappings : List Unwrapping
  deriving Inhabited

def bodyType (operationName status : String) (declared : List String) (several : Bool) (contentType : String)
    (media : Node) : Gen (TypeExpr × Option Unwrapping) := do
  let schema := (media.get? "schema").bind Schema.read?
  Codegen.warnIf schema.isNone
    ("Response " ++ status ++ " " ++ contentType ++ " of " ++ operationName ++ " has no schema")
  match unwrap? schema media with
  | .error e => throw (.schemaPath e)
  | .ok unwrapping =>
    let label := Naming.statusLabel status ++ (if several then Naming.mediaLabel contentType else "")
    let type ← Codegen.resolveType (returned schema unwrapping)
      (some (Text.capitalize operationName ++ label ++ "Response"))
    return (type, unwrapping.map fun (path, _, steps) =>
      ⟨status, contentType, path, steps, Emit.shadowedBy status declared⟩)

def bodyTypes (operationName status : String) (declared : List String) (several : Bool) :
    List (String × Node) → Gen (List (TypeExpr × Option Unwrapping))
  | [] => return []
  | (contentType, media) :: rest =>
    if media.isMap then do
      let found ← bodyType operationName status declared several contentType media
      return found :: (← bodyTypes operationName status declared several rest)
    else bodyTypes operationName status declared several rest

def responseTypes (operationName : String) (declared : List String) :
    List (String × Node) → Gen (List (TypeExpr × Option Unwrapping))
  | [] => return []
  | (status, response) :: rest =>
    match (response.get? "content").bind Node.entries? with
    | some content => do
      let found ← bodyTypes operationName status declared (content.length > 1) content
      return found ++ (← responseTypes operationName declared rest)
    | none => responseTypes operationName declared rest

/-- **The responses of an operation**: the types of their bodies in order, and the unwrappings, the more specific status
keys first. -/
def responsesOf (operation : Node) (operationName : String) : Gen Responses := do
  match (operation.get? "responses").bind Node.entries? with
  | none =>
    Codegen.warn ("Operation " ++ operationName ++ " declares no responses")
    return ⟨[], []⟩
  | some responses =>
    let found ← responseTypes operationName (responses.map (·.1)) responses
    let unwrappings := found.filterMap (·.2)
    let ranked (rank : Nat) := unwrappings.filter fun t => Emit.statusRank t.statusCode == rank
    return ⟨found.map (·.1), ranked 0 ++ ranked 1 ++ ranked 2⟩

/-- The union of the types of the bodies, each text once. -/
def returnType (types : List TypeExpr) : TypeExpr :=
  if types.isEmpty then .void else
  .union (types.foldl (fun kept t => if kept.any (·.text == t.text) then kept else kept ++ [t]) [])

def pathExpression (path : String) (arguments : List Argument) (operationName : String) :
    Except GenerateError String :=
  match (Emit.placeholders path).find? fun p => (placeholderArgument? arguments p).isNone with
  | some placeholder => .error (.undeclaredParameter placeholder operationName)
  | none =>
    match Emit.pathTemplate? path (placeholderArgument? arguments) with
    | some text => .ok text
    | none => .error (.undeclaredParameter "" operationName)

/-- **Generates one operation** as a method of the module. -/
def generate (spec : Spec) : Gen Method := do
  let name := spec.name
  let declared ← match spec.parameters with
    | .ok parameters => pure parameters
    | .error e => throw (.unwritable e)
  let parameters ← argumentsOf name [responseName] declared
  let body ← bodyArgument? spec.operation name (responseName :: parameters.map (·.name))
  let arguments := parameters ++ body.toList
  let responses ← responsesOf spec.operation name
  match pathExpression spec.path arguments name with
  | .error e => throw e
  | .ok path =>
    let method : Method :=
      ⟨name, spec.verb, spec.path, path, markOptional arguments, returnType responses.types, responses.unwrappings,
        body.map (·.name), documentation spec.operation (arguments.map fun a => (a.name, a.description))⟩
    Codegen.addMethod method
    return method

end Operation
end TypedClient
