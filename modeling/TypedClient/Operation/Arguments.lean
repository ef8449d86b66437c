import TypedClient.Operation.Collect
import TypedClient.Codegen.Types
import TypedClient.Schema.Read
/-!
# Arguments — the parameters of an operation as arguments of a method

Parameters are declared for a path and for an operation; the latest declaration of a name and location counts, at the place
of the first.  Arguments get names of their own, and only a run of dispensable ones at the end is optional.
-/
namespace TypedClient
namespace Operation

open Emit (Argument Unwritable)
open Codegen (Gen)

/-- The text of a field without white space around it, `none` if nothing is left. -/
def trimmedAt? (key : String) (node : Node) : Option String :=
  match (node.textAt? key).map Text.trim with
  | some "" => none
  | other => other

/-- Where a parameter goes; the query unless it says otherwise. -/
def location (parameter : Node) : Except Unwritable String :=
  match parameter.get? "in" with
  | some place => Emit.textOf place
  | none => .ok "query"

structure Parameter where
  name : String
  location : String
  node : Node
  deriving DecidableEq, Inhabited

/-- The parameter that a node declares: a mapping with a text for a name. -/
def parameter? (node : Node) : Except Unwritable (Option Parameter) :=
  match node.textAt? "name" with
  | some name => (location node).map fun place => some ⟨name, place, node⟩
  | none => .ok none

def declared : List Node → Except Unwritable (List Parameter)
  | [] => .ok []
  | node :: rest =>
    match parameter? node, declared rest with
    | .ok p, .ok ps => .ok (p.toList ++ ps)
    | .error e, _ | _, .error e => .error e

def parametersOf (node : Node) : Except Unwritable (List Parameter) :=
  declared (((node.get? "parameters").bind Node.items?).getD [])

/-- Declares a parameter: in the place of one of its name and location, or at the end. -/
def declare : List Parameter → Parameter → List Parameter
  | [], p => [p]
  | q :: rest, p => if q.name = p.name && q.location = p.location then p :: rest else q :: declare rest p

/-- **The parameters of an operation**, those of its path first. -/
def Spec.parameters (spec : Spec) : Except Unwritable (List Parameter) :=
  match parametersOf spec.pathItem, parametersOf spec.operation with
  | .ok ofPath, .ok ofOperation => .ok ((ofPath ++ ofOperation).foldl declare [])
  | .error e, _ | _, .error e => .error e

/-- The names to try for an argument: the name itself, then with 2, 3 and so on behind it. -/
def argumentCandidate (base : String) (n : Nat) : String :=
  if n = 0 then base else base ++ toString (n + 1)

/-- **The first candidate that is not in use.**  Of `n + 1` candidates, `n` used names leave one free. -/
def freeArgument (used : List String) (base : String) : String :=
  (((List.range (used.length + 1)).map (argumentCandidate base)).find? (!used.contains ·)).getD base

/-- The name in a method for the response of its request. -/
def responseName : String := "res"

def argumentOf (operationName : String) (used : List String) (p : Parameter) : Gen Argument := do
  let schema := (p.node.get? "schema").bind Schema.read?
  Codegen.warnIf schema.isNone ("Parameter '" ++ p.name ++ "' of " ++ operationName ++ " has no schema")
  let name := freeArgument used (Naming.sanitize p.name)
  let type ← Codegen.resolveType schema
    (some (Text.capitalize operationName ++ Naming.typeName p.name ++ "Parameter"))
  return ⟨name, type, p.location, some p.name, trimmedAt? "description" p.node,
    p.location == "path" || ((p.node.get? "required").map Node.truth).getD false, false⟩

/-- The arguments for parameters, each with a name of its own. -/
def argumentsOf (operationName : String) : List String → List Parameter → Gen (List Argument)
  | _, [] => return []
  | used, p :: rest => do
    let argument ← argumentOf operationName used p
    return argument :: (← argumentsOf operationName (used ++ [argument.name]) rest)

def mediaSchema? (container : Node) (mediaType : String) : Option Node :=
  match (((container.get? "content").bind (·.get? mediaType)).bind (·.get? "schema")) with
  | some schema => if schema.isMap then some schema else none
  | none => none

def bodyArgument? (operation : Node) (operationName : String) (used : List String) : Gen (Option Argument) := do
  let body := (operation.get? "requestBody").getD .null
  match mediaSchema? body "application/json" with
  | none => return none
  | some node =>
    let type ← Codegen.resolveType (Schema.read? node) (some (Text.capitalize operationName ++ "Request"))
    return some ⟨freeArgument used "payload", type, "body", none, some "Request body",
      ((body.get? "required").map Node.truth).getD false, false⟩

/-- **Marks the optional arguments**: the run of dispensable ones at the end. -/
def markOptional : List Argument → List Argument
  | [] => []
  | a :: rest => { a with isOptional := a.isOptional || (!a.required && rest.all (!·.required)) } :: markOptional rest

/-- The argument that fills a placeholder: the first one for a parameter of its name. -/
def placeholderArgument? (arguments : List Argument) (placeholder : String) : Option String :=
  (arguments.find? (·.pathName == some placeholder)).map (·.name)

/-- **The documentation of a method**: summary, description, and a line for each described argument. -/
def documentation (operation : Node) (described : List (String × Option String)) : String :=
  let lines := described.filterMap fun (name, description) =>
    match description with
    | some text => if text.isEmpty then none else some ("@param " ++ name ++ " - " ++ text)
    | none => none
  let sections := (trimmedAt? "summary" operation).toList ++ (trimmedAt? "description" operation).toList ++
    (if lines.isEmpty then [] else ["\n".intercalate lines])
  "\n\n".intercalate sections

end Operation
end TypedClient
