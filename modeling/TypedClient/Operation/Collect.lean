import TypedClient.Document.Node
import TypedClient.Grouped
import TypedClient.Naming.Identifier
/-!
# Collect — the operations of a document

An operation is a mapping under a request method under a path.  Operations are grouped into API classes: the class of an
operation is named by the definition of its first tag that names one, and is the default class otherwise.
-/
namespace TypedClient
namespace Operation

def verbs : List String :=
  ["get", "put", "post", "delete", "patch", "head", "options", "trace"]

structure Spec where
  path : String
  verb : String
  operation : Node
  pathItem : Node
  deriving DecidableEq, Inhabited

def collectItem (path : String) (pathItem : Node) : List Spec :=
  (pathItem.entries?.getD []).filterMap fun (verb, operation) =>
    if verbs.contains verb && operation.isMap then some ⟨path, verb, operation, pathItem⟩ else none

/-- **Every operation of a document**, in document order. -/
def collect (document : Node) : List Spec :=
  (((document.get? "paths").bind Node.entries?).getD []).flatMap fun (path, pathItem) => collectItem path pathItem

/-- The key under which the definition of a tag names a class. -/
def classKey : String := "x-codegen-class"

def className? (tag : Node) : List Node → Option String
  | [] => none
  | definition :: rest =>
    if definition.isMap && ((definition.get? "name").getD .null).same tag then
      match definition.textAt? classKey with
      | some name => if name.isEmpty then none else some (Naming.sanitize name)
      | none => none
    else className? tag rest

/-- **The class of an operation.** -/
def apiName (operation : Node) (tagDefinitions : List Node) (default : String) : String :=
  match (operation.get? "tags").bind Node.items? with
  | some tags => (tags.findSome? fun tag => className? tag tagDefinitions).getD default
  | none => default

/-- **The operations of a document by class**, classes in the order of their first operations. -/
def group (document : Node) (default : String) : Grouped Spec :=
  let tagDefinitions := ((document.get? "tags").bind Node.items?).getD []
  Grouped.ofList ((collect document).map fun spec => (apiName spec.operation tagDefinitions default, spec))

end Operation
end TypedClient
