import TypedClient.Emit.Access
import TypedClient.Emit.Typedef
/-!
# Method — an operation as a method of its class

A method sends one request and gives back the body of the response, or the part of it that an unwrapping reaches.
-/
namespace TypedClient
namespace Emit

/-- An argument of a method: its name, and the parameter of the request that it fills. -/
structure Argument where
  name : String
  type : TypeExpr
  location : String
  pathName : Option String
  description : Option String
  required : Bool
  isOptional : Bool
  deriving Inhabited

structure Method where
  name : String
  /-- The request method, in lower case. -/
  verb : String
  path : String
  pathExpression : String
  arguments : List Argument
  returnType : TypeExpr
  unwrappings : List Unwrapping
  body? : Option String
  documentation : String
  deriving Inhabited

namespace Method

/-- The arguments that fill parameters at a location. -/
def argumentsAt (m : Method) (location : String) : List Argument :=
  m.arguments.filter (·.location == location)

end Method

def Argument.declaration (a : Argument) : String :=
  a.name ++ (if a.isOptional then "?" else "") ++ ": " ++ a.type.text

def Argument.entry (a : Argument) : String :=
  "        " ++ propertyKey (a.pathName.getD "") ++ ": " ++ a.name ++ ",\n"

def entryGroup (name : String) (arguments : List Argument) : String :=
  if arguments.isEmpty then "" else
  "      " ++ name ++ ": \x7b\n" ++ String.join (arguments.map Argument.entry) ++ "      \x7d,\n"

def Unwrapping.branch (t : Unwrapping) : Except UnreadableStatus String :=
  t.condition.map fun condition =>
    "\n    if (" ++ condition ++ ") \x7b\n      return " ++ t.accessor.text ++ ";\n    \x7d\n"

def branches : List Unwrapping → Except UnreadableStatus String
  | [] => .ok ""
  | t :: rest =>
    match t.branch with
    | .error e => .error e
    | .ok text => (branches rest).map (text ++ ·)

/-- **The text of a method.** -/
def Method.text (m : Method) : Except UnreadableStatus String :=
  (branches m.unwrappings).map fun unwrapping =>
    commentBlock (some m.documentation) 2 ++
    "  async " ++ m.name ++ "(" ++ ", ".intercalate (m.arguments.map Argument.declaration) ++ "): Promise<" ++
    m.returnType.text ++ "> \x7b\n" ++
    "    const res = await this.request(\x7b\n" ++
    "      method: '" ++ Text.upper m.verb ++ "',\n" ++
    "      path: " ++ m.pathExpression ++ ",\n" ++
    entryGroup "query" (m.argumentsAt "query") ++
    entryGroup "headers" (m.argumentsAt "header") ++
    (match m.body? with
    | some name => if name.isEmpty then "" else "      body: " ++ name ++ ",\n"
    | none => "") ++
    "    \x7d);\n" ++
    unwrapping ++
    (if m.returnType.text = "void" then "" else "\n    return res.data;\n") ++
    "  \x7d\n"

def methodTexts : List Method → Except UnreadableStatus (List String)
  | [] => .ok []
  | m :: rest =>
    match m.text with
    | .error e => .error e
    | .ok text => (methodTexts rest).map (text :: ·)

end Emit
end TypedClient
