import TypedClient.Emit.Comment
import TypedClient.Emit.TypeExpr
/-!
# Typedef — named types and their declarations

A named type is declared once in its module: an interface for an object, a type alias for everything else.
-/
namespace TypedClient
namespace Emit

structure Field where
  name : String
  type : TypeExpr
  required : Bool
  doc : Option String
  deriving Inhabited

/-- What a name stands for. -/
inductive TypedefBody where
  | object (fields : List Field)
  | array (item : TypeExpr)
  /-- One of several strings. -/
  | variants (texts : List String)
  /-- All of several types at once. -/
  | members (types : List TypeExpr)
  /-- Another name of a type. -/
  | synonym (type : TypeExpr)
  deriving Inhabited

structure Typedef where
  name : String
  body : TypedefBody
  description : Option String
  deriving Inhabited

/-- A comment on lines of its own; nothing for no text or the empty one. -/
def commentBlock (text : Option String) (indent : Nat) : String :=
  match text with
  | none => ""
  | some t => if t.isEmpty then "" else comment t indent ++ "\n"

def Field.declaration (f : Field) : String :=
  commentBlock f.doc 2 ++ "  " ++ propertyKey f.name ++ (if f.required then "" else "?") ++ ": " ++ f.type.text ++ ";\n"

def orElseText (text fallback : String) : String :=
  if text.isEmpty then fallback else text

/-- The type that a body other than an object stands for. -/
def TypedefBody.text : TypedefBody → String
  | .object fields => String.join (fields.map Field.declaration)
  | .array item => (TypeExpr.array item).text
  | .variants texts => orElseText (" | ".intercalate (texts.map Text.quote)) "never"
  | .members types => orElseText (" & ".intercalate (types.map TypeExpr.text)) "unknown"
  | .synonym type => type.text

/-- **The declaration of a named type.** -/
def Typedef.declaration (t : Typedef) : String :=
  commentBlock t.description 0 ++
    match t.body with
    | .object _ => "export interface " ++ t.name ++ " \x7b\n" ++ t.body.text ++ "\x7d\n"
    | body => "export type " ++ t.name ++ " = " ++ body.text ++ ";\n"

def TypedefBody.types : TypedefBody → List TypeExpr
  | .object fields => fields.map Field.type
  | .array item => [item]
  | .variants _ => []
  | .members types => types
  | .synonym type => [type]

end Emit
end TypedClient
