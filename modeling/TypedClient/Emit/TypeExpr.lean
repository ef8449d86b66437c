import TypedClient.Emit.Key
/-!
# Type expressions

A type expression is built from words of the language, literals and names of typedefs.  Its text has no brackets but those
of `Array`.
-/
namespace TypedClient
namespace Emit

inductive TypeExpr where
  /-- A word of the language, or a type that the document names itself. -/
  | word (text : String)
  /-- The type of one scalar. -/
  | literal (text : String)
  /-- A typedef, by the name it has in the module. -/
  | named (localName : String)
  | array (item : TypeExpr)
  | union (members : List TypeExpr)
  | both (members : List TypeExpr)
  deriving Inhabited

namespace TypeExpr

mutual
def text : TypeExpr → String
  | .word w => w
  | .literal l => l
  | .named n => n
  | .array item => "Array<" ++ item.text ++ ">"
  | .union members => " | ".intercalate (texts members)
  | .both members => " & ".intercalate (texts members)

def texts : List TypeExpr → List String
  | [] => []
  | x :: xs => x.text :: texts xs
end

mutual
def names : TypeExpr → List String
  | .named n => [n]
  | .array item => item.names
  | .union members | .both members => namesAll members
  | .word _ | .literal _ => []

def namesAll : List TypeExpr → List String
  | [] => []
  | x :: xs => x.names ++ namesAll xs
end

/-- What stands where there is no schema. -/
def undefined : TypeExpr := .word "undefined"
def any : TypeExpr := .word "any"
/-- An object that has no name of its own. -/
def object : TypeExpr := .word "object"
def never : TypeExpr := .word "never"
def void : TypeExpr := .word "void"

end TypeExpr
end Emit
end TypedClient
