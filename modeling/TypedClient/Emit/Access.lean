import TypedClient.Emit.Dispatch
/-!
# Access — expressions that reach into a response body

The steps of an unwrapping become an expression: a property step selects a field, an items step maps the remaining steps
over every element.  Steps into items at the very end change nothing and are left out.
-/
namespace TypedClient
namespace Emit

inductive Access where
  | named (name : String)
  | field (base : Access) (key : String)
  | mapped (base : Access) (item : String) (body : Access)
  deriving DecidableEq

namespace Access

/-- The name of the element at a depth of nested maps. -/
def itemName (depth : Nat) : String :=
  if depth = 0 then "item" else "item" ++ toString (depth + 1)

def ofSteps (base : Access) : List Schema.Step → Nat → Access
  | [], _ => base
  | .property name :: rest, depth => ofSteps (.field base name) rest depth
  | .items _ :: rest, depth =>
    let item := itemName depth
    let body := ofSteps (.named item) rest (depth + 1)
    if body = .named item then base else .mapped base item body

def text : Access → String
  | .named name => name
  | .field base key => base.text ++ "[" ++ Text.quote key ++ "]"
  | .mapped base item body => base.text ++ ".map((" ++ item ++ ": any) => " ++ body.text ++ ")"

end Access

def Unwrapping.accessor (t : Unwrapping) : Access :=
  .ofSteps (.named "res.data") t.steps 0

end Emit
end TypedClient
