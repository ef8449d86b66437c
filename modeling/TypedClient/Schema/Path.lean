import TypedClient.Schema.Basic
import TypedClient.Text.Blank
/-!
# Path — the way to a schema inside another

A dotted path goes through the properties of objects by name and through arrays to their items; at an array the segment
counts for nothing but the step.
-/
namespace TypedClient
namespace Schema

inductive Step where
  | property (name : String)
  | items (segment : String)
  deriving DecidableEq, Inhabited

/-- A path meets a schema that is neither an object nor an array. -/
structure PathError where
  path : String
  deriving DecidableEq

namespace PathError

def message (e : PathError) : String :=
  "invalid schema path: " ++ e.path

end PathError

/-- Goes along segments from a schema.  A missing property or item ends the path early, with the steps up to there. -/
def followSegments : Option Schema → List String → Option (Option Schema × List Step)
  | current, [] => some (current, [])
  | some (.object _ properties _), segment :: rest =>
    match properties.lookup segment with
    | none => some (none, [.property segment])
    | some next => (followSegments (some next) rest).map fun (target, steps) => (target, .property segment :: steps)
  | some (.array _ items), segment :: rest =>
    match items with
    | none => some (none, [.items segment])
    | some next => (followSegments (some next) rest).map fun (target, steps) => (target, .items segment :: steps)
  | _, _ :: _ => none

/-- **Goes along a dotted path**: the schema at its end, `none` where the path breaks off, and the steps taken. -/
def followPath (schema : Option Schema) (path : String) : Except PathError (Option Schema × List Step) :=
  match followSegments schema (Text.splitAt '.' path) with
  | some found => .ok found
  | none => .error ⟨path⟩

end Schema
end TypedClient
