import TypedClient.Text.Blank
/-!
# Specifier — how one module names another

A module is imported by the path that leads from the directory of the importing file to it, without the suffix of the file.
Both files are given from one place, which neither path names; a path may climb out of that place.
-/
namespace TypedClient
namespace Emit

/-- A place in the directory tree: so many steps up, then down through the parts. -/
structure Place where
  climbs : Nat
  parts : List String
  deriving DecidableEq

/-- One more part of a path: `.` and the empty part stay, `..` goes up. -/
def Place.enter (absolute : Bool) (place : Place) (part : String) : Place :=
  if part = "" || part = "." then place
  else if part = ".." then
    match place.parts with
    | [] => if absolute then place else { place with climbs := place.climbs + 1 }
    | _ => { place with parts := place.parts.dropLast }
  else { place with parts := place.parts ++ [part] }

def placeOf (parts : List String) : Place :=
  parts.foldl (Place.enter (parts.length > 1 && parts.head? == some "")) ⟨0, []⟩

/-- The two lists without what they have in common at the front. -/
def dropCommon : List String → List String → List String × List String
  | x :: xs, y :: ys => if x = y then dropCommon xs ys else (x :: xs, y :: ys)
  | xs, ys => (xs, ys)

def stepsBetween (source target : Place) : List String :=
  if source.climbs = target.climbs then
    let (up, down) := dropCommon source.parts target.parts
    List.replicate up.length ".." ++ down
  else
    List.replicate (source.parts.length + (target.climbs - source.climbs)) ".." ++ target.parts

def moduleSuffix : String := ".ts"

def dropModuleSuffix (path : String) : String :=
  if Text.endsWith path moduleSuffix then String.ofList (path.toList.take (path.length - moduleSuffix.length)) else path

/-- **The specifier of the file `target` inside the file `source`**, `none` if the target is no path. -/
def specifier? (source target : String) : Option String :=
  if target = "" then none else
  let steps := stepsBetween (placeOf (Text.splitAt '/' source).dropLast) (placeOf (Text.splitAt '/' target))
  let path := dropModuleSuffix (if steps = [] then "." else "/".intercalate steps)
  some (if Text.startsWith path "." then path else "./" ++ path)

end Emit
end TypedClient
