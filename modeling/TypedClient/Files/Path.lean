import TypedClient.Text.Blank
/-!
# Path — file paths in normal form

A path is a root (nothing, `/`, or exactly two slashes) and the parts behind it.  Empty parts and `.` are dropped; `..`
stays, because what it leads to depends on the files.  The path without root and parts is written `.`.
-/
namespace TypedClient
namespace Files

structure Path where
  /-- The number of slashes in front: none, one or two. -/
  slashes : Nat
  parts : List String
  deriving DecidableEq, Inhabited

namespace Path

def ofText (text : String) : Path :=
  let cs := text.toList
  let leading := (cs.takeWhile (· == '/')).length
  let parts := ((Text.splitBy (· == '/') cs).map String.ofList).filter fun part => part != "" && part != "."
  ⟨if leading = 2 then 2 else min leading 1, parts⟩

def text (p : Path) : String :=
  let slashes := String.ofList (List.replicate p.slashes '/')
  let body := slashes ++ "/".intercalate p.parts
  if body.isEmpty then "." else body

def isAbsolute (p : Path) : Bool :=
  p.slashes != 0

/-- The second path seen from the first; an absolute one is itself. -/
def join (p q : Path) : Path :=
  if q.isAbsolute then q else ⟨p.slashes, p.parts ++ q.parts⟩

def parent (p : Path) : Path :=
  ⟨p.slashes, p.parts.dropLast⟩

/-- The path seen from one of its beginnings, `none` if that is no beginning of it. -/
def relativeTo? (p base : Path) : Option Path :=
  if p.slashes = base.slashes && base.parts.isPrefixOf p.parts then some ⟨0, p.parts.drop base.parts.length⟩ else none

end Path
end Files
end TypedClient
