import TypedClient.Text.Blank
/-!
# Path template — request paths with placeholders

A placeholder is a name in braces: an opening brace, one or more characters up to the next closing brace, and that brace.
Everything else is text.  The path becomes a template literal that interpolates an argument for each placeholder; inside its
text the backslash, the back quote and a dollar sign before a brace are escaped.
-/
namespace TypedClient
namespace Emit

/-- A path in parts: single characters of text, and placeholders by name. -/
inductive PathPart where
  | char (c : Char)
  | hole (name : String)
  deriving DecidableEq

/-- The parts of a path.  `pending` holds what follows an open brace, the latest character first. -/
def pathPartsFrom : Option (List Char) → List Char → List PathPart
  | none, [] => []
  | some pending, [] => .char '{' :: pending.reverse.map .char
  | none, c :: rest => if c = '{' then pathPartsFrom (some []) rest else .char c :: pathPartsFrom none rest
  | some pending, c :: rest =>
    if c = '}' then
      match pending with
      | [] => .char '{' :: .char '}' :: pathPartsFrom none rest
      | _ => .hole (String.ofList pending.reverse) :: pathPartsFrom none rest
    else pathPartsFrom (some (c :: pending)) rest

def pathParts (path : String) : List PathPart :=
  pathPartsFrom none path.toList

def placeholders (path : String) : List String :=
  (pathParts path).filterMap fun
    | .hole name => some name
    | .char _ => none

/-- The inside of the template literal, `none` if a placeholder has no argument. -/
def templateBody (argument? : String → Option String) : List PathPart → Option (List Char)
  | [] => some []
  | .hole name :: rest =>
    match argument? name, templateBody argument? rest with
    | some argument, some body => some ('$' :: '{' :: (argument.toList ++ '}' :: body))
    | _, _ => none
  | .char c :: rest =>
    match templateBody argument? rest with
    | some body =>
      if c = '\\' || c = '\x60' || (c = '$' && rest.head? = some (.char '{')) then some ('\\' :: c :: body)
      else some (c :: body)
    | none => none

/-- **The template literal of a path**, `none` if a placeholder has no argument. -/
def pathTemplate? (path : String) (argument? : String → Option String) : Option String :=
  (templateBody argument? (pathParts path)).map fun body => String.ofList ('\x60' :: (body ++ ['\x60']))

end Emit
end TypedClient
