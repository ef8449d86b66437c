import TypedClient.Text.Display
/-!
# Table — the symbols of one scope

A symbol is defined in a scope or imported into it.  A table lists its symbols in the order in which they came; no two have
one local name.
-/
namespace TypedClient
namespace Scope

structure Definition where
  localName : String
  /-- The file that defines it. -/
  definedIn : Option String
  /-- The place of the schema it was made from. -/
  specPath : Option String
  isPublic : Bool
  /-- The qualified name of a public symbol. -/
  globalName : Option String
  deriving DecidableEq, Inhabited

inductive Symbol where
  | defined (d : Definition)
  /-- A symbol of another module, by its qualified name. -/
  | imported (localName source : String)
  deriving DecidableEq, Inhabited

namespace Symbol

def localName : Symbol → String
  | .defined d => d.localName
  | .imported name _ => name

def definition? : Symbol → Option Definition
  | .defined d => some d
  | .imported .. => none

def source? : Symbol → Option String
  | .defined _ => none
  | .imported _ source => some source

/-- Whether the symbol is what an import of `source` would bring: such an import, or a definition of that name. -/
def provides (source : String) : Symbol → Bool
  | .defined d => d.localName == source
  | .imported _ s => s == source

end Symbol

abbrev Table := List Symbol

namespace Table

def get? (table : Table) (name : String) : Option Symbol :=
  table.find? (·.localName == name)

def taken (table : Table) (name : String) : Bool :=
  table.any (·.localName == name)

/-- The names to try for a short name: the name itself, then `_2`, `_3` and so on behind it. -/
def candidate (short : String) (n : Nat) : String :=
  if n = 0 then short else short ++ "_" ++ toString (n + 1)

/-- **The first candidate that is free.**  A table of `n` symbols leaves one of `n + 1` candidates free. -/
def freeName (table : Table) (short : String) : String :=
  (((List.range (table.length + 1)).map (candidate short)).find? (!table.taken ·)).getD short

end Table
end Scope
end TypedClient
