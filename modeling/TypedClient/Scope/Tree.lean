import TypedClient.Scope.Table
import TypedClient.Text.Blank
/-!
# Tree — scopes inside scopes

Scopes form a tree: one root, and a child for every module.  A definition is entered in its own scope and in all that
enclose it, where its name is preceded by the names of the scopes it came through; so the root holds a qualified name for
every symbol.  An import brings a qualified name into a scope under a short one.

Every scope lists the scopes that enclose it, the nearest first, so that a walk outwards is a walk along a list.
-/
namespace TypedClient
namespace Scope

/-- Scopes are known by their number in the order in which they were made. -/
abbrev Id := Nat

structure Record where
  name : String
  path : Option String
  enclosing : List Id
  table : Table
  deriving DecidableEq, Inhabited

structure Tree where
  scopes : List Record
  deriving DecidableEq, Inhabited

/-- A name is taken in a scope. -/
structure Conflict where
  name : String
  scope : String
  deriving DecidableEq

def Conflict.message (c : Conflict) : String :=
  "symbol '" ++ c.name ++ "' already defined in scope '" ++ c.scope ++ "'"

namespace Tree

/-- A root without symbols. -/
def root (name : String) : Tree :=
  ⟨[⟨name, none, [], []⟩]⟩

/-- The scope of a number; an empty one for a number that names none. -/
def get (t : Tree) (id : Id) : Record :=
  t.scopes[id]?.getD ⟨"", none, [], []⟩

def table (t : Tree) (id : Id) : Table :=
  (t.get id).table

/-- The scope and the scopes around it, the nearest first. -/
def outwards (t : Tree) (id : Id) : List Id :=
  id :: (t.get id).enclosing

/-- Makes a child scope; its number is the number of scopes so far. -/
def addScope (t : Tree) (parent : Id) (name : String) (path : Option String) : Tree × Id :=
  (⟨t.scopes ++ [⟨name, path, t.outwards parent, []⟩]⟩, t.scopes.length)

def children (t : Tree) (id : Id) : List Id :=
  (List.range t.scopes.length).filter fun child => (t.get child).enclosing.head? == some id

def enter (t : Tree) (id : Id) (symbol : Symbol) : Tree :=
  ⟨t.scopes.modify id fun r => { r with table := r.table ++ [symbol] }⟩

/-- The first symbol that satisfies `p`, in the scope or else in the nearest one around it. -/
def find? (t : Tree) (id : Id) (p : Symbol → Bool) : Option Symbol :=
  (t.outwards id).findSome? fun i => (t.table i).find? p

def symbol? (t : Tree) (id : Id) (name : String) : Option Symbol :=
  t.find? id (·.localName == name)

def taken (t : Tree) (id : Id) (name : String) : Bool :=
  (t.table id).taken name

def qualify (scope name : String) : String :=
  scope ++ "." ++ name

/-- A name behind the qualified name that the first scope of the list has in the one around it; in the last scope it stands
alone. -/
def qualifiedName (t : Tree) : List Id → String → String
  | id :: parent :: outer, name => qualify (qualifiedName t (parent :: outer) (t.get id).name) name
  | _, name => name

/-- **The qualified name** that a name has when it is defined in a scope: the names of the scopes from the root down to it,
the root left out, and the name. -/
def globalName (t : Tree) (id : Id) (name : String) : String :=
  t.qualifiedName (t.outwards id) name

/-- **Enters a definition in a scope and in those around it.**  A taken name ends the walk; what was entered before stays. -/
def enterOutwards (t : Tree) : List Id → Definition → Tree × Option Conflict
  | [], _ => (t, none)
  | id :: outer, d =>
    if t.taken id d.localName then (t, some ⟨d.localName, (t.get id).name⟩)
    else enterOutwards (t.enter id (.defined d)) outer { d with localName := qualify (t.get id).name d.localName }

def define (t : Tree) (id : Id) (name : String) (specPath : Option String) (isPublic : Bool) :
    Tree × Except Conflict Definition :=
  let d : Definition :=
    ⟨name, (t.get id).path, specPath, isPublic, if isPublic then some (t.globalName id name) else none⟩
  match t.enterOutwards (t.outwards id) d with
  | (t', none) => (t', .ok d)
  | (t', some conflict) => (t', .error conflict)

/-- **Imports a qualified name** and tells the name it has in the scope.  A symbol that provides it already is used again.
Otherwise it gets the wanted name, or else a free one after the last part of its qualified name. -/
def importSymbol (t : Tree) (id : Id) (source : String) (wanted : Option String) : Tree × Except Conflict String :=
  match (t.table id).find? (·.provides source) with
  | some symbol => (t, .ok symbol.localName)
  | none =>
    match wanted with
    | none =>
      let name := (t.table id).freeName (Text.afterLast '.' source)
      (t.enter id (.imported name source), .ok name)
    | some name =>
      if t.taken id name then (t, .error ⟨name, (t.get id).name⟩)
      else (t.enter id (.imported name source), .ok name)

def imports (t : Tree) (id : Id) : List (String × String) :=
  (t.table id).filterMap fun
    | .imported name source => some (name, source)
    | .defined _ => none

def publicDefinitions (t : Tree) (id : Id) : List Definition :=
  (t.table id).filterMap fun
    | .defined d => if d.isPublic then some d else none
    | .imported .. => none

def display (t : Tree) (id : Id) : String :=
  let r := t.get id
  "Scope(name=" ++ Text.display r.name ++ ", path=" ++ (match r.path with
    | some path => Text.display path
    | none => "None") ++ ", symbols=" ++ toString r.table.length ++ ")"

end Tree
end Scope
end TypedClient
