import TypedClient.Scope.Tree
import TypedClient.Emit.Specifier
import TypedClient.Grouped
/-!
# Imports — what a module takes from others, and what the index passes on

The imports of a module are grouped by the file that defines them, in the order of the first import from each.  A symbol
that has another name here than in its own module is imported under that name.
-/
namespace TypedClient
namespace Emit

/-- Names imported from one module, as they are written. -/
structure ImportGroup where
  source : String
  names : List String
  deriving DecidableEq

/-- A symbol that the index passes on. -/
structure Export where
  source : String
  name : String
  deriving DecidableEq

inductive PrintError where
  /-- An imported symbol has no module that defines it. -/
  | undefinedImport (source : String)
  /-- A module has no file. -/
  | emptyPath
  /-- A status code of digit forms that spells no number. -/
  | unreadableStatus (code : String)
  deriving DecidableEq

def PrintError.message : PrintError → String
  | .undefinedImport source => "Imported symbol '" ++ source ++ "' has no defining module"
  | .emptyPath => "no path specified"
  | .unreadableStatus code => "unreadable status code: " ++ code

/-- How an import is written: the name in the defining module, and the local one if it differs. -/
def importText (name localName : String) : String :=
  if name = localName then name else name ++ " as " ++ localName

def importOf (tree : Scope.Tree) (id : Scope.Id) (filename localName source : String) :
    Except PrintError (String × String) :=
  match (tree.symbol? id source).bind (·.definition?) with
  | some d =>
    match d.definedIn with
    | some file =>
      match specifier? filename file with
      | some specifier => .ok (specifier, importText (Text.afterLast '.' d.localName) localName)
      | none => .error .emptyPath
    | none => .error (.undefinedImport source)
  | none => .error (.undefinedImport source)

/-- **The imports of a module**, grouped by source. -/
def moduleImports (tree : Scope.Tree) (id : Scope.Id) (filename : String) : Except PrintError (List ImportGroup) :=
  ((tree.imports id).mapM fun (localName, source) => importOf tree id filename localName source).map fun pairs =>
    (Grouped.ofList pairs).map fun (source, names) => ⟨source, names⟩

def exportOf (filename : String) (d : Scope.Definition) : Except PrintError (Option Export) :=
  match d.definedIn with
  | none => .ok none
  | some file =>
    match specifier? filename file with
    | some specifier => .ok (some ⟨specifier, Text.afterLast '.' d.localName⟩)
    | none => .error .emptyPath

/-- **What the index passes on**: the public definitions that a scope holds. -/
def indexExports (tree : Scope.Tree) (id : Scope.Id) (filename : String) : Except PrintError (List Export) :=
  ((tree.publicDefinitions id).mapM (exportOf filename)).map (·.filterMap fun e => e)

end Emit
end TypedClient
