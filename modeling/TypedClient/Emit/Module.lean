import TypedClient.Emit.Imports
import TypedClient.Emit.Method
/-!
# Module — the text of whole modules

A module is a header line, its imports, the declarations of its types, and its API class if it has one, with a blank line
before each declaration.
-/
namespace TypedClient
namespace Emit

structure Module where
  imports : List ImportGroup
  typedefs : List Typedef
  apiName : Option String
  methods : List Method
  deriving Inhabited

structure File where
  path : String
  contents : String
  deriving DecidableEq, Inhabited

def header : String := "// This file is generated. Do not edit.\n"

def ImportGroup.text (g : ImportGroup) : String :=
  "import \x7b " ++ ", ".intercalate g.names ++ " \x7d from '" ++ g.source ++ "';\n"

/-- The API class; nothing for no name or the empty one. -/
def classText (apiName : Option String) (methods : List Method) : Except UnreadableStatus String :=
  match apiName with
  | none => .ok ""
  | some name =>
    if name.isEmpty then .ok "" else
    (methodTexts methods).map fun texts =>
      "\nexport class " ++ name ++ " extends Client \x7b\n" ++ "\n".intercalate texts ++ "\x7d\n"

/-- **The text of a module.** -/
def Module.text (m : Module) : Except PrintError String :=
  match classText m.apiName m.methods with
  | .error e => .error (.unreadableStatus e.code)
  | .ok api =>
    .ok (header ++ String.join (m.imports.map ImportGroup.text) ++
      String.join (m.typedefs.map fun t => "\n" ++ t.declaration) ++ api)

def Export.text (e : Export) : String :=
  "export \x7b " ++ e.name ++ " \x7d from '" ++ e.source ++ "';\n"

/-- **The text of the index module.** -/
def indexText (exports : List Export) : String :=
  header ++ String.join (exports.map Export.text)

def indexFile (tree : Scope.Tree) (id : Scope.Id) (filename : String) : Except PrintError File :=
  (indexExports tree id filename).map fun exports => ⟨filename, indexText exports⟩

end Emit
end TypedClient
