import TypedClient.Operation.Generate
import TypedClient.Settings.Basic
import TypedClient.Emit.Client
/-!
# Generate — the files of a client library

A run prints, in this order, the client module if it is wanted, the module of the component schemas, one module for every
API class, and the index.  Each file is printed before the next one is begun, so a run that fails has printed the files
before the failure.
-/
namespace TypedClient
namespace Generate

open Codegen (Workspace Draft Session Gen)
open Emit (File)

structure Progress where
  shared : Workspace
  /-- The modules of typedefs and API classes, each as it stood when it was printed. -/
  modules : List Session
  files : List File
  apiNames : List String
  deriving Inhabited

abbrev Run := EStateM GenerateError Progress

def addFile (file : File) : Run Unit :=
  modify fun p => { p with files := p.files ++ [file] }

/-- Works on a module, from a draft to what `work` makes of it. -/
def onDraft {α : Type} (draft : Draft) (work : Gen α) : Run (α × Draft) := fun p =>
  match work ⟨p.shared, draft⟩ with
  | .ok a s => .ok (a, s.draft) { p with shared := s.shared }
  | .error e s => .error e { p with shared := s.shared }

def newScope (name path : String) : Run Scope.Id := fun p =>
  match p.shared.scopes.addScope 0 name (some path) with
  | (scopes, id) => .ok id { p with shared := { p.shared with scopes := scopes } }

def emptyDraft (settings : Settings) (filename : String) (scope : Scope.Id) (apiName : Option String) : Draft :=
  ⟨filename, scope, apiName, settings.aliasScalarTypedefs, [], [], []⟩

def printDraft (draft : Draft) : Run Unit := fun p =>
  let printed : Session := ⟨p.shared, draft⟩
  match printed.file with
  | .ok file => .ok () { p with modules := p.modules ++ [printed], files := p.files ++ [file] }
  | .error e => .error (.print e) p

def componentSchemas (document : Node) : List (String × Node) :=
  (((document.get? "components").bind (·.get? "schemas")).bind Node.entries?).getD []

/-- Makes the typedefs of named schemas; what is no schema is skipped with a warning. -/
def generateTypedefs : List (String × Node) → Gen Unit
  | [] => return
  | (name, node) :: rest => do
    match Schema.read? node with
    | some schema => let _ ← Codegen.generateTypedef (Naming.sanitize name) schema
    | none => Codegen.warn ("Skipping component schema '" ++ name ++ "': not a schema object")
    generateTypedefs rest

def generateMethods : List Operation.Spec → Gen Unit
  | [] => return
  | spec :: rest => do
    let _ ← Operation.generate spec
    generateMethods rest

/-- Makes the module of an API class: the class extends the client and is public. -/
def generateApi (settings : Settings) (apiName : String) (specs : List Operation.Spec) : Run Unit := do
  let filename := settings.apiModule apiName
  let scope ← newScope apiName filename
  let (_, draft) ← onDraft (emptyDraft settings filename scope (some apiName)) do
    let _ ← Codegen.importSymbol "client.Client" (some "Client")
    let _ ← Codegen.define apiName none true
    generateMethods specs
  modify fun p => { p with apiNames := p.apiNames ++ [apiName] }
  printDraft draft

def generateApis (settings : Settings) : Grouped Operation.Spec → Run Unit
  | [] => return
  | (apiName, specs) :: rest => do
    generateApi settings apiName specs
    generateApis settings rest

/-- Makes the module of the component schemas out of a draft and the schemas still to come, then the modules of the API
classes and the index. -/
def generateModules (document : Node) (settings : Settings) (draft : Draft) (schemas : List (String × Node)) :
    Run Unit := do
  let (_, definitions) ← onDraft draft (generateTypedefs schemas)
  printDraft definitions
  generateApis settings (Operation.group document settings.defaultApiName)
  let p ← get
  match Emit.indexFile p.shared.scopes 0 settings.indexModule with
  | .ok file => addFile file
  | .error e => throw (.print e)

def generateAll (document : Node) (settings : Settings) : Run Unit := do
  let client ← newScope "client" settings.clientModule
  let _ ← onDraft (emptyDraft settings settings.clientModule client none) (Codegen.define "Client" none true)
  if settings.emitRuntimeClient then
    addFile ⟨settings.clientModule, Emit.clientText⟩
  if !document.isMap then throw .notMapping
  let scope ← newScope "definitions" settings.definitionsModule
  generateModules document settings (emptyDraft settings settings.definitionsModule scope none)
    (componentSchemas document)

end Generate

/-- What a run made, and why it ended early if it did. -/
structure Generation where
  /-- The modules of typedefs and API classes, each as it stood when it was printed. -/
  modules : List Codegen.Session
  files : List Emit.File
  apiNames : List String
  warnings : List String
  failure : Option GenerateError
  deriving Inhabited

/-- **Generates the client library of an expanded document.** -/
def generate (document : Node) (settings : Settings) : Generation :=
  let start : Generate.Progress := ⟨⟨Scope.Tree.root "root", [], []⟩, [], [], []⟩
  match Generate.generateAll document settings start with
  | .ok _ p => ⟨p.modules, p.files, p.apiNames, p.shared.warnings, none⟩
  | .error e p => ⟨p.modules, p.files, p.apiNames, p.shared.warnings, some e⟩

end TypedClient
