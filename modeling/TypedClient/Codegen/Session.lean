import TypedClient.Emit.Module
import TypedClient.Schema.Path
/-!
# Session — what generating a module reads and writes

All modules of a run share the scope tree, the list of warnings, and the set of places whose definition has no typedef
body.  A session is one module in the making on top of that.  When a step fails, what it did before stays.
-/
namespace TypedClient

inductive GenerateError where
  | conflict (conflict : Scope.Conflict)
  | schemaPath (error : Schema.PathError)
  /-- A path names a parameter that its operation does not declare. -/
  | undeclaredParameter (placeholder operation : String)
  | print (error : Emit.PrintError)
  /-- The expanded document is no mapping. -/
  | notMapping
  /-- A value is to be written that has no literal or no text. -/
  | unwritable (cause : Emit.Unwritable)
  deriving DecidableEq

namespace GenerateError

def message : GenerateError → String
  | .conflict c => c.message
  | .schemaPath e => e.message
  | .undeclaredParameter placeholder operation =>
    "parameter '" ++ placeholder ++ "' used in path but not defined (" ++ operation ++ ")"
  | .print e => e.message
  | .notMapping => "the document is no mapping"
  | .unwritable _ => "unwritable value"

end GenerateError

namespace Codegen

/-- What all modules of a run share. -/
structure Workspace where
  scopes : Scope.Tree
  warnings : List String
  /-- The places of the definitions without a typedef body. -/
  bodiless : List String
  deriving Inhabited

structure Draft where
  filename : String
  scope : Scope.Id
  apiName : Option String
  /-- Whether named scalars get a typedef. -/
  aliasScalars : Bool
  typedefs : List Emit.Typedef
  methods : List Emit.Method
  /-- The bodiless places that a warning of this module already names. -/
  reported : List String
  deriving Inhabited

/-- A module in the making, and what it shares with the others. -/
structure Session where
  shared : Workspace
  draft : Draft
  deriving Inhabited

abbrev Gen := EStateM GenerateError Session

def warn (message : String) : Gen Unit :=
  modify fun s => { s with shared := { s.shared with warnings := s.shared.warnings ++ [message] } }

def warnIf (reason : Bool) (message : String) : Gen Unit :=
  if reason then warn message else return

/-- The nearest definition made from the schema at a place. -/
def Session.definitionAt? (s : Session) (place : String) : Option Scope.Definition :=
  (s.shared.scopes.find? s.draft.scope fun symbol =>
    match symbol.definition? with
    | some d => d.specPath == some place
    | none => false).bind (·.definition?)

/-- The nearest definition made from the schema at a place; a schema without a place has none. -/
def definition? (place : Option String) : Gen (Option Scope.Definition) := do
  let s ← get
  return place.bind s.definitionAt?

def define (name : String) (place : Option String) (isPublic : Bool) : Gen Scope.Definition := do
  let s ← get
  match s.shared.scopes.define s.draft.scope name place isPublic with
  | (scopes, result) =>
    set { s with shared := { s.shared with scopes := scopes } }
    match result with
    | .ok d => return d
    | .error c => throw (.conflict c)

def importSymbol (source : String) (wanted : Option String) : Gen String := do
  let s ← get
  match s.shared.scopes.importSymbol s.draft.scope source wanted with
  | (scopes, result) =>
    set { s with shared := { s.shared with scopes := scopes } }
    match result with
    | .ok name => return name
    | .error c => throw (.conflict c)

def addTypedef (t : Emit.Typedef) : Gen Unit :=
  modify fun s => { s with draft := { s.draft with typedefs := s.draft.typedefs ++ [t] } }

def addMethod (m : Emit.Method) : Gen Unit :=
  modify fun s => { s with draft := { s.draft with methods := s.draft.methods ++ [m] } }

/-- Notes that the definition at a place has no typedef body. -/
def markBodiless (place : String) : Gen Unit :=
  modify fun s =>
    if s.shared.bodiless.contains place then s
    else { s with shared := { s.shared with bodiless := s.shared.bodiless ++ [place] } }

/-- Warns, once for each place and module, that a name has no typedef body. -/
def reportBodiless (localName : String) (d : Scope.Definition) : Gen Unit := do
  let s ← get
  match d.specPath with
  | none => return
  | some place =>
    if s.shared.bodiless.contains place && !s.draft.reported.contains place then
      set { s with draft := { s.draft with reported := s.draft.reported ++ [place] } }
      warn ("'" ++ localName ++ "' in " ++ s.draft.filename ++
        " refers to a name without a typedef body; enable alias_scalar_typedefs to emit it")

def Session.module (s : Session) : Except Emit.PrintError Emit.Module :=
  (Emit.moduleImports s.shared.scopes s.draft.scope s.draft.filename).map fun imports =>
    ⟨imports, s.draft.typedefs, s.draft.apiName, s.draft.methods⟩

/-- **The file of the module as it stands.** -/
def Session.file (s : Session) : Except Emit.PrintError Emit.File :=
  match s.module with
  | .error e => .error e
  | .ok m => m.text.map fun contents => ⟨s.draft.filename, contents⟩

end Codegen
end TypedClient
