import TypedClient.Document.Node
import TypedClient.Text.Digit
/-!
# Version — which documents are understood

A document declares the version of its format.  The part before the first dot is a whole number, and documents from version
3 on are understood.
-/
namespace TypedClient
namespace Version

inductive VersionError where
  /-- The document is no mapping. -/
  | notMapping
  | missing
  | unreadable (version : String)
  | unsupported (version : String)
  deriving DecidableEq

def VersionError.message : VersionError → String
  | .notMapping => "the document is no mapping"
  | .missing => "Missing or invalid 'openapi' version field"
  | .unreadable version => "Unable to parse OpenAPI version: " ++ version
  | .unsupported version => "Unsupported OpenAPI version " ++ version ++ "; only v3+ is supported"

def declared (document : Node) : Except VersionError String :=
  if !document.isMap then .error .notMapping else
  match (document.textAt? "openapi").map Text.trim with
  | some version => if version.isEmpty then .error .missing else .ok version
  | none => .error .missing

def check (version : String) : Except VersionError Unit :=
  match Text.readInt? (Text.beforeFirst '.' version) with
  | none => .error (.unreadable version)
  | some major => if major < 3 then .error (.unsupported version) else .ok ()

def checkDocument (document : Node) : Except VersionError Unit :=
  match declared document with
  | .ok version => check version
  | .error e => .error e

end Version
end TypedClient
