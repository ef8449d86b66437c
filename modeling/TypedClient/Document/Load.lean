import TypedClient.Yaml.Unfold
import TypedClient.Document.Version
import TypedClient.Files.System
/-!
# Load — documents out of files

A document is written in YAML, of which JSON is a part, and has to be a mapping.  What its text holds is for a loader to say.
-/
namespace TypedClient

inductive LoadError where
  /-- The file cannot be read. -/
  | unreadableFile (path : String)
  /-- The path is none that the system can look up, or the file holds no text. -/
  | unusable (cause : Files.FileError)
  /-- The file holds no YAML. -/
  | malformed (path : String)
  /-- The file holds something else than a mapping. -/
  | notMapping (kind : String)
  | version (error : Version.VersionError)
  /-- A scalar of the file does not spell what it is tagged as. -/
  | scalar (fault : Yaml.Fault)
  deriving DecidableEq

namespace LoadError

def message : LoadError → String
  | .unreadableFile path => "Failed to read OpenAPI file " ++ path
  | .unusable .notText => "Unusable text"
  | .unusable _ => "Unusable path"
  | .malformed path => "Failed to parse YAML in " ++ path
  | .notMapping kind => "OpenAPI document must deserialize to a mapping, got <class '" ++ kind ++ "'>"
  | .version e => e.message
  | .scalar _ => "Unreadable scalar"

end LoadError

/-- **The document that a text holds**; `path` is where it was read. -/
def loadDocument (loader : Yaml.Loader) (path text : String) : Except LoadError Node :=
  match loader text with
  | .error .malformed => .error (.malformed path)
  | .error e => .error (.scalar e)
  | .ok value =>
    match value.shallow value.root with
    | .map .. => value.toNode.mapError .scalar
    | _ => .error (.notMapping value.kind)

def LoadError.ofFile (path : Files.Path) : Files.FileError → LoadError
  | .notPath => .unusable .notPath
  | .notText => .unusable .notText
  | _ => .unreadableFile path.text

/-- **Reads the document of a file.**  Its version has to be one that is understood. -/
def readDocument {m : Type → Type} [Monad m] [Files.FileSystem m] (loader : Yaml.Loader) (path : Files.Path) :
    m (Except LoadError Node) := do
  match ← Files.FileSystem.readText path with
  | .error e => return .error (.ofFile path e)
  | .ok text =>
    match loadDocument loader path.text text with
    | .error e => return .error e
    | .ok document => return (Version.checkDocument document).mapError LoadError.version |>.map fun _ => document

end TypedClient
