import TypedClient.Settings.Check
import TypedClient.Files.System
import TypedClient.Yaml.Unfold
/-!
# Load — settings out of a file and of what is given beside it

A settings file is a mapping in YAML; an empty one sets nothing.  Its relative paths start at the directory of the file.
What is given beside the file wins over it.
-/
namespace TypedClient
namespace Settings

inductive LoadError where
  /-- The file cannot be read. -/
  | unreadable (path : String)
  /-- The path is none that the system can look up, or the file holds no text. -/
  | unusable (cause : Files.FileError)
  /-- The file holds no YAML. -/
  | malformed (path : String)
  /-- A scalar of the file does not spell what it is tagged as. -/
  | scalar (fault : Yaml.Fault)
  /-- The file holds something else than a mapping. -/
  | notMapping (path : String)
  /-- A key of the mapping is no text. -/
  | keyNotText
  | problems (list : List Problem)
  deriving DecidableEq

namespace LoadError

def message : LoadError → String
  | .unreadable path => "Failed to read config file " ++ path
  | .unusable .notText => "Unusable text"
  | .unusable _ => "Unusable path"
  | .malformed path => "Failed to parse YAML in " ++ path
  | .scalar _ => "Unreadable scalar"
  | .notMapping path => "Config file " ++ path ++ " must contain a mapping"
  | .keyNotText => "Setting names must be text"
  | .problems _ => "Invalid generator configuration"

end LoadError

def LoadError.ofFile (path : Files.Path) : Files.FileError → LoadError
  | .notPath => .unusable .notPath
  | .notText => .unusable .notText
  | _ => .unreadable path.text

/-- The entries of a mapping with their names, if all are texts.  No setting is looked into. -/
def namedValues (value : Yaml.Value) : List (Atom × Yaml.Item) → Option (List (String × Node))
  | [] => some []
  | (.str name, x) :: rest => (namedValues value rest).map ((name, value.shallow x) :: ·)
  | _ :: _ => none

/-- A relative path in a file starts at the directory of the file. -/
def resolvePath (file : Files.Path) : String × Node → String × Node
  | (name, .str text) =>
    if name = "input_path" || name = "output_dir" then (name, .str (file.parent.join (.ofText text)).text)
    else (name, .str text)
  | entry => entry

def fileValues (loader : Yaml.Loader) (file : Files.Path) (text : String) : Except LoadError (List (String × Node)) :=
  match loader text with
  | .error .malformed => .error (.malformed file.text)
  | .error e => .error (.scalar e)
  | .ok value =>
    match value.root with
    | .atom .null => .ok []
    | .atom _ => .error (.notMapping file.text)
    | .collection i =>
      match value.collection i with
      | .map entries =>
        match namedValues value entries with
        | some values => .ok (values.map (resolvePath file))
        | none => .error .keyNotText
      | _ => .error (.notMapping file.text)

/-- Values with others set over them; null sets nothing. -/
def override (values given : List (String × Node)) : List (String × Node) :=
  Expansion.setEntries values (given.filter fun (_, value) => value != .null)

def ofGiven (values given : List (String × Node)) : Except LoadError Settings :=
  (ofValues (override values given)).mapError .problems

/-- **Loads settings** from a file, if there is one, and from what is given beside it. -/
def load {m : Type → Type} [Monad m] [Files.FileSystem m] (loader : Yaml.Loader) (file : Option Files.Path)
    (given : List (String × Node)) : m (Except LoadError Settings) := do
  match file with
  | none => return ofGiven [] given
  | some path =>
    match ← Files.FileSystem.readText path with
    | .error e => return .error (.ofFile path e)
    | .ok text => return (fileValues loader path text).bind (ofGiven · given)

end Settings
end TypedClient
