import TypedClient.Document.Load
import TypedClient.Files.Write
import TypedClient.Generate
/-!
# Build — from settings to written files

A build reads the document that the settings name, expands its references, generates all files, and only then writes them.
So an error before the writing leaves the files as they were.
-/
namespace TypedClient

inductive BuildError where
  | load (error : LoadError)
  | expand (error : ExpandError)
  | generate (error : GenerateError)
  | write (error : Files.WriteError)
  /-- A file was written that is not seen from the output directory. -/
  | outside (file : Files.Path)

def BuildError.message : BuildError → String
  | .load e => e.message
  | .expand e => e.message
  | .generate e => e.message
  | .write e => e.message
  | .outside file => file.text ++ " is outside of the output directory"

structure Build where
  outputDir : Files.Path
  /-- The written files, seen from the output directory. -/
  files : List Files.Path
  apiNames : List String
  warnings : List String
  deriving Inhabited

namespace Build

/-- Paths seen from a directory. -/
def seenFrom (dir : Files.Path) : List Files.Path → Except BuildError (List Files.Path)
  | [] => .ok []
  | path :: rest =>
    match path.relativeTo? dir with
    | some seen => (seenFrom dir rest).map (seen :: ·)
    | none => .error (.outside path)

/-- What an expanded document makes of the settings: all files, or the error that ended their making. -/
def generated (document : Node) (settings : Settings) : Except BuildError Generation :=
  match document.expand with
  | .error e => .error (.expand e)
  | .ok expanded =>
    let generation := TypedClient.generate expanded settings
    match generation.failure with
    | some e => .error (.generate e)
    | none => .ok generation

variable {m : Type → Type} [Monad m] [Files.FileSystem m]

def write (settings : Settings) (generation : Generation) : m (Except BuildError Build) := do
  match ← Files.writeLibrary settings.outputDir generation.files settings.overwrite with
  | .error e => return .error (.write e)
  | .ok written =>
    return (seenFrom settings.outputDir written).map
      (⟨settings.outputDir, ·, generation.apiNames, generation.warnings⟩)

/-- **Builds the client library that the settings ask for.** -/
def run (loader : Yaml.Loader) (settings : Settings) : m (Except BuildError Build) := do
  match ← readDocument loader settings.inputPath with
  | .error e => return .error (.load e)
  | .ok document =>
    match generated document settings with
    | .error e => return .error e
    | .ok generation => write settings generation

def lines (build : Build) : List String :=
  build.warnings.map ("Warning: " ++ ·) ++
    ["Generated " ++ toString build.files.length ++ " files in " ++ build.outputDir.text]

end Build
end TypedClient
