import TypedClient.Files.System
import TypedClient.Emit.Module
/-!
# Write — the generated files into their directory

The output directory is made anew.  If it is there already, that is an error, or it is removed with all that is in it.  Then
the files are written one by one, with the directories they stand in; the first that cannot be written ends the run, and what
was written before it stays.
-/
namespace TypedClient
namespace Files

/-- Why the generated files cannot be written.  Paths are told as text. -/
inductive WriteError where
  | alreadyExists (dir : String)
  | notDirectory (dir : String)
  | notCleared (dir : String)
  | notCreated (dir : String)
  | notWritten (file : String)
  /-- The path is none that the system can look up, or the text cannot be encoded. -/
  | unusable (cause : FileError)
  deriving DecidableEq

namespace WriteError

def message : WriteError → String
  | .alreadyExists dir => "Output directory already exists: " ++ dir
  | .notDirectory dir => "Output path is not a directory: " ++ dir
  | .notCleared dir => "Failed to clear output directory " ++ dir
  | .notCreated dir => "Failed to create output directory " ++ dir
  | .notWritten file => "Failed to write file " ++ file
  | .unusable .notText => "Unusable text"
  | .unusable _ => "Unusable path"

end WriteError

/-- The error of an operation: one that says what failed, unless the path is none or the text cannot be encoded. -/
def failedAs (told : WriteError) : FileError → WriteError
  | .notPath => .unusable .notPath
  | .notText => .unusable .notText
  | _ => told

variable {m : Type → Type} [Monad m] [FileSystem m]

/-- Accepts that a directory could not be made if it may be there already and is. -/
def acceptExisting (existing : Bool) (path : Path) : Except FileError Unit → m (Except FileError Unit)
  | .ok () => return .ok ()
  | .error .missing => return .error .missing
  | .error e => do
    if existing then
      match ← FileSystem.kindOf path with
      | .ok .directory => return .ok ()
      | _ => return .error e
    else return .error e

/-- Makes a directory, and those above it if they are missing.  The path is given by its parts, the last one first. -/
def makeUpwards (slashes : Nat) : (parts : List String) → (existing : Bool) → m (Except FileError Unit)
  | [], existing => do
    let made ← FileSystem.makeDirectory ⟨slashes, []⟩
    acceptExisting existing ⟨slashes, []⟩ made
  | part :: above, existing => do
    let path : Path := ⟨slashes, (part :: above).reverse⟩
    match ← FileSystem.makeDirectory path with
    | .error .missing =>
      match ← makeUpwards slashes above true with
      | .error e => return .error e
      | .ok () => do
        let made ← FileSystem.makeDirectory path
        acceptExisting existing path made
    | made => acceptExisting existing path made

/-- **Makes a directory with the directories above it**; `existing` accepts one that is there. -/
def makeDirectories (path : Path) (existing : Bool) : m (Except FileError Unit) :=
  makeUpwards path.slashes path.parts.reverse existing

def createOutput (dir : Path) : m (Except WriteError Unit) := do
  return (← makeDirectories dir false).mapError (failedAs (.notCreated dir.text))

/-- **Makes the output directory**, in place of the old one if that may be overwritten. -/
def prepare (dir : Path) (overwrite : Bool) : m (Except WriteError Unit) := do
  match ← FileSystem.kindOf dir with
  | .error e => if e.isAbsence then createOutput dir else return .error (.unusable e)
  | .ok kind =>
    if !overwrite then return .error (.alreadyExists dir.text)
    else if kind = .file then return .error (.notDirectory dir.text)
    else
      match ← FileSystem.removeTree dir with
      | .ok () => createOutput dir
      | .error e => return .error (failedAs (.notCleared dir.text) e)

def writeFile (target : Path) (contents : String) : m (Except WriteError Unit) := do
  match ← makeDirectories target.parent true with
  | .error e => return .error (failedAs (.notWritten target.text) e)
  | .ok () =>
    return (← FileSystem.writeText target contents).mapError (failedAs (.notWritten target.text))

/-- Writes files into a directory; their paths are told in the order in which they are written. -/
def writeFiles (dir : Path) : List Emit.File → m (Except WriteError (List Path))
  | [] => return .ok []
  | file :: rest => do
    let target := dir.join (.ofText file.path)
    match ← writeFile target file.contents with
    | .error e => return .error e
    | .ok () => return (← writeFiles dir rest).map (target :: ·)

/-- **Writes a generated library** into its directory. -/
def writeLibrary (dir : Path) (files : List Emit.File) (overwrite : Bool) : m (Except WriteError (List Path)) := do
  match ← prepare dir overwrite with
  | .error e => return .error e
  | .ok () => writeFiles dir files

end Files
end TypedClient
