import TypedClient.CommandLine.Run
import TypedClient.Files.Encoding
/-!
# Main — the program

The files of a run are those of the system.  What a build tells goes to the standard output, errors go to the standard error.
-/
namespace TypedClient
namespace Files

def FileError.ofSystem : IO.Error → FileError
  | .noFileOrDirectory .. => .missing
  | .alreadyExists .. => .occupied
  | .inappropriateType .. => .notDirectory
  | _ => .refused

/-- The answer of a system operation; a path with a NUL is not handed on. -/
def onSystem {α : Type} (path : Path) (operation : IO α) : IO (Except FileError α) := do
  if path.text.toList.contains (Char.ofNat 0) then return .error .notPath
  try
    return .ok (← operation)
  catch e => return .error (.ofSystem e)

def readSystemText (path : Path) : IO (Except FileError String) := do
  match ← onSystem path (IO.FS.readBinFile path.text) with
  | .error e => return .error e
  | .ok bytes =>
    match String.fromUTF8? bytes with
    | some text => return .ok text
    | none => return .error .notText

/-- What a path leads to: a directory can be opened, but not read. -/
def systemKind (path : Path) : IO (Except FileError Kind) := do
  match ← onSystem path (IO.FS.Handle.mk path.text .read) with
  | .error e => return .error e
  | .ok handle =>
    try
      let _ ← handle.read 1
      return .ok .file
    catch _ => return .ok .directory

/-- Whether a path leads to the directory of its own name, and not through a link at its end. -/
def isOwnDirectory (path : Path) : IO Bool := do
  let place ← IO.FS.realPath path.text
  let above ← IO.FS.realPath path.parent.text
  match path.parts.getLast? with
  | none => return false
  | some name => return name != ".." && toString place = ((Path.ofText (toString above)).join (.ofText name)).text

/-- Removes a directory; a link to one is refused. -/
def removeSystemTree (path : Path) : IO (Except FileError Unit) := do
  match ← onSystem path (isOwnDirectory path) with
  | .error e => return .error e
  | .ok false => return .error .notRemovable
  | .ok true => onSystem path (IO.FS.removeDirAll path.text)

instance : FileSystem IO where
  readText := readSystemText
  kindOf := systemKind
  removeTree := removeSystemTree
  makeDirectory path := onSystem path (IO.FS.createDir path.text)
  writeText path text := onSystem path (IO.FS.writeFile path.text text)

end Files
end TypedClient

def main (args : List String) : IO UInt32 := do
  match ← ReaderT.run (TypedClient.CommandLine.run TypedClient.Yaml.load args) TypedClient.Files.Encoding.utf8 with
  | .ok lines =>
    for line in lines do
      IO.println line
    return 0
  | .error e =>
    IO.eprintln ("typed-client: error: " ++ e.message)
    return 2
