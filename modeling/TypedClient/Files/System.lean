import TypedClient.Files.Path
/-!
# System — what a run does with files

A run reads texts, looks what a path leads to, removes and makes directories, and writes texts.  Every operation answers
with a result or with the reason why it was refused; a refused operation leaves the files alone, except for the removal of a
directory, which may have removed what is inside.
-/
namespace TypedClient
namespace Files

inductive FileError where
  /-- The path leads nowhere. -/
  | missing
  /-- The path goes on behind something that is no directory. -/
  | notDirectory
  /-- A directory stands where a text is wanted. -/
  | isDirectory
  /-- Something stands where a directory is to be made. -/
  | occupied
  /-- The directory cannot be removed under this path. -/
  | notRemovable
  | tooManyLinks
  | nameTooLong
  /-- The path holds what no path can: a NUL, or a character that cannot be encoded. -/
  | notPath
  /-- What is read is no text, or the text to be written cannot be encoded. -/
  | notText
  /-- The system has a reason of its own. -/
  | refused
  deriving DecidableEq, Inhabited

inductive Kind where
  | directory
  | file
  deriving DecidableEq, Inhabited

/-- Files that a run in `m` works on.  Links are followed by all operations but the removal, which refuses them. -/
class FileSystem (m : Type → Type) where
  readText : Path → m (Except FileError String)
  kindOf : Path → m (Except FileError Kind)
  /-- Removes a directory with all that is in it. -/
  removeTree : Path → m (Except FileError Unit)
  /-- Makes a directory inside one that is there. -/
  makeDirectory : Path → m (Except FileError Unit)
  /-- Makes a file with this text, in place of the old text if the file is there. -/
  writeText : Path → String → m (Except FileError Unit)

/-- Whether the error says that there is nothing under the path. -/
def FileError.isAbsence : FileError → Bool
  | .missing | .notDirectory | .tooManyLinks | .notPath => true
  | _ => false

end Files
end TypedClient
