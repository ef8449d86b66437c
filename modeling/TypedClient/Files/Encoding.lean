import TypedClient.Files.System
import TypedClient.Text.Half
/-!
# Encoding — files whose names and texts are encoded

Not every text can be encoded: halves of characters cannot.  A path with a part that cannot be encoded is none, and nothing is
looked up.  A text is encoded when its file has been opened, so that one that cannot be encoded leaves the file empty.
-/
namespace TypedClient
namespace Files

/-- Which characters can be encoded, in names and in texts. -/
structure Encoding where
  inName : Char → Bool
  inText : Char → Bool

namespace Encoding

def encodesPath (encoding : Encoding) (path : Path) : Bool :=
  path.parts.all fun part => part.toList.all encoding.inName

def encodesText (encoding : Encoding) (text : String) : Bool :=
  text.toList.all encoding.inText

/-- UTF-8, which has no halves.  In names, the halves U+DC80 to U+DCFF stand for bytes that are no UTF-8. -/
def utf8 : Encoding where
  inName c := match Text.halfCode? c with
    | some code => 0xDC80 ≤ code && code ≤ 0xDCFF
    | none => true
  inText c := (Text.halfCode? c).isNone

end Encoding

variable {m : Type → Type} [Monad m]

/-- An operation under a path, refused if the path cannot be encoded. -/
def atPath {α : Type} (path : Path) (operation : m (Except FileError α)) : ReaderT Encoding m (Except FileError α) :=
  fun encoding => if encoding.encodesPath path then operation else return .error .notPath

/-- Writes a text.  If it cannot be encoded, its file is empty. -/
def writeEncoded [FileSystem m] (path : Path) (text : String) : ReaderT Encoding m (Except FileError Unit) :=
  fun encoding =>
    if encoding.encodesText text then atPath path (FileSystem.writeText path text) encoding
    -- the file is opened before its text is encoded
    else return (← atPath path (FileSystem.writeText path "") encoding).bind fun () => .error .notText

instance [FileSystem m] : FileSystem (ReaderT Encoding m) where
  readText path := atPath path (FileSystem.readText path)
  kindOf path := atPath path (FileSystem.kindOf path)
  removeTree path := atPath path (FileSystem.removeTree path)
  makeDirectory path := atPath path (FileSystem.makeDirectory path)
  writeText := writeEncoded

end Files
end TypedClient
