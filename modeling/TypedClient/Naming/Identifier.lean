import TypedClient.Text.Blank
import TypedClient.Text.Case
/-!
# Identifier — names made from arbitrary text

An identifier consists of ASCII letters, digits, `_` and `$` and starts with no digit.  Any text is turned into one: every
run of other characters becomes a single `_`, underscores at the ends go, and what then starts with a digit or is a
reserved word gets an underscore back.
-/
namespace TypedClient
namespace Naming

def isIdentifierStart (c : Char) : Bool :=
  c.isAlpha || c == '_' || c == '$'

def isIdentifierChar (c : Char) : Bool :=
  c.isAlphanum || c == '_' || c == '$'

def isIdentifier : List Char → Bool
  | [] => false
  | c :: rest => isIdentifierStart c && rest.all isIdentifierChar

def reservedWords : List String :=
  ["break", "case", "catch", "class", "const", "continue", "debugger", "default", "delete", "do", "else", "enum",
   "export", "extends", "false", "finally", "for", "function", "if", "import", "in", "instanceof", "new", "null",
   "return", "super", "switch", "this", "throw", "true", "try", "typeof", "var", "void", "while", "with"]

/-- The characters with every run of foreign ones replaced by one underscore. -/
def joinRuns : List Char → List Char
  | [] => []
  | c :: rest =>
    if isIdentifierChar c then c :: joinRuns rest else
    match rest with
    | [] => ['_']
    | d :: _ => if isIdentifierChar d then '_' :: joinRuns rest else joinRuns rest

/-- What is left of the text: foreign runs joined, underscores trimmed, `value` if nothing is left. -/
def core (cs : List Char) : List Char :=
  match Text.dropEnds (· == '_') (joinRuns cs) with
  | [] => ['v', 'a', 'l', 'u', 'e']
  | kept => kept

def shieldDigit : List Char → List Char
  | [] => []
  | c :: rest => if c.isDigit then '_' :: c :: rest else c :: rest

def shieldReserved (word : String) : String :=
  if reservedWords.contains word then word ++ "_" else word

/-- **The identifier for a text.** -/
def sanitize (raw : String) : String :=
  shieldReserved (String.ofList (shieldDigit (core raw.toList)))

/-- The words of a text: its maximal runs of ASCII letters and digits. -/
def words (text : String) : List String :=
  ((Text.splitBy (!·.isAlphanum) text.toList).filter (!·.isEmpty)).map String.ofList

/-- **The type name for a text**: its words with capital initials, run together. -/
def typeName (raw : String) : String :=
  sanitize (String.join ((words raw).map Text.capitalize))

def segments (path : String) : List String :=
  let bare := path.toList.filter fun c => c != '{' && c != '}'
  ((Text.splitBy (fun c => c == '/' || c == '_' || c == '-' || c == '.') bare).filter (!·.isEmpty)).map String.ofList

/-- **The method name derived from a path and a request method**: `/widgets/{id}` with `get` is `WidgetsIdGet`. -/
def methodName (path method : String) : String :=
  sanitize (String.join ((segments path).map Text.capitalize) ++ Text.capitalize method)

end Naming
end TypedClient
