import TypedClient.Document.Node
import TypedClient.Text.Digit
/-!
# Word — the words of a command line

Every word is an option, the value of one, or neither.  A long option may be cut short as long as only one option begins that
way, and may carry its value behind `=`.  Short options without values may share one dash; an `=` right behind the first of
them does not count.  Behind the word `--` there are no options.
-/
namespace TypedClient
namespace CommandLine

inductive Flag where
  | help
  | input
  | output
  | config
  | defaultApi
  | aliasScalarTypedefs
  | noRuntimeClient
  | overwrite
  | verbose
  deriving DecidableEq, Inhabited

def spellings : List (String × Flag) :=
  [("-h", .help), ("--help", .help), ("--input", .input), ("--output", .output), ("--config", .config),
   ("--default-api", .defaultApi), ("--alias-scalar-typedefs", .aliasScalarTypedefs),
   ("--no-runtime-client", .noRuntimeClient), ("--overwrite", .overwrite), ("-v", .verbose), ("--verbose", .verbose)]

namespace Flag

def wantsValue : Flag → Bool
  | .input | .output | .config | .defaultApi => true
  | _ => false

def title (f : Flag) : String :=
  "/".intercalate ((spellings.filter fun (_, g) => g = f).map Prod.fst)

end Flag

inductive UsageError where
  /-- More than one option begins like this. -/
  | ambiguous (word : String) (candidates : List String)
  | valueMissing (flag : Flag)
  /-- A value is given to a flag that takes none. -/
  | valueIgnored (flag : Flag) (value : String)
  | unrecognized (words : List String)
  deriving DecidableEq

def UsageError.message : UsageError → String
  | .ambiguous word candidates => "ambiguous option: " ++ word ++ " could match " ++ ", ".intercalate candidates
  | .valueMissing flag => "argument " ++ flag.title ++ ": expected one argument"
  | .valueIgnored flag value => "argument " ++ flag.title ++ ": ignored explicit argument " ++ Text.display value
  | .unrecognized words => "unrecognized arguments: " ++ " ".intercalate words

/-- What stands right behind an option in its word. -/
inductive Attachment where
  | nothing
  /-- A value, behind `=`. -/
  | value (text : String)
  /-- More letters behind a short option. -/
  | letters (text : List Char)
  deriving DecidableEq

/-- A value behind `=` as more letters, if it is not empty. -/
def Attachment.asLetters : Attachment → Attachment
  | .value text => if text.isEmpty then .value text else .letters text.toList
  | a => a

inductive Word where
  /-- No option; it may be the value of one. -/
  | plain
  | option (flag : Flag) (attached : Attachment)
  /-- Neither an option nor a value. -/
  | unknown
  deriving DecidableEq

/-- What precedes the first `=` of a word, and what follows it. -/
def splitValue (word : List Char) : List Char × Attachment :=
  match word.dropWhile (· != '=') with
  | [] => (word, .nothing)
  | _ :: value => (word.takeWhile (· != '='), .value (String.ofList value))

/-- Whether digits, with at most one point in front of the last of them, are a number.  A line feed may follow. -/
def isUnsigned (cs : List Char) : Bool :=
  let cs := if cs.getLast? = some '\n' then cs.dropLast else cs
  let isDecimal (c : Char) : Bool := (Text.digitValue? c).isSome
  let fraction := cs.dropWhile isDecimal
  match fraction with
  | [] => !cs.isEmpty
  | '.' :: rest => !rest.isEmpty && rest.all isDecimal
  | _ => false

def isNegative (word : List Char) : Bool :=
  match word with
  | '-' :: rest => isUnsigned rest
  | _ => false

/-- The options that a word can mean which spells none in full, with what it attaches to them. -/
def candidates (word : List Char) : List (String × Flag) × Attachment :=
  match word with
  | '-' :: '-' :: _ =>
    let (name, attached) := splitValue word
    (spellings.filter fun (spelling, _) => name.isPrefixOf spelling.toList, attached)
  | dash :: letter :: rest => (spellings.filter fun (spelling, _) => spelling.toList = [dash, letter], .letters rest)
  | _ => ([], .nothing)

/-- **What a word is**, read by itself: an option in full, an option in full with a value, or what can be meant by it. -/
def Word.read (text : String) : Except UsageError Word :=
  let word := text.toList
  if word.head? ≠ some '-' || word.length = 1 then .ok .plain
  else
    let (name, attached) := splitValue word
    match spellings.lookup text, spellings.lookup (String.ofList name) with
    | some flag, _ => .ok (.option flag .nothing)
    | none, some flag => .ok (.option flag (if name.length = 2 then attached.asLetters else attached))
    | none, none =>
      match candidates word with
      | ([(_, flag)], attached) => .ok (.option flag attached)
      | ([], _) => .ok (if isNegative word || word.contains ' ' then .plain else .unknown)
      | (several, _) => .error (.ambiguous text (several.map Prod.fst))

/-- What all words are; behind `--` they are plain. -/
def Word.readAll : List String → Except UsageError (List (String × Word))
  | [] => .ok []
  | text :: rest =>
    if text = "--" then .ok ((text, .unknown) :: rest.map (·, .plain))
    else
      match Word.read text, readAll rest with
      | .ok word, .ok words => .ok ((text, word) :: words)
      | .error e, _ | _, .error e => .error e

end CommandLine
end TypedClient
