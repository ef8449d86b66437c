import TypedClient.CommandLine.Word
import TypedClient.Files.Path
/-!
# Options — what a command line asks for

The options are taken from left to right, and of a repeated one the last counts.  Words that are no options and no values are
told together, but only if nothing else is wrong.
-/
namespace TypedClient
namespace CommandLine

/-- The value of an option.  The mark behind which there are no options is no value, even where it is attached to an option. -/
abbrev Value := Option String

def valueOf (text : String) : Value :=
  if text = "--" then none else some text

structure Options where
  input : Option Value := none
  output : Option Value := none
  config : Option Value := none
  defaultApi : Option Value := none
  aliasScalarTypedefs : Bool := false
  noRuntimeClient : Bool := false
  overwrite : Bool := false
  verbose : Bool := false
  deriving DecidableEq, Inhabited

inductive Request where
  | help
  | build (options : Options)
  deriving DecidableEq

namespace Options

def setValue (o : Options) (flag : Flag) (text : String) : Options :=
  match flag with
  | .input => { o with input := some (valueOf text) }
  | .output => { o with output := some (valueOf text) }
  | .config => { o with config := some (valueOf text) }
  | .defaultApi => { o with defaultApi := some (valueOf text) }
  | _ => o

def setFlag (o : Options) : Flag → Options
  | .aliasScalarTypedefs => { o with aliasScalarTypedefs := true }
  | .noRuntimeClient => { o with noRuntimeClient := true }
  | .overwrite => { o with overwrite := true }
  | .verbose => { o with verbose := true }
  | _ => o

/-- The options with flags set one after the other; asking for help ends the reading. -/
def setFlags (o : Options) : List Flag → Option Options
  | [] => some o
  | .help :: _ => none
  | flag :: rest => setFlags (o.setFlag flag) rest

/-- The short flags that share the dash of the first one: all letters have to be flags. -/
def cluster (flag : Flag) : List Char → Except UsageError (List Flag)
  | [] => .ok [flag]
  | letter :: rest =>
    match spellings.lookup (String.ofList ['-', letter]) with
    | some next => (cluster next rest).map (flag :: ·)
    | none => .error (.valueIgnored flag (String.ofList (letter :: rest)))

def flagsOf (flag : Flag) : Attachment → Except UsageError (List Flag)
  | .nothing => .ok [flag]
  | .value text => .error (.valueIgnored flag text)
  | .letters text => cluster flag text

/-- Takes the options out of words; `extra` are the words that are none. -/
def ofWords (o : Options) (extra : List String) : List (String × Word) → Except UsageError Request
  | [] => if extra.isEmpty then .ok (.build o) else .error (.unrecognized extra)
  | (text, .plain) :: rest | (text, .unknown) :: rest => ofWords o (extra ++ [text]) rest
  | (_, .option flag attached) :: rest =>
    if flag.wantsValue then
      match attached, rest with
      | .value text, rest => ofWords (o.setValue flag text) extra rest
      | _, (text, .plain) :: rest => ofWords (o.setValue flag text) extra rest
      | _, _ => .error (.valueMissing flag)
    else
      match flagsOf flag attached with
      | .error e => .error e
      | .ok flags =>
        match o.setFlags flags with
        | none => .ok .help
        | some o => ofWords o extra rest

/-- The value of an option as the value of a setting: null if the option is not there, an empty list if its value is none. -/
def settingOf : Option Value → Node
  | some (some text) => .str text
  | some none => .list none []
  | none => .null

/-- The settings that the options give; null where they give none. -/
def given (o : Options) : List (String × Node) :=
  [("input_path", settingOf o.input), ("output_dir", settingOf o.output), ("default_api_name", settingOf o.defaultApi),
   ("alias_scalar_typedefs", if o.aliasScalarTypedefs then .bool true else .null),
   ("emit_runtime_client", if o.noRuntimeClient then .bool false else .null),
   ("overwrite", if o.overwrite then .bool true else .null)]

def configFile? (o : Options) : Option Files.Path :=
  (o.config.join.filter (!·.isEmpty)).map .ofText

end Options

/-- **What a command line asks for.** -/
def Request.read (words : List String) : Except UsageError Request :=
  match Word.readAll words with
  | .ok words => Options.ofWords {} [] words
  | .error e => .error e

end CommandLine
end TypedClient
