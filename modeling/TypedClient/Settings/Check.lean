import TypedClient.Settings.Basic
import TypedClient.Document.Node
import TypedClient.Naming.Label
import TypedClient.Text.Word
/-!
# Check — settings out of named values

Every setting is checked on its own, and all problems are told at once: those of the settings in their order, then the
names that are no settings.  Truth values may be spelled as words and as the numbers zero and one.
-/
namespace TypedClient
namespace Settings

inductive Fault where
  | missing
  | unknownName
  | notText
  /-- Bytes that are no text. -/
  | notUnicode
  | notPath
  /-- A value that no truth value is spelled in: no text and no integer of 64 bits. -/
  | notBoolean
  /-- A text or an integer of 64 bits that spells no truth value. -/
  | unreadableBoolean
  | notModule (value : String)
  | notIdentifier (value : String)
  deriving DecidableEq

structure Problem where
  name : String
  fault : Fault
  deriving DecidableEq

/-- What the checks of this program report. -/
def Fault.message? : Fault → Option String
  | .notModule value => some ("module path must end with '.ts': " ++ value)
  | .notIdentifier value => some ("API name must be an identifier: " ++ value)
  | _ => none

def booleanWords : List (String × Bool) :=
  [("0", false), ("off", false), ("f", false), ("false", false), ("n", false), ("no", false),
   ("1", true), ("on", true), ("t", true), ("true", true), ("y", true), ("yes", true)]

/-- The first number that is too great for a signed integer of 64 bits. -/
def wordBound : Nat := 9223372036854775808

def decode? (data : List UInt8) : Option String :=
  String.fromUTF8? ⟨data.toArray⟩

def readWord (word : String) : Except Fault Bool :=
  match booleanWords.lookup (Naming.lowerAscii word) with
  | some b => .ok b
  | none => .error .unreadableBoolean

def readBoolean : Node → Except Fault Bool
  | .bool b => .ok b
  | .str s => readWord s
  | .other (.atom (.bytes data)) =>
    match decode? data with
    | some s => readWord s
    | none => .error .unreadableBoolean
  | .int i =>
    if i = 0 then .ok false
    else if i = 1 then .ok true
    else if -(wordBound : Int) ≤ i && i < wordBound then .error .unreadableBoolean
    else .error .notBoolean
  | .float x =>
    if x.isZero then .ok false
    else if x.eqInt 1 then .ok true
    else
      match x.toRatio? with
      | some (num, den) =>
        if num % den = 0 && num.natAbs < wordBound * den then .error .unreadableBoolean else .error .notBoolean
      | none => .error .notBoolean
  | .null | .other _ | .list .. | .map .. => .error .notBoolean

def readText : Node → Except Fault String
  | .str s => .ok s
  | .other (.atom (.bytes data)) =>
    match decode? data with
    | some s => .ok s
    | none => .error .notUnicode
  | _ => .error .notText

def readPath : Node → Except Fault Files.Path
  | .str s => .ok (.ofText s)
  | _ => .error .notPath

def readModule (value : Node) : Except Fault String :=
  match readText value with
  | .ok s => if Text.endsWith s ".ts" then .ok s else .error (.notModule s)
  | .error e => .error e

def readName (value : Node) : Except Fault String :=
  match readText value with
  | .ok s => if Text.isWord s then .ok s else .error (.notIdentifier s)
  | .error e => .error e

def names : List String :=
  ["input_path", "output_dir", "default_api_name", "client_module", "definitions_module", "apis_dir", "index_module",
   "emit_runtime_client", "alias_scalar_typedefs", "overwrite"]

def required {α : Type} (values : List (String × Node)) (name : String) (read : Node → Except Fault α) :
    Except Problem α :=
  match values.lookup name with
  | none => .error ⟨name, .missing⟩
  | some value => (read value).mapError (⟨name, ·⟩)

def withDefault {α : Type} (values : List (String × Node)) (name : String) (default : α) (read : Node → Except Fault α) :
    Except Problem α :=
  match values.lookup name with
  | none => .ok default
  | some value => (read value).mapError (⟨name, ·⟩)

def problemOf {α : Type} : Except Problem α → List Problem
  | .ok _ => []
  | .error p => [p]

def unknownProblems (values : List (String × Node)) : List Problem :=
  (values.filter fun (name, _) => !names.contains name).map fun (name, _) => ⟨name, .unknownName⟩

/-- **The settings that named values spell**, or everything that is wrong with them. -/
def ofValues (values : List (String × Node)) : Except (List Problem) Settings :=
  let inputPath := required values "input_path" readPath
  let outputDir := required values "output_dir" readPath
  let defaultApiName := withDefault values "default_api_name" "DefaultApi" readName
  let clientModule := withDefault values "client_module" "client.ts" readModule
  let definitionsModule := withDefault values "definitions_module" "definitions.ts" readModule
  let apisDir := withDefault values "apis_dir" "apis" readText
  let indexModule := withDefault values "index_module" "index.ts" readModule
  let emitRuntimeClient := withDefault values "emit_runtime_client" true readBoolean
  let aliasScalarTypedefs := withDefault values "alias_scalar_typedefs" false readBoolean
  let overwrite := withDefault values "overwrite" false readBoolean
  let problems := problemOf inputPath ++ problemOf outputDir ++ problemOf defaultApiName ++ problemOf clientModule ++
    problemOf definitionsModule ++ problemOf apisDir ++ problemOf indexModule ++ problemOf emitRuntimeClient ++
    problemOf aliasScalarTypedefs ++ problemOf overwrite ++ unknownProblems values
  if problems.isEmpty then do
    return ⟨← inputPath.mapError ([·]), ← outputDir.mapError ([·]), ← defaultApiName.mapError ([·]),
      ← clientModule.mapError ([·]), ← definitionsModule.mapError ([·]), ← apisDir.mapError ([·]),
      ← indexModule.mapError ([·]), ← emitRuntimeClient.mapError ([·]), ← aliasScalarTypedefs.mapError ([·]),
      ← overwrite.mapError ([·])⟩
  else .error problems

end Settings
end TypedClient
