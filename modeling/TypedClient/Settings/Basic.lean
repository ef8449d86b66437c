import TypedClient.Files.Path
import TypedClient.Text.Blank
/-!
# Settings — what a run is asked to do
-/
namespace TypedClient

structure Settings where
  inputPath : Files.Path
  outputDir : Files.Path
  /-- The API class of operations whose tags name none. -/
  defaultApiName : String := "DefaultApi"
  clientModule : String := "client.ts"
  definitionsModule : String := "definitions.ts"
  apisDir : String := "apis"
  indexModule : String := "index.ts"
  emitRuntimeClient : Bool := true
  /-- Whether named scalars get a typedef. -/
  aliasScalarTypedefs : Bool := false
  overwrite : Bool := false
  deriving DecidableEq, Inhabited

namespace Settings

/-- **The file of an API class**: in the directory of API modules, slashes around its name left out. -/
def apiModule (s : Settings) (apiName : String) : String :=
  if s.apisDir.isEmpty then apiName ++ ".ts"
  else String.ofList (Text.dropEnds (· == '/') s.apisDir.toList) ++ "/" ++ apiName ++ ".ts"

end Settings
end TypedClient
