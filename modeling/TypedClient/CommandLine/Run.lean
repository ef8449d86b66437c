import TypedClient.Build
import TypedClient.CommandLine.Options
import TypedClient.Settings.Load
/-!
# Run — one command from its words to its answer
-/
namespace TypedClient
namespace CommandLine

inductive CommandError where
  | usage (error : UsageError)
  | settings (error : Settings.LoadError)
  | build (error : BuildError)

def CommandError.message : CommandError → String
  | .usage e => e.message
  | .settings e => e.message
  | .build e => e.message

def helpLines : List String :=
  ["usage: typed-client [-h] [--input INPUT] [--output OUTPUT] [--config CONFIG]",
   "                    [--default-api DEFAULT_API] [--alias-scalar-typedefs]",
   "                    [--no-runtime-client] [--overwrite] [-v]",
   "",
   "Generate a typed TypeScript client library from an OpenAPI document"]

variable {m : Type → Type} [Monad m] [Files.FileSystem m]

def runBuild (loader : Yaml.Loader) (options : Options) : m (Except CommandError (List String)) := do
  match ← Settings.load loader options.configFile? options.given with
  | .error e => return .error (.settings e)
  | .ok settings =>
    match ← Build.run loader settings with
    | .error e => return .error (.build e)
    | .ok build => return .ok build.lines

/-- **Runs a command**; the answer is what it prints. -/
def run (loader : Yaml.Loader) (words : List String) : m (Except CommandError (List String)) :=
  match Request.read words with
  | .error e => return .error (.usage e)
  | .ok .help => return .ok helpLines
  | .ok (.build options) => runBuild loader options

end CommandLine
end TypedClient
