import TypedClient.Text.Blank
/-!
# Tag — the kinds of values in YAML

Every node of a document has a tag, which says what kind of value it is.  The tags of the common kinds share one authority;
all others are unknown here.
-/
namespace TypedClient
namespace Yaml

inductive Tag where
  | str
  | null
  | bool
  | int
  | float
  | timestamp
  | binary
  /-- The key that merges other mappings into its own. -/
  | merge
  /-- The key of a mapping's default value. -/
  | value
  | seq
  | map
  /-- A mapping of which only the keys count. -/
  | set
  /-- A list of mappings of one entry each, in order. -/
  | omap
  /-- A list of mappings of one entry each, whose keys may repeat. -/
  | pairs
  | unknown
  deriving DecidableEq, Inhabited

namespace Tag

/-- What the names of the known kinds start with. -/
def authority : String := "tag:yaml.org,2002:"

def ofName (name : String) : Tag :=
  if Text.startsWith name authority then
    match Text.dropFirst authority.length name with
    | "str" => .str
    | "null" => .null
    | "bool" => .bool
    | "int" => .int
    | "float" => .float
    | "timestamp" => .timestamp
    | "binary" => .binary
    | "seq" => .seq
    | "map" => .map
    | "set" => .set
    | "omap" => .omap
    | "pairs" => .pairs
    | "merge" => .merge
    | "value" => .value
    | _ => .unknown
  else .unknown

end Tag

end Yaml
end TypedClient
