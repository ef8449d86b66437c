import TypedClient.Yaml.Cursor
/-!
# Token — the words of a YAML text

Some tokens stand for characters of the text; others for its layout: where a block collection begins and ends, and what is
the key of a mapping.
-/
namespace TypedClient
namespace Yaml

inductive Directive where
  | version (major minor : Nat)
  | handle (name expansion : String)
  | unknown
  deriving DecidableEq

inductive Token where
  | directive (d : Directive)
  | documentStart
  | documentEnd
  | streamEnd
  | blockSequenceStart
  | blockMappingStart
  | blockEnd
  | flowSequenceStart
  | flowSequenceEnd
  | flowMappingStart
  | flowMappingEnd
  | blockEntry
  | flowEntry
  | key
  | value
  | reference (name : String)
  | anchor (name : String)
  | tag (handle : Option String) (suffix : String)
  | scalar (text : String) (plain : Bool)
  /-- Where the text stops to make sense. -/
  | fault (f : Fault)
  deriving DecidableEq

end Yaml
end TypedClient
