import TypedClient.Yaml.Cursor
import TypedClient.Yaml.Graph
/-!
# Merge — merge keys replaced by what they bring in

The value of a merge key is a mapping or a list of mappings.  Their entries come in front of the mapping's own, so that its own win,
and of a list the first mapping wins.  The mappings that are brought in are flattened first.  A mapping may bring in itself: its
merge key is gone by then, so that this ends.

Flattening also settles that the key of a default value, where it is a key, is text.
-/
namespace TypedClient
namespace Yaml
namespace Graph

abbrev Change := StateT Graph (Except Fault)

/-- Flattens the mappings that a merge key brings in, and lists their entries; `flatten` flattens one. -/
def broughtIn (flatten : Nat → Change Unit) : List Nat → Change (List (Nat × Nat))
  | [] => return []
  | i :: rest => do
    match (← get).entries? i with
    | none => throw .malformed
    | some _ =>
      flatten i
      let entries := ((← get).entries? i).getD []
      return (← broughtIn flatten rest) ++ entries

/-- The vertices that the value of a merge key brings in. -/
def sources (g : Graph) (value : Nat) : List Nat :=
  match (g.vertex value).content with
  | .sequence items => items
  | _ => [value]

/-- Goes through the entries of the mapping `i`, of which `kept` stay so far, and lists what its merge keys bring in.  If the
mapping changed on the way, because it brings in itself, it is flat already. -/
def flattenEntries (flatten : Nat → Change Unit) (i : Nat) (kept : List (Nat × Nat)) :
    List (Nat × Nat) → Change (List (Nat × Nat))
  | [] => return []
  | (key, value) :: rest => do
    let g ← get
    match g.tag key with
    | .merge =>
      let left := kept ++ rest
      set (g.setEntries i left)
      let found ← broughtIn flatten (g.sources value)
      if (← get).entries? i = some left then return found ++ (← flattenEntries flatten i kept rest)
      else return found
    | .value =>
      set (g.setTag key .str)
      flattenEntries flatten i (kept ++ [(key, value)]) rest
    | _ => flattenEntries flatten i (kept ++ [(key, value)]) rest

/-- **Flattens a mapping.**  Every step inwards removes a merge key, so that as many as there are entries are enough. -/
def flatten : Nat → Nat → Change Unit
  | 0, _ => throw .endless
  | fuel + 1, i => do
    let found ← flattenEntries (flatten fuel) i [] (((← get).entries? i).getD [])
    if !found.isEmpty then
      modify fun g => g.setEntries i (found ++ (g.entries? i).getD [])

end Graph
end Yaml
end TypedClient
