/-!
# Grouped — values under keys, in order of first appearance

A grouping lists its keys in the order in which they first appear, and under each key its values in the order in which
they were added.
-/
namespace TypedClient

abbrev Grouped (α : Type) := List (String × List α)

namespace Grouped

/-- Adds a value at the end of its key's list; a new key goes to the end. -/
def add {α : Type} : Grouped α → String → α → Grouped α
  | [], key, value => [(key, [value])]
  | (k, values) :: rest, key, value =>
    if k = key then (k, values ++ [value]) :: rest else (k, values) :: add rest key value

def ofList {α : Type} (pairs : List (String × α)) : Grouped α :=
  pairs.foldl (fun acc (key, value) => acc.add key value) []

end Grouped

/-- The list without repetitions: the first of equal elements stays. -/
def dropRepeats {α : Type} [BEq α] (items : List α) : List α :=
  items.foldl (fun kept x => if kept.contains x then kept else kept ++ [x]) []

end TypedClient
