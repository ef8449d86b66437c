import TypedClient.Yaml.Lexer
import TypedClient.Yaml.Looks
import TypedClient.Yaml.Graph
/-!
# Reader — the graph of a YAML text

A text holds at most one document.  Its collections may stand inside one another up to a limit.
-/
namespace TypedClient
namespace Yaml

/-- What is left to read, the vertices and anchors met so far, the tag handles, and how many collections are open. -/
structure Reader where
  tokens : List Token
  graph : Graph
  anchors : List (String × Nat)
  handles : List (String × String)
  depth : Nat

namespace Reader

abbrev Read := StateT Reader (Except Fault)

def malformed {α : Type} : Read α := throw .malformed

/-- The next token.  Where the text stops to make sense, that is found out by looking. -/
def peek : Read Token := do
  match (← get).tokens with
  | .fault f :: _ => throw f
  | t :: _ => return t
  | [] => return .streamEnd

def advance : Read Unit :=
  modify fun r => { r with tokens := r.tokens.tail }

def accept (t : Token) : Read Bool := do
  if (← peek) = t then
    advance
    return true
  else return false

/-- Goes on behind the next token, which has to be the given one. -/
def expect (t : Token) : Read Unit := do
  if (← peek) = t then advance else malformed

def next? (ts : List Token) : Read Bool := do
  return ts.contains (← peek)

def add (v : Vertex) : Read Nat := do
  let r ← get
  set { r with graph := r.graph.add v }
  return r.graph.size

/-- What stands where nothing is written. -/
def empty : Read Nat := add ⟨.null, .scalar ""⟩

/-- The most collections inside one another. -/
def nestingLimit : Nat := 488

/-- Reads the contents of a collection, which is one inside those that are open. -/
def nested {α : Type} (contents : Read α) : Read α := do
  let r ← get
  if nestingLimit ≤ r.depth then throw .tooDeep
  set { r with depth := r.depth + 1 }
  let found ← contents
  modify fun s => { s with depth := r.depth }
  return found

/-- The anchor and the tag in front of a vertex, in either order. -/
def properties : Read (Option String × Option (Option String × String)) := do
  match ← peek with
  | .anchor name =>
    advance
    match ← peek with
    | .tag handle suffix => advance; return (some name, some (handle, suffix))
    | _ => return (some name, none)
  | .tag handle suffix =>
    advance
    match ← peek with
    | .anchor name => advance; return (some name, some (handle, suffix))
    | _ => return (none, some (handle, suffix))
  | _ => return (none, none)

/-- The full name of a tag; `none` for no tag and for the lone exclamation mark, which says nothing. -/
def tagName (tag : Option (Option String × String)) : Read (Option String) := do
  match tag with
  | none => return none
  | some (none, suffix) => return if suffix = "!" then none else some suffix
  | some (some handle, suffix) =>
    match (← get).handles.lookup handle with
    | some expansion => return some (expansion ++ suffix)
    | none => malformed

/-- Sets an anchor to the vertex that is read next.  Every anchor is set once. -/
def setAnchor (name : Option String) (vertex : Nat) : Read Unit := do
  match name with
  | none => return
  | some name =>
    let r ← get
    if (r.anchors.lookup name).isSome then malformed
    else set { r with anchors := (name, vertex) :: r.anchors }

/-- The kind of a collection: the one it is tagged with, or else the common one. -/
def collectionTag (name : Option String) (common : Tag) : Tag :=
  match name with
  | some name => .ofName name
  | none => common

/-- The kind of a scalar: the one it is tagged with; text if it is quoted; or else what it looks like. -/
def scalarTag (name : Option String) (tagged plain : Bool) (text : String) : Tag :=
  match name with
  | some name => .ofName name
  | none => if plain || tagged then Scalar.looks text else .str

mutual
/-- **Reads a vertex.**  In a block, block collections may stand; where `indentless`, also a sequence that is not indented. -/
def node (inBlock indentless : Bool) : Nat → Read Nat
  | 0 => malformed
  | fuel + 1 => do
    match ← peek with
    | .reference name =>
      advance
      match (← get).anchors.lookup name with
      | some vertex => return vertex
      | none => malformed
    | _ =>
      let (anchor, tag) ← properties
      let name ← tagName tag
      let _ ← peek
      let vertex ← add default
      setAnchor anchor vertex
      let found ← content inBlock indentless name tag.isSome anchor.isSome fuel
      modify fun r => { r with graph := r.graph.put vertex found }
      return vertex

def content (inBlock indentless : Bool) (name : Option String) (tagged anchored : Bool) : Nat → Read Vertex
  | 0 => malformed
  | fuel + 1 => do
    let nothing : Read Vertex :=
      if tagged || anchored then return ⟨scalarTag name true false "", .scalar ""⟩ else malformed
    match ← peek with
    | .blockEntry =>
      if indentless then return ⟨collectionTag name .seq, .sequence (← nested (indentlessItems fuel))⟩
      else nothing
    | .scalar text plain =>
      advance
      return ⟨scalarTag name tagged plain text, .scalar text⟩
    | .flowSequenceStart =>
      advance
      return ⟨collectionTag name .seq, .sequence (← nested (flowItems true fuel))⟩
    | .flowMappingStart =>
      advance
      return ⟨collectionTag name .map, .mapping (← nested (flowEntries true fuel))⟩
    | .blockSequenceStart =>
      if inBlock then
        advance
        return ⟨collectionTag name .seq, .sequence (← nested (blockItems fuel))⟩
      else nothing
    | .blockMappingStart =>
      if inBlock then
        advance
        return ⟨collectionTag name .map, .mapping (← nested (blockEntries fuel))⟩
      else nothing
    | _ => nothing

def blockItems : Nat → Read (List Nat)
  | 0 => malformed
  | fuel + 1 => do
    if ← accept .blockEntry then
      let item ← if ← next? [.blockEntry, .blockEnd] then empty else node true false fuel
      return item :: (← blockItems fuel)
    else
      expect .blockEnd
      return []

/-- Reads the items of a sequence that is not indented; what follows them ends it. -/
def indentlessItems : Nat → Read (List Nat)
  | 0 => malformed
  | fuel + 1 => do
    if ← accept .blockEntry then
      let item ← if ← next? [.blockEntry, .key, .value, .blockEnd] then empty else node true false fuel
      return item :: (← indentlessItems fuel)
    else return []

def blockEntries : Nat → Read (List (Nat × Nat))
  | 0 => malformed
  | fuel + 1 => do
    if ← accept .key then
      let key ← if ← next? [.key, .value, .blockEnd] then empty else node true true fuel
      let value ←
        if ← accept .value then
          if ← next? [.key, .value, .blockEnd] then empty else node true true fuel
        else empty
      return (key, value) :: (← blockEntries fuel)
    else
      expect .blockEnd
      return []

/-- Reads the items of a sequence in brackets; a key among them is a mapping of one entry. -/
def flowItems (first : Bool) : Nat → Read (List Nat)
  | 0 => malformed
  | fuel + 1 => do
    if ← accept .flowSequenceEnd then return [] else
    if !first then expect .flowEntry
    if ← accept .key then
      let entry ← nested do
        let key ← if ← next? [.value, .flowEntry, .flowSequenceEnd] then empty else node false false fuel
        let value ←
          if ← accept .value then
            if ← next? [.flowEntry, .flowSequenceEnd] then empty else node false false fuel
          else empty
        add ⟨.map, .mapping [(key, value)]⟩
      return entry :: (← flowItems false fuel)
    else if ← accept .flowSequenceEnd then return []
    else
      let item ← node false false fuel
      return item :: (← flowItems false fuel)

def flowEntries (first : Bool) : Nat → Read (List (Nat × Nat))
  | 0 => malformed
  | fuel + 1 => do
    if ← accept .flowMappingEnd then return [] else
    if !first then expect .flowEntry
    if ← accept .key then
      let key ← if ← next? [.value, .flowEntry, .flowMappingEnd] then empty else node false false fuel
      let value ←
        if ← accept .value then
          if ← next? [.flowEntry, .flowMappingEnd] then empty else node false false fuel
        else empty
      return (key, value) :: (← flowEntries false fuel)
    else if ← accept .flowMappingEnd then return []
    else
      let key ← node false false fuel
      let value ← empty
      return (key, value) :: (← flowEntries false fuel)
end

def commonHandles : List (String × String) :=
  [("!", "!"), ("!!", Tag.authority)]

def directives : Nat → Bool → Read Unit
  | 0, _ => malformed
  | fuel + 1, versioned => do
    match ← peek with
    | .directive (.version major _) =>
      if versioned || major != 1 then malformed
      advance
      directives fuel true
    | .directive (.handle name expansion) =>
      let r ← get
      if (r.handles.lookup name).isSome then malformed
      set { r with handles := (name, expansion) :: r.handles }
      advance
      directives fuel versioned
    | .directive .unknown =>
      advance
      directives fuel versioned
    | _ => modify fun r => { r with handles := r.handles ++ commonHandles }

def skipDocumentEnds : Nat → Read Unit
  | 0 => return
  | fuel + 1 => do
    if ← accept .documentEnd then skipDocumentEnds fuel

/-- Reads the end of the text, behind a document.  What else is there begins like another document. -/
def finish (fuel : Nat) : Read Unit := do
  skipDocumentEnds fuel
  if (← peek) ≠ .streamEnd then
    modify fun r => { r with handles := [] }
    directives fuel false
    expect .documentStart
    malformed

def bareDocument (fuel : Nat) : Read Nat := do
  modify fun r => { r with handles := commonHandles }
  let root ← node true false fuel
  finish fuel
  return root

def bordersDocument : Token → Bool
  | .directive _ | .documentStart | .documentEnd | .streamEnd => true
  | _ => false

def markedDocument (fuel : Nat) : Read Nat := do
  directives fuel false
  expect .documentStart
  let root ← if bordersDocument (← peek) then empty else node true false fuel
  finish fuel
  return root

/-- **Reads a text**: its document, or `none` if it holds no document. -/
def document (fuel : Nat) : Read (Option Nat) := do
  match ← peek with
  | .streamEnd => return none
  | .directive _ | .documentStart => return some (← markedDocument fuel)
  | _ => return some (← bareDocument fuel)

end Reader

/-- **The graph of a text** and its root; there is none for a text without a document. -/
def Graph.ofText (text : String) : Except Fault (Option (Graph × Nat)) :=
  let tokens := Token.ofText text
  match (Reader.document (4 * tokens.length + 8)).run ⟨tokens, .empty, [], [], 0⟩ with
  | .ok (some root, r) => .ok (some (r.graph, root))
  | .ok (none, _) => .ok none
  | .error e => .error e

end Yaml
end TypedClient
