import TypedClient.Files.System
/-!
# Tree — files in memory

A tree of files is a table of what stands at which place; a place is the list of names that lead to it from the root.  A
path is walked name by name from the root or from the working directory: `..` leads back to the directory above, a link
leads on to its target, and at most forty links are followed on one walk.
-/
namespace TypedClient
namespace Files

/-- A place in a tree: the names from the root to it. -/
abbrev Place := List String

/-- What stands at a place. -/
inductive Entry where
  | directory
  | file (text : String)
  | link (target : String)
  deriving DecidableEq, Inhabited

/-- A tree of files.  The root is a directory and has no entry of its own. -/
structure FileTree where
  /-- The working directory, from which relative paths lead on. -/
  home : Place
  entries : List (Place × Entry)
  deriving DecidableEq, Inhabited

namespace FileTree

def entry? (t : FileTree) (place : Place) : Option Entry :=
  if place.isEmpty then some .directory else t.entries.lookup place

def setEntry : List (Place × Entry) → Place → Entry → List (Place × Entry)
  | [], place, entry => [(place, entry)]
  | (p, e) :: rest, place, entry => if p = place then (p, entry) :: rest else (p, e) :: setEntry rest place entry

def put (t : FileTree) (place : Place) (entry : Entry) : FileTree :=
  { t with entries := setEntry t.entries place entry }

/-- The tree without what stands below a place. -/
def clear (t : FileTree) (place : Place) : FileTree :=
  { t with entries := t.entries.filter fun (p, _) => p = place || !place.isPrefixOf p }

/-- The tree without a place and what stands below it. -/
def remove (t : FileTree) (place : Place) : FileTree :=
  { t with entries := t.entries.filter fun (p, _) => !place.isPrefixOf p }

/-- The longest name that a file can have, in bytes. -/
def longestName : Nat := 255

/-- The longest path that can be walked, in bytes. -/
def longestPath : Nat := 4095

/-- Walks names from a directory; `follow` goes on where a link leads to.  The link at the end of the names is followed
only if `throughLast` says so.  The place at the end need not be taken. -/
def walkNames (t : FileTree) (throughLast : Bool) (follow : Place → List String → Except FileError Place) :
    Place → List String → Except FileError Place
  | place, [] => .ok place
  | place, name :: rest =>
    if name = ".." then walkNames t throughLast follow place.dropLast rest
    else if name.utf8ByteSize > longestName then .error .nameTooLong
    else
      let next := place ++ [name]
      match t.entry? next with
      | some .directory => walkNames t throughLast follow next rest
      | some (.file _) => if rest.isEmpty then .ok next else .error .notDirectory
      | some (.link target) =>
        if rest.isEmpty && !throughLast then .ok next
        else
          let target := Path.ofText target
          follow (if target.isAbsolute then [] else place) (target.parts ++ rest)
      | none => if rest.isEmpty then .ok next else .error .missing

def walkLinks (t : FileTree) (throughLast : Bool) : Nat → Place → List String → Except FileError Place
  | 0 => walkNames t throughLast fun _ _ => .error .tooManyLinks
  | n + 1 => walkNames t throughLast (walkLinks t throughLast n)

/-- **The place a path leads to**; nothing need stand there, but the directory above it does. -/
def walk (t : FileTree) (throughLast : Bool) (path : Path) : Except FileError Place :=
  if path.text.toList.contains (Char.ofNat 0) then .error .notPath
  else if path.text.utf8ByteSize > longestPath then .error .nameTooLong
  else walkLinks t throughLast 40 (if path.isAbsolute then [] else t.home) path.parts

def readText (t : FileTree) (path : Path) : Except FileError String :=
  match t.walk true path with
  | .error e => .error e
  | .ok place =>
    match t.entry? place with
    | some (.file text) => .ok text
    | some .directory => .error .isDirectory
    | _ => .error .missing

def kindOf (t : FileTree) (path : Path) : Except FileError Kind :=
  match t.walk true path with
  | .error e => .error e
  | .ok place =>
    match t.entry? place with
    | some (.file _) => .ok .file
    | some .directory => .ok .directory
    | _ => .error .missing

/-- Removes the directory that a path leads to: first what is in it, then the directory under its path.  The directory stays if
the path has no name of its own at the end, for it is in use then, or if the way led through what is gone. -/
def removeTree (t : FileTree) (path : Path) : Except FileError Unit × FileTree :=
  match t.walk false path with
  | .error e => (.error e, t)
  | .ok place =>
    match t.entry? place with
    | some .directory =>
      -- the walk ends at the directory itself or comes up to it: it is in use, but what is inside is gone
      if path.parts.isEmpty || path.parts.getLast? = some ".." then (.error .notRemovable, t.clear place)
      else
        match (t.clear place).walk false path with
        | .error e => (.error e, t.clear place)
        | .ok _ => (.ok (), t.remove place)
    | some (.file _) => (.error .notDirectory, t)
    | some (.link _) => (.error .notRemovable, t)
    | none => (.error .missing, t)

def makeDirectory (t : FileTree) (path : Path) : Except FileError Unit × FileTree :=
  match t.walk false path with
  | .error e => (.error e, t)
  | .ok place => if (t.entry? place).isSome then (.error .occupied, t) else (.ok (), t.put place .directory)

def writeText (t : FileTree) (path : Path) (text : String) : Except FileError Unit × FileTree :=
  match t.walk true path with
  | .error e => (.error e, t)
  | .ok place =>
    match t.entry? place with
    | some .directory => (.error .isDirectory, t)
    | _ => (.ok (), t.put place (.file text))

/-- An operation on a tree as a step of a run in memory. -/
def through {α : Type} (operation : FileTree → α × FileTree) : StateM FileTree α := operation

instance : FileSystem (StateM FileTree) where
  readText path := through fun t => (t.readText path, t)
  kindOf path := through fun t => (t.kindOf path, t)
  removeTree path := through fun t => t.removeTree path
  makeDirectory path := through fun t => t.makeDirectory path
  writeText path text := through fun t => t.writeText path text

/-- The tree with a directory at a place and at those on the way to it, where nothing stands yet. -/
def putDirectories (t : FileTree) (place : Place) : FileTree :=
  (List.range place.length).foldl (fun t n =>
    let p := place.take (n + 1)
    if (t.entry? p).isSome then t else t.put p .directory) t

/-- The tree with an entry under the working directory and the directories on the way to it. -/
def putHome (t : FileTree) (path : String) (entry : Entry) : FileTree :=
  let place := t.home ++ (Path.ofText path).parts
  (t.putDirectories place.dropLast).put place entry

def ofEntries (home : String) (entries : List (String × Entry)) : FileTree :=
  entries.foldl (fun t (path, entry) => t.putHome path entry) (putDirectories ⟨[home], []⟩ [home])

/-- **The files below the working directory** with their texts, sorted by path.  A link to a file counts as a file; a link
to a directory is not entered. -/
def files (t : FileTree) : List (String × String) :=
  let found := t.entries.filterMap fun (place, _) =>
    if t.home.isPrefixOf place && place.length > t.home.length then
      let name := "/".intercalate (place.drop t.home.length)
      match t.readText ⟨1, place⟩ with
      | .ok text => some (name, text)
      | .error _ => none
    else none
  found.mergeSort fun a b => a.1 ≤ b.1

end FileTree
end Files
end TypedClient
