import TypedClient.Yaml.Token
import TypedClient.Text.Digit
import TypedClient.Text.Half
/-!
# Lexeme — single words out of a YAML text

Each reader takes a cursor at the first character of a word and gives the word and the cursor behind it.
-/
namespace TypedClient
namespace Yaml
namespace Lexeme

def hexValue? (c : Char) : Option Nat :=
  if c.isDigit then some (c.toNat - 48)
  else if 'a' ≤ c && c ≤ 'f' then some (c.toNat - 87)
  else if 'A' ≤ c && c ≤ 'F' then some (c.toNat - 55)
  else none

def hexNumber? (n : Nat) (c : Cursor) : Option Nat :=
  (List.range n).foldl (fun acc i => acc.bind fun v => (hexValue? (c.ahead i)).map (16 * v + ·)) (some 0)

/-! ## Anchors, tags and directives -/

/-- A name behind a mark, which must end where a word ends. -/
def name (c : Cursor) : Except Fault (String × Cursor) :=
  let (cs, c) := c.next.span isNameChar
  let x := c.head
  if cs.isEmpty then .error .malformed
  else if isBlankOrEnd x || "?:,]\x7d%@\x60".toList.contains x then .ok (String.ofList cs, c)
  else .error .malformed

def isTagChar (c : Char) : Bool :=
  c.isAlphanum || "-;/?:@&=+$,_.!~*'()[]".toList.contains c

def escapedBytes : Nat → Cursor → Except Fault (List UInt8 × Cursor)
  | 0, _ => .error .malformed
  | fuel + 1, c =>
    if c.head == '%' then
      match hexNumber? 2 c.next with
      | some n => (escapedBytes fuel (c.skip 3)).map fun (rest, c) => (n.toUInt8 :: rest, c)
      | none => .error .malformed
    else .ok ([], c)

/-- The characters of a tag; percent escapes stand for the bytes of its text. -/
def tagChars : Nat → Cursor → Except Fault (List Char × Cursor)
  | 0, _ => .error .malformed
  | fuel + 1, c =>
    if c.head == '%' then
      match escapedBytes (c.rest.length + 1) c with
      | .ok (bytes, c) =>
        match String.fromUTF8? ⟨bytes.toArray⟩ with
        | some text => (tagChars fuel c).map fun (rest, c) => (text.toList ++ rest, c)
        | none => .error .malformed
      | .error e => .error e
    else if isTagChar c.head then (tagChars fuel c.next).map fun (rest, d) => (c.head :: rest, d)
    else .ok ([], c)

def tagText (c : Cursor) : Except Fault (String × Cursor) :=
  match tagChars (c.rest.length + 1) c with
  | .ok ([], _) => .error .malformed
  | .ok (cs, c) => .ok (String.ofList cs, c)
  | .error e => .error e

/-- A tag handle: one exclamation mark, or a name between two. -/
def handle (c : Cursor) : Except Fault (String × Cursor) :=
  if c.head != '!' then .error .malformed
  else if c.ahead 1 == ' ' then .ok ("!", c.next)
  else
    let (cs, d) := c.next.span isNameChar
    if d.head == '!' then .ok (String.ofList ('!' :: (cs ++ ['!'])), d.next) else .error .malformed

/-- Whether a word has an exclamation mark behind its first character. -/
def hasInnerMark (c : Cursor) : Bool :=
  (c.next.rest.takeWhile (!isSpaceOrEnd ·)).contains '!'

/-- A tag: in angle brackets, a lone exclamation mark, or a suffix behind a handle. -/
def tag (c : Cursor) : Except Fault (Token × Cursor) :=
  let x := c.ahead 1
  let read : Except Fault (Token × Cursor) :=
    if x == '<' then
      match tagText (c.skip 2) with
      | .ok (text, c) => if c.head == '>' then .ok (.tag none text, c.next) else .error .malformed
      | .error e => .error e
    else if isBlankOrEnd x then .ok (.tag none "!", c.next)
    else
      match if hasInnerMark c then handle c else .ok ("!", c.next) with
      | .ok (h, c) => (tagText c).map fun (text, c) => (.tag (some h) text, c)
      | .error e => .error e
  match read with
  | .ok (t, c) => if isSpaceOrEnd c.head then .ok (t, c) else .error .malformed
  | .error e => .error e

/-- A decimal number, of at most as many digits as numbers have. -/
def number (c : Cursor) : Except Fault (Nat × Cursor) :=
  let (cs, c) := c.span Char.isDigit
  if cs.isEmpty then .error .malformed
  else if Text.digitLimit < cs.length then .error .unreadable
  else .ok (cs.foldl (fun n d => 10 * n + (d.toNat - 48)) 0, c)

def versionDirective (c : Cursor) : Except Fault (Directive × Cursor) := do
  let (major, c) ← number (c.skipWhile (· == ' '))
  if c.head != '.' then .error .malformed
  let (minor, c) ← number c.next
  if !isSpaceOrEnd c.head then .error .malformed
  return (.version major minor, c)

def handleDirective (c : Cursor) : Except Fault (Directive × Cursor) := do
  let (name, c) ← handle (c.skipWhile (· == ' '))
  if c.head != ' ' then .error .malformed
  let (expansion, c) ← tagText (c.skipWhile (· == ' '))
  if !isSpaceOrEnd c.head then .error .malformed
  return (.handle name expansion, c)

def directive (c : Cursor) : Except Fault (Directive × Cursor) := do
  let (cs, c) := c.next.span isNameChar
  if cs.isEmpty || !isSpaceOrEnd c.head then .error .malformed
  let (d, c) ←
    match String.ofList cs with
    | "YAML" => versionDirective c
    | "TAG" => handleDirective c
    | _ => .ok (.unknown, c.skipWhile (!isBreakOrEnd ·))
  return (d, ← c.skipEmptyLine)

/-! ## Block scalars -/

/-- What the head of a block scalar says about its last line ends: strip them, keep one, keep all. -/
inductive Chomp where
  | strip
  | clip
  | keep
  deriving DecidableEq

def chompMark? (c : Char) : Option Chomp :=
  if c == '+' then some .keep else if c == '-' then some .strip else none

/-- The indentation digit, if one is next; zero is none. -/
def indentMark (c : Cursor) : Except Fault (Option Nat × Cursor) :=
  if c.head == '0' then .error .malformed
  else if c.head.isDigit then .ok (some (c.head.toNat - 48), c.next)
  else .ok (none, c)

/-- The head of a block scalar: a chomping mark and an indentation digit in either order, both optional. -/
def blockHead (c : Cursor) : Except Fault (Chomp × Option Nat × Cursor) := do
  let (chomp, indent, c) ←
    match chompMark? c.head with
    | some chomp => do
      let (indent, c) ← indentMark c.next
      pure (chomp, indent, c)
    | none => do
      let (indent, c) ← indentMark c
      match indent, chompMark? c.head with
      | some _, some chomp => pure (chomp, indent, c.next)
      | _, _ => pure (Chomp.clip, indent, c)
  if isSpaceOrEnd c.head then return (chomp, indent, ← c.skipEmptyLine) else .error .malformed

def skipIndent (indent : Nat) (c : Cursor) : Cursor :=
  c.skip (min (indent - c.column) (c.rest.takeWhile (· == ' ')).length)

/-- The line ends of empty lines, and the indentation behind them. -/
def blockBreaks (indent : Nat) : Nat → Cursor → List Char × Cursor
  | 0, c => ([], c)
  | fuel + 1, c =>
    let c := skipIndent indent c
    if isBreak c.head then
      let (b, c) := c.lineBreak
      let (rest, c) := blockBreaks indent fuel c
      (b ++ rest, c)
    else ([], c)

/-- The line ends of leading empty lines, and the greatest column that spaces reach. -/
def leadingBreaks : Nat → Nat → Cursor → List Char × Nat × Cursor
  | 0, widest, c => ([], widest, c)
  | fuel + 1, widest, c =>
    if c.head == ' ' then leadingBreaks fuel (max widest c.next.column) c.next
    else if isBreak c.head then
      let (b, c) := c.lineBreak
      let (rest, widest, c) := leadingBreaks fuel widest c
      (b ++ rest, widest, c)
    else ([], widest, c)

structure BlockBody where
  text : List Char
  lastBreak : List Char
  breaks : List Char
  cursor : Cursor

/-- The lines of a block scalar, `breaks` being the line ends of empty lines in front.  In a folded one, a single line feed
between two lines that start with no blank becomes a space. -/
def blockLines (folded : Bool) (indent : Nat) : Nat → List Char → Cursor → BlockBody
  | 0, breaks, c => ⟨[], [], breaks, c⟩
  | fuel + 1, breaks, c =>
    if c.column != indent || c.atEnd then ⟨[], [], breaks, c⟩ else
    let flush := c.head != ' ' && c.head != '\t'
    let (line, c) := c.span (!isBreakOrEnd ·)
    let (lastBreak, c) := c.lineBreak
    let (after, c) := blockBreaks indent (c.rest.length + 1) c
    if c.column != indent || c.atEnd then ⟨breaks ++ line, lastBreak, after, c⟩ else
    let glue :=
      if folded && lastBreak == ['\n'] && flush && c.head != ' ' && c.head != '\t' then
        if after.isEmpty then [' '] else []
      else lastBreak
    let body := blockLines folded indent fuel after c
    { body with text := breaks ++ line ++ glue ++ body.text }

def block (folded : Bool) (outer : Int) (c : Cursor) : Except Fault (String × Cursor) := do
  let (chomp, indent?, c) ← blockHead c.next
  let least := max 1 (outer + 1).toNat
  let (breaks, indent, c) :=
    match indent? with
    | none =>
      let (breaks, widest, c) := leadingBreaks (c.rest.length + 1) 0 c
      (breaks, max least widest, c)
    | some n =>
      let indent := least + n - 1
      let (breaks, c) := blockBreaks indent (c.rest.length + 1) c
      (breaks, indent, c)
  let body := blockLines folded indent (c.rest.length + 1) breaks c
  let tail := match chomp with
    | .strip => []
    | .clip => body.lastBreak
    | .keep => body.lastBreak ++ body.breaks
  return (String.ofList (body.text ++ tail), body.cursor)

/-! ## Quoted scalars -/

def letterEscapes : List (Char × Nat) :=
  [('0', 0), ('a', 7), ('b', 8), ('t', 9), ('\t', 9), ('n', 10), ('v', 11), ('f', 12), ('r', 13), ('e', 27), (' ', 32),
   ('"', 34), ('\\', 92), ('/', 47), ('N', 0x85), ('_', 0xA0), ('L', 0x2028), ('P', 0x2029)]

def escapeWidth? (c : Char) : Option Nat :=
  if c == 'x' then some 2 else if c == 'u' then some 4 else if c == 'U' then some 8 else none

def quotedBreaks : Nat → Cursor → Except Fault (List Char × Cursor)
  | 0, _ => .error .malformed
  | fuel + 1, c =>
    if c.atAnySeparator then .error .malformed else
    let c := c.skipWhile fun x => x == ' ' || x == '\t'
    if isBreak c.head then
      let (b, c) := c.lineBreak
      (quotedBreaks fuel c).map fun (rest, c) => (b ++ rest, c)
    else .ok ([], c)

/-- The character that a numbered escape stands for.  Two halves that are escaped one after the other stay two. -/
def numbered (n : Nat) : Char :=
  if 0xD800 ≤ n && n < 0xE000 then Text.half n else Char.ofNat n

def escape (c : Cursor) : Except Fault (List Char × Cursor) :=
  match letterEscapes.lookup c.head with
  | some n => .ok ([Char.ofNat n], c.next)
  | none =>
    match escapeWidth? c.head with
    | some width =>
      match hexNumber? width c.next with
      | some n => if n < 0x110000 then .ok ([numbered n], c.skip (width + 1)) else .error (.codePoint n)
      | none => .error .malformed
    | none =>
      if isBreak c.head then quotedBreaks (c.rest.length + 1) c.lineBreak.2 else .error .malformed

/-- What the blanks inside a quoted scalar stand for: themselves within a line; at its end, a single line feed is a space,
and more are one less. -/
def quotedBlanks (c : Cursor) : Except Fault (List Char × Cursor) :=
  let (blanks, c) := c.span fun x => x == ' ' || x == '\t'
  if c.atEnd then .error .malformed
  else if isBreak c.head then
    let (b, c) := c.lineBreak
    (quotedBreaks (c.rest.length + 1) c).map fun (breaks, c) =>
      (if b != ['\n'] then b ++ breaks else if breaks.isEmpty then [' '] else breaks, c)
  else .ok (blanks, c)

def quotedChars (double : Bool) : Nat → Cursor → Except Fault (List Char × Cursor)
  | 0, _ => .error .malformed
  | fuel + 1, c =>
    let x := c.head
    let more (found : Except Fault (List Char × Cursor)) : Except Fault (List Char × Cursor) :=
      match found with
      | .ok (cs, c) => (quotedChars double fuel c).map fun (rest, c) => (cs ++ rest, c)
      | .error e => .error e
    if !double && x == '\'' && c.ahead 1 == '\'' then more (.ok (['\''], c.skip 2))
    else if (if double then x == '"' else x == '\'') then .ok ([], c)
    else if double && x == '\\' then more (escape c.next)
    else if isBlankOrEnd x then more (quotedBlanks c)
    else more (.ok ([x], c.next))

def quoted (double : Bool) (c : Cursor) : Except Fault (String × Cursor) :=
  (quotedChars double (c.rest.length + 1) c.next).map fun (cs, c) => (String.ofList cs, c.next)

/-! ## Plain scalars -/

structure PlainGap where
  /-- What the gap stands for if the scalar goes on. -/
  text : List Char
  /-- Whether the gap reaches another line. -/
  crosses : Bool
  /-- Whether a document separator ends the scalar here. -/
  separated : Bool
  cursor : Cursor

/-- The line ends of empty lines inside a plain scalar, and whether a document separator follows one of them. -/
def plainBreaks : Nat → Cursor → List Char × Bool × Cursor
  | 0, c => ([], false, c)
  | fuel + 1, c =>
    if c.head == ' ' then plainBreaks fuel c.next
    else if isBreak c.head then
      let (b, c) := c.lineBreak
      if c.atAnySeparator then (b, true, c) else
      let (rest, stop, c) := plainBreaks fuel c
      (b ++ rest, stop, c)
    else ([], false, c)

def plainGap (c : Cursor) : PlainGap :=
  let (spaces, c) := c.span (· == ' ')
  if isBreak c.head then
    let (b, c) := c.lineBreak
    if c.atAnySeparator then ⟨[], true, true, c⟩ else
    let (breaks, stop, c) := plainBreaks (c.rest.length + 1) c
    if stop then ⟨[], true, true, c⟩
    else ⟨if b != ['\n'] then b ++ breaks else if breaks.isEmpty then [' '] else breaks, true, false, c⟩
  else ⟨spaces, false, false, c⟩

/-- Whether a plain scalar ends at this character, before the next one. -/
def endsPlain (inFlow : Bool) (x after : Char) : Bool :=
  isBlankOrEnd x ||
    (x == ':' && (isBlankOrEnd after || (inFlow && ",[]\x7b\x7d".toList.contains after))) ||
    (inFlow && ",?[]\x7b\x7d".toList.contains x)

def plainRun (inFlow : Bool) : List Char → List Char
  | [] => []
  | x :: rest => if endsPlain inFlow x (rest.head?.getD (Char.ofNat 0)) then [] else x :: plainRun inFlow rest

/-- A plain scalar, as far as it was read: its text, whether its last gap reached another line, and the cursor. -/
structure Plain where
  text : List Char
  crossed : Bool
  cursor : Cursor

/-- A plain scalar from a run on, `gap` being what the gap in front of it stands for. -/
def plainFrom (inFlow : Bool) (indent : Int) : Nat → List Char → Bool → Cursor → Plain
  | 0, _, crossed, c => ⟨[], crossed, c⟩
  | fuel + 1, gap, crossed, c =>
    let run := if c.head == '#' then [] else plainRun inFlow c.rest
    if run.isEmpty then ⟨[], crossed, c⟩ else
    let g := plainGap (c.skip run.length)
    if g.separated || g.text.isEmpty || g.cursor.head == '#' || (!inFlow && (g.cursor.column : Int) < indent) then
      ⟨gap ++ run, g.crosses, g.cursor⟩
    else
      let rest := plainFrom inFlow indent fuel g.text g.crosses g.cursor
      { rest with text := gap ++ run ++ rest.text }

def plain (inFlow : Bool) (outer : Int) (c : Cursor) : Plain :=
  plainFrom inFlow (outer + 1) (c.rest.length + 1) [] false c

end Lexeme
end Yaml
end TypedClient
