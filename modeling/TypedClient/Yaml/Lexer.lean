import TypedClient.Yaml.Lexeme
/-!
# Lexer — the tokens of a YAML text

The indentation of a line opens and closes block collections.  A key of a mapping is known as one only when its colon is
met: every word that may be a key is remembered for each level of brackets, and the tokens for the key, and for the mapping
it may begin, are put in front of it when the colon comes.  Such a key stands on one line and is not longer than 1024
characters.
-/
namespace TypedClient
namespace Yaml

/-- A word that may turn out to be a key: how many tokens precede it, whether it has to be a key, and where it stands. -/
structure KeyMark where
  number : Nat
  required : Bool
  index : Nat
  line : Nat
  column : Nat

/-- How far a text is read.  The tokens are listed from the latest to the first. -/
structure Lexer where
  cursor : Cursor
  /-- The number of open brackets and braces; none in a block. -/
  flow : Nat
  /-- The column of the innermost open block, −1 outside of all. -/
  indent : Int
  outer : List Int
  /-- Whether a key may start here. -/
  keyAllowed : Bool
  marks : List (Nat × KeyMark)
  tokens : List Token

namespace Lexer

abbrev Step := Lexer → Except Fault Lexer

def start (cs : List Char) : Lexer :=
  ⟨.ofList cs, 0, -1, [], true, [], []⟩

def push (t : Token) (s : Lexer) : Lexer :=
  { s with tokens := t :: s.tokens }

/-- Puts a token behind the first `number` tokens. -/
def insertAt (number : Nat) (t : Token) (s : Lexer) : Lexer :=
  { s with tokens := s.tokens.insertIdx (s.tokens.length - number) t }

/-! ## Possible keys -/

/-- Whether a possible key is too far back. -/
def isStale (s : Lexer) (m : KeyMark) : Bool :=
  m.line != s.cursor.line || s.cursor.index - m.index > 1024

/-- Forgets the possible keys that are too far back; a required one among them is a fault. -/
def dropStale : Step := fun s =>
  if s.marks.any fun (_, m) => s.isStale m && m.required then .error .malformed
  else .ok { s with marks := s.marks.filter fun (_, m) => !s.isStale m }

/-- Forgets the possible key of the present level; a required one is a fault. -/
def dropMark : Step := fun s =>
  match s.marks.lookup s.flow with
  | some m =>
    if m.required then .error .malformed else .ok { s with marks := s.marks.filter fun (level, _) => level != s.flow }
  | none => .ok s

/-- Remembers that the next word may be a key. -/
def saveMark : Step := fun s =>
  if s.keyAllowed then do
    let s ← s.dropMark
    let c := s.cursor
    let required := s.flow == 0 && s.indent == c.column
    return { s with marks := (s.flow, ⟨s.tokens.length, required, c.index, c.line, c.column⟩) :: s.marks }
  else .ok s

/-! ## Indentation -/

/-- The block ends for the open blocks beyond a column, and what is open then. -/
def closeBlocks (column : Int) : Int → List Int → List Token → Int × List Int × List Token
  | indent, [], tokens => (indent, [], tokens)
  | indent, next :: outer, tokens =>
    if column < indent then closeBlocks column next outer (.blockEnd :: tokens) else (indent, next :: outer, tokens)

def unwind (column : Int) (s : Lexer) : Lexer :=
  if s.flow != 0 then s else
  let (indent, outer, tokens) := closeBlocks column s.indent s.outer s.tokens
  { s with indent, outer, tokens }

def openBlock (column : Nat) (s : Lexer) : Option Lexer :=
  if s.indent < column then some { s with indent := column, outer := s.indent :: s.outer } else none

/-- Opens a block at a column if need be, with its token. -/
def openWith (t : Token) (s : Lexer) : Lexer :=
  match s.openBlock s.cursor.column with
  | some opened => opened.push t
  | none => s

/-! ## Words -/

def skip (n : Nat) (s : Lexer) : Lexer :=
  { s with cursor := s.cursor.skip n }

def mark (t : Token) (s : Lexer) : Lexer :=
  (s.push t).skip 1

/-- Says whether a key may start behind this. -/
def allow (keys : Bool) (s : Lexer) : Lexer :=
  { s with keyAllowed := keys }

/-- Reads what separates documents: all blocks end, and no key may follow. -/
def separator (t : Token) (length : Nat) : Step := fun s => do
  let s ← (s.unwind (-1)).dropMark
  return ((s.allow false).push t).skip length

def directive : Step := fun s => do
  let s ← (s.unwind (-1)).dropMark
  let (d, c) ← Lexeme.directive s.cursor
  return { (s.allow false).push (.directive d) with cursor := c }

def finish : Step := fun s => do
  let s ← (s.unwind (-1)).dropMark
  return (s.allow false).push .streamEnd

def openFlow (t : Token) : Step := fun s => do
  let s ← s.saveMark
  return ({ s with flow := s.flow + 1 }.allow true).mark t

def closeFlow (t : Token) : Step := fun s => do
  let s ← s.dropMark
  return ({ s with flow := s.flow - 1 }.allow false).mark t

def flowEntry : Step := fun s => do
  let s ← (s.allow true).dropMark
  return s.mark .flowEntry

def blockEntry : Step := fun s => do
  if s.flow == 0 && !s.keyAllowed then .error .malformed
  let s := if s.flow == 0 then s.openWith .blockSequenceStart else s
  let s ← (s.allow true).dropMark
  return s.mark .blockEntry

def explicitKey : Step := fun s => do
  if s.flow == 0 && !s.keyAllowed then .error .malformed
  let s := if s.flow == 0 then s.openWith .blockMappingStart else s
  let s ← (s.allow (s.flow == 0)).dropMark
  return s.mark .key

/-- Reads the colon of a value.  If a possible key precedes it, that is a key now. -/
def value : Step := fun s =>
  match s.marks.lookup s.flow with
  | some m =>
    let s := { s with marks := s.marks.filter fun (level, _) => level != s.flow }.insertAt m.number .key
    let s :=
      if s.flow != 0 then s else
      match s.openBlock m.column with
      | some opened => opened.insertAt m.number .blockMappingStart
      | none => s
    .ok ((s.allow false).mark .value)
  | none => do
    if s.flow == 0 && !s.keyAllowed then .error .malformed
    let s := if s.flow == 0 then s.openWith .blockMappingStart else s
    let s ← (s.allow (s.flow == 0)).dropMark
    return s.mark .value

def word (read : Cursor → Except Fault (Token × Cursor)) : Step := fun s => do
  let s ← s.saveMark
  let (t, c) ← read s.cursor
  return { (s.allow false).push t with cursor := c }

def blockScalar (folded : Bool) : Step := fun s => do
  let s ← (s.allow true).dropMark
  let (text, c) ← Lexeme.block folded s.indent s.cursor
  return { s.push (.scalar text false) with cursor := c }

/-- Reads a plain scalar.  A key may follow if it ended on another line. -/
def plain : Step := fun s => do
  let s ← s.saveMark
  let p := Lexeme.plain (s.flow != 0) s.indent s.cursor
  return { (s.allow p.crossed).push (.scalar (String.ofList p.text) true) with cursor := p.cursor }

/-- Goes on to the next word, over spaces, comments and line ends. -/
def toNextWord : Nat → Lexer → Lexer
  | 0, s => s
  | fuel + 1, s =>
    let c := (s.cursor.skipWhile (· == ' ')).skipComment
    if isBreak c.head then toNextWord fuel { s with cursor := c.lineBreak.2, keyAllowed := s.keyAllowed || s.flow == 0 }
    else { s with cursor := c }

/-- Whether a plain scalar may start with `x` before `after`. -/
def startsPlain (inFlow : Bool) (x after : Char) : Bool :=
  !(isBlankOrEnd x || "-?:,[]\x7b\x7d#&*!|>'\"%@\x60".toList.contains x) ||
    (!isBlankOrEnd after && (x == '-' || (!inFlow && (x == '?' || x == ':'))))

def readWord : Step := fun s =>
  let c := s.cursor
  let x := c.head
  let after := c.ahead 1
  let inFlow := s.flow != 0
  if x == '%' && c.column == 0 then s.directive
  else if x == '-' && c.column == 0 && c.atSeparator '-' then s.separator .documentStart 3
  else if x == '.' && c.column == 0 && c.atSeparator '.' then s.separator .documentEnd 3
  else if x == '[' then s.openFlow .flowSequenceStart
  else if x == '{' then s.openFlow .flowMappingStart
  else if x == ']' then s.closeFlow .flowSequenceEnd
  else if x == '}' then s.closeFlow .flowMappingEnd
  else if x == ',' then s.flowEntry
  else if x == '-' && isBlankOrEnd after then s.blockEntry
  else if x == '?' && (inFlow || isBlankOrEnd after) then s.explicitKey
  else if x == ':' && (inFlow || isBlankOrEnd after) then s.value
  else if x == '*' then s.word fun c => (Lexeme.name c).map fun (n, c) => (.reference n, c)
  else if x == '&' then s.word fun c => (Lexeme.name c).map fun (n, c) => (.anchor n, c)
  else if x == '!' then s.word Lexeme.tag
  else if x == '|' && !inFlow then s.blockScalar false
  else if x == '>' && !inFlow then s.blockScalar true
  else if x == '\'' then s.word fun c => (Lexeme.quoted false c).map fun (t, c) => (.scalar t false, c)
  else if x == '"' then s.word fun c => (Lexeme.quoted true c).map fun (t, c) => (.scalar t false, c)
  else if startsPlain inFlow x after then s.plain
  else .error .malformed

/-- The tokens up to a fault in the next word.  A word is read only when it is asked for, but what may be a key is held back until
that is known; so the fault comes in place of the first possible key that is not too far back. -/
def stop (f : Fault) (s : Lexer) : List Token :=
  let numbers := s.marks.filterMap fun (_, m) => if s.isStale m then none else some m.number
  s.tokens.reverse.take (numbers.foldl min s.tokens.length) ++ [.fault f]

def step : Step := fun s =>
  match (toNextWord (s.cursor.rest.length + 1) s).dropStale with
  | .error e => .error e
  | .ok s =>
    let s := s.unwind s.cursor.column
    if s.cursor.atEnd then s.finish else s.readWord

/-- **All tokens of a text.**  Every word takes at least one character, so that as many steps as characters are enough.  A
fault ends the tokens. -/
def run : Nat → Lexer → List Token
  | 0, s => s.tokens.reverse
  | fuel + 1, s =>
    match s.step with
    | .error f => s.stop f
    | .ok next => if next.tokens.head? = some .streamEnd then next.tokens.reverse else run fuel next

end Lexer

def isAllowed (c : Char) : Bool :=
  let n := c.toNat
  n == 9 || n == 10 || n == 13 || (0x20 ≤ n && n ≤ 0x7E) || n == 0x85 || (0xA0 ≤ n && n ≤ 0xFFFD) || 0x10000 ≤ n

/-- A text is checked in portions, the first of 8192 characters and the others of 4096.  The beginning of the portion that a
character belongs to. -/
def portionStart (index : Nat) : Nat :=
  if index < 8192 then 0 else index / 4096 * 4096

/-- The tokens of characters that are all allowed.  A byte order mark in front counts for nothing. -/
def Token.ofList (cs : List Char) : List Token :=
  let s := Lexer.start cs
  let s := if s.cursor.head.toNat == 0xFEFF then s.skip 1 else s
  s.run (cs.length + 2)

/-- **The tokens of a text.**  A character that is not allowed spoils its whole portion and everything behind, but what is wrong
in front of that is told first. -/
def Token.ofText (text : String) : List Token :=
  let cs := text.toList
  match cs.findIdx? (!isAllowed ·) with
  | none => Token.ofList cs
  | some index =>
    let tokens := Token.ofList (cs.take (portionStart index))
    match tokens.getLast? with
    | some (.fault f) => if f = .malformed then [.fault .malformed] else tokens
    | _ => [.fault .malformed]

end Yaml
end TypedClient
