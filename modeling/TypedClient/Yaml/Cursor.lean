/-!
# Cursor — a place in a YAML text

A cursor is what is left to read, with the number of characters read and the line and column reached.  Reading past the end
gives the null character, which no text may hold.
-/
namespace TypedClient
namespace Yaml

inductive Fault where
  /-- The text breaks the rules of YAML, or asks for a kind of value that is not known. -/
  | malformed
  /-- An escape names a code point beyond Unicode. -/
  | codePoint (code : Nat)
  /-- A scalar spells no value of the kind it is tagged with. -/
  | unreadable
  /-- A scalar tagged as a truth value spells none. -/
  | notBoolean
  /-- A scalar tagged as a number is empty. -/
  | emptyNumber
  /-- A scalar tagged as a time spells none. -/
  | notTimestamp
  /-- A mapping is tagged as a time. -/
  | notScalar
  /-- A weight of a number in groups lies beyond the greatest number. -/
  | tooGreat
  /-- A key is a whole number with more digits than are written. -/
  | tooLong
  /-- A value contains itself. -/
  | endless
  /-- Too many collections stand inside one another. -/
  | tooDeep
  deriving DecidableEq

def isBreak (c : Char) : Bool :=
  c == '\r' || c == '\n' || c.toNat == 0x85 || c.toNat == 0x2028 || c.toNat == 0x2029

def isBreakOrEnd (c : Char) : Bool :=
  isBreak c || c.toNat == 0

def isSpaceOrEnd (c : Char) : Bool :=
  c == ' ' || isBreakOrEnd c

def isBlankOrEnd (c : Char) : Bool :=
  c == '\t' || isSpaceOrEnd c

/-- Whether the character may stand in the name of an anchor, a tag handle or a directive. -/
def isNameChar (c : Char) : Bool :=
  c.isAlphanum || c == '-' || c == '_'

structure Cursor where
  rest : List Char
  index : Nat
  line : Nat
  column : Nat
  deriving Inhabited

namespace Cursor

def ofList (cs : List Char) : Cursor := ⟨cs, 0, 0, 0⟩

def ahead (c : Cursor) (n : Nat) : Char :=
  c.rest[n]?.getD (Char.ofNat 0)

def head (c : Cursor) : Char := c.ahead 0

def atEnd (c : Cursor) : Bool := c.head.toNat == 0

/-- Behind the next character.  A byte order mark takes no column. -/
def next (c : Cursor) : Cursor :=
  match c.rest with
  | [] => c
  | x :: rest =>
    if isBreak x && !(x == '\r' && rest.head? == some '\n') then ⟨rest, c.index + 1, c.line + 1, 0⟩
    else ⟨rest, c.index + 1, c.line, if x.toNat == 0xFEFF then c.column else c.column + 1⟩

def skip : Nat → Cursor → Cursor
  | 0, c => c
  | n + 1, c => skip n c.next

/-- The longest run of characters that satisfy `p`, and what is behind it. -/
def span (p : Char → Bool) (c : Cursor) : List Char × Cursor :=
  let run := c.rest.takeWhile p
  (run, c.skip run.length)

def skipWhile (p : Char → Bool) (c : Cursor) : Cursor :=
  (c.span p).2

/-- Reads a line end, if one is next: most read as a line feed, the two Unicode separators as themselves. -/
def lineBreak (c : Cursor) : List Char × Cursor :=
  let x := c.head
  if x == '\r' && c.ahead 1 == '\n' then (['\n'], c.skip 2)
  else if x == '\r' || x == '\n' || x.toNat == 0x85 then (['\n'], c.next)
  else if isBreak x then ([x], c.next)
  else ([], c)

def atSeparator (mark : Char) (c : Cursor) : Bool :=
  c.head == mark && c.ahead 1 == mark && c.ahead 2 == mark && isBlankOrEnd (c.ahead 3)

def atAnySeparator (c : Cursor) : Bool :=
  c.atSeparator '-' || c.atSeparator '.'

def skipComment (c : Cursor) : Cursor :=
  if c.head == '#' then c.skipWhile (!isBreakOrEnd ·) else c

/-- Behind the rest of a line that may hold nothing but spaces and a comment. -/
def skipEmptyLine (c : Cursor) : Except Fault Cursor :=
  let c := (c.skipWhile (· == ' ')).skipComment
  if isBreakOrEnd c.head then .ok c.lineBreak.2 else .error .malformed

end Cursor
end Yaml
end TypedClient
