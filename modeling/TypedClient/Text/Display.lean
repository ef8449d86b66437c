import TypedClient.Text.Half
import TypedClient.Text.Printable
import TypedClient.Text.Quoted
/-!
# Display — a text as diagnostics show it

A displayed text stands in single quotes, in double quotes if it holds a single quote and no double one.  Only printable
characters show as they are; the others are escaped by their code points, in the shortest of three widths.  A string of bytes is
shown the same way behind a `b`.
-/
namespace TypedClient
namespace Text

def displayChar (mark c : Char) : List Char :=
  if c = mark || c = '\\' then ['\\', c]
  else if c = '\n' then ['\\', 'n']
  else if c = '\r' then ['\\', 'r']
  else if c = '\t' then ['\\', 't']
  else if isPrintable c then [c]
  else
    let code := (halfCode? c).getD c.toNat
    if code < 0x100 then '\\' :: 'x' :: hexDigits 2 code
    else if code < 0x10000 then '\\' :: 'u' :: hexDigits 4 code
    else '\\' :: 'U' :: hexDigits 8 code

def displayMark (cs : List Char) : Char :=
  if cs.contains '\'' && !cs.contains '"' then '"' else '\''

def display (text : String) : String :=
  let cs := text.toList
  let mark := displayMark cs
  String.ofList (mark :: (cs.flatMap (displayChar mark) ++ [mark]))

/-- How one byte is shown between the given quotes: as a character if it is one of ASCII. -/
def displayByte (mark : Char) (b : UInt8) : List Char :=
  if b.toNat < 0x7F then displayChar mark (Char.ofNat b.toNat) else '\\' :: 'x' :: hexDigits 2 b.toNat

def displayBytes (data : List UInt8) : String :=
  let mark := displayMark (data.map fun b => Char.ofNat b.toNat)
  String.ofList ('b' :: mark :: (data.flatMap (displayByte mark) ++ [mark]))

end Text
end TypedClient
