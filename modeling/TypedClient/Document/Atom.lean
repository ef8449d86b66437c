import TypedClient.Document.Calendar
import TypedClient.Number.Shortest
import TypedClient.Text.Display
import TypedClient.Text.Digit
/-!
# Atom — values without parts

Beside the scalars that every document has, there are days, moments and strings of bytes.  Numbers and truth values compare by
amount, so that `1`, `1.0` and `true` are the same; no number that is none is the same as itself.
-/
namespace TypedClient

/-- A value without parts. -/
inductive Atom where
  | null
  | bool (value : Bool)
  | int (value : Int)
  | float (value : Binary64)
  | str (value : String)
  | day (value : Day)
  | moment (value : Moment)
  | bytes (data : List UInt8)
  deriving DecidableEq, Inhabited

namespace Atom

/-- Whether a value counts as true: null, false, zero and all empty values do not. -/
def truth : Atom → Bool
  | .null => false
  | .bool b => b
  | .int i => i != 0
  | .float x => !x.isZero
  | .str s => !s.isEmpty
  | .day _ | .moment _ => true
  | .bytes data => !data.isEmpty

/-- **Whether two atoms are the same value.** -/
def same : Atom → Atom → Bool
  | .null, .null => true
  | .bool a, .bool b => a == b
  | .bool a, .int i | .int i, .bool a => i == (if a then 1 else 0)
  | .bool a, .float x | .float x, .bool a => x.eqInt (if a then 1 else 0)
  | .int i, .int j => i == j
  | .int i, .float x | .float x, .int i => x.eqInt i
  | .float x, .float y => x.eq y
  | .str s, .str t => s == t
  | .day d, .day e => d == e
  | .moment m, .moment n => m.same n
  | .bytes a, .bytes b => a == b
  | _, _ => false

/-- Whether two atoms are the same where they stand inside something: there, a number that is none is itself. -/
def alike (a b : Atom) : Bool :=
  a.same b || (a == .float .nan && b == .float .nan)

/-- The atom as diagnostics show it, strings in quotes; `none` if it has more digits than are written. -/
def shown? : Atom → Option String
  | .null => some "None"
  | .bool b => some (if b then "True" else "False")
  | .int i => Text.intText? i
  | .float x => some x.toText
  | .str s => some (Text.display s)
  | .day d => some d.shown
  | .moment m => some m.shown
  | .bytes data => some (Text.displayBytes data)

/-- The atom as text: strings, days and moments have a text of their own. -/
def text? : Atom → Option String
  | .str s => some s
  | .day d => some d.text
  | .moment m => some m.text
  | a => a.shown?

def kind : Atom → String
  | .null => "NoneType"
  | .bool _ => "bool"
  | .int _ => "int"
  | .float _ => "float"
  | .str _ => "str"
  | .day _ => "datetime.date"
  | .moment _ => "datetime.datetime"
  | .bytes _ => "bytes"

end Atom
end TypedClient
