import TypedClient.Yaml.Tag
import TypedClient.Yaml.Time
/-!
# Looks — what plain text looks like

A scalar without a tag of its own is what its text looks like: a truth value, a number, a time, nothing, or text.  A line feed at
its end does not count.
-/
namespace TypedClient
namespace Yaml
namespace Scalar

def isDigitOr_ (c : Char) : Bool := c.isDigit || c == '_'

def isDigits : List Char → Bool
  | [] => false
  | c :: rest => c.isDigit && rest.all isDigitOr_

def dropSign : List Char → List Char
  | '+' :: rest => rest
  | '-' :: rest => rest
  | cs => cs

/-- Whether the part is one digit, or two below sixty. -/
def isSixtieth : List Char → Bool
  | [c] => c.isDigit
  | [c, d] => '0' ≤ c && c ≤ '5' && d.isDigit
  | _ => false

def booleanWords : List String :=
  ["yes", "Yes", "YES", "no", "No", "NO", "true", "True", "TRUE", "false", "False", "FALSE", "on", "On", "ON", "off",
   "Off", "OFF"]

/-- Whether the list is an exponent: `e`, a sign and digits, or nothing. -/
def isExponent : List Char → Bool
  | [] => true
  | e :: sign :: d :: rest =>
    (e == 'e' || e == 'E') && (sign == '+' || sign == '-') && d.isDigit && rest.all Char.isDigit
  | _ => false

def dropDigits (cs : List Char) : List Char := cs.dropWhile isDigitOr_

def looksFloat (cs : List Char) : Bool :=
  let body := dropSign cs
  let signed := body.length != cs.length
  let whole := body.takeWhile (· != '.')
  match body.dropWhile (· != '.') with
  | _ :: fraction =>
    let tail := dropDigits fraction
    let groups := Text.splitBy (· == ':') whole
    (isDigits whole && isExponent tail) ||
    (!signed && whole.isEmpty && isDigits (fraction.takeWhile isDigitOr_) && isExponent tail) ||
    (groups.length > 1 && isDigits (groups.headD []) && groups.tail.all isSixtieth && tail.isEmpty) ||
    (whole.isEmpty && [['i', 'n', 'f'], ['I', 'n', 'f'], ['I', 'N', 'F']].contains fraction) ||
    (!signed && whole.isEmpty && [['n', 'a', 'n'], ['N', 'a', 'N'], ['N', 'A', 'N']].contains fraction)
  | [] => false

/-- Whether the text looks like a whole number: binary, octal, decimal, hexadecimal, or in groups to base sixty. -/
def looksInt (cs : List Char) : Bool :=
  match dropSign cs with
  | ['0'] => true
  | '0' :: 'b' :: rest => !rest.isEmpty && rest.all fun c => c == '0' || c == '1' || c == '_'
  | '0' :: 'x' :: rest =>
    !rest.isEmpty && rest.all fun c => c.isDigit || ('a' ≤ c && c ≤ 'f') || ('A' ≤ c && c ≤ 'F') || c == '_'
  | '0' :: rest => !rest.isEmpty && rest.all fun c => ('0' ≤ c && c ≤ '7') || c == '_'
  | body =>
    match Text.splitBy (· == ':') body with
    | [] => false
    | first :: groups => isDigits first && groups.all isSixtieth

/-- Whether the text looks like a time; a day alone has two digits for month and day. -/
def looksTimestamp (cs : List Char) : Bool :=
  match WrittenTime.ofList? cs with
  | some t => t.clock.isSome || t.padded
  | none => false

def dropFeed (cs : List Char) : List Char :=
  if cs.getLast? == some '\n' then cs.dropLast else cs

/-- **The kind of value that a text looks like.** -/
def looks (text : String) : Tag :=
  match text.toList with
  | [] => .null
  | all =>
    let cs := dropFeed all
    let word := String.ofList cs
    if cs.isEmpty then .str
    else if booleanWords.contains word then .bool
    else if looksFloat cs then .float
    else if looksInt cs then .int
    else if word == "<<" then .merge
    else if ["~", "null", "Null", "NULL"].contains word then .null
    else if looksTimestamp cs then .timestamp
    else if word == "=" then .value
    else .str

end Scalar
end Yaml
end TypedClient
