import TypedClient.Yaml.Cursor
import TypedClient.Yaml.Looks
import TypedClient.Text.Base64
/-!
# Scalar — the values that scalars spell

A scalar is read as the kind of value it is tagged with, or not at all.
-/
namespace TypedClient
namespace Yaml
namespace Scalar

def letterValue? (c : Char) : Option Nat :=
  match Text.digitValue? c with
  | some d => some d
  | none =>
    if 'a' ≤ c && c ≤ 'z' then some (c.toNat - 87)
    else if 'A' ≤ c && c ≤ 'Z' then some (c.toNat - 55)
    else none

/-- The number that digits of a base spell; a mark of the base may stand in front. -/
def readBase? (base : Nat) (mark : Char) (cs : List Char) : Option Int :=
  let bare := Text.dropEnds Text.isNumberMargin cs
  let body := dropSign bare
  let body := match body with
    | '0' :: m :: rest => if m == mark || m == mark.toUpper then rest else body
    | _ => body
  let digits := body.map letterValue?
  if body.isEmpty || digits.any fun d => match d with
    | some d => base ≤ d
    | none => true
  then none
  else
    let n : Int := Text.ofDigits base (digits.map fun d => d.getD 0)
    some (if bare.head? == some '-' then -n else n)

def readGroups? (cs : List Char) : Option Int :=
  (Text.splitBy (· == ':') cs).foldl (fun acc part =>
    match acc, Text.readInt? (String.ofList part) with
    | some n, some d => some (60 * n + d)
    | _, _ => none) (some 0)

def readInt (text : String) : Except Fault Int :=
  let cs := text.toList.filter (· != '_')
  let found (n : Option Int) : Except Fault Int :=
    match n with
    | some n => .ok (if cs.head? == some '-' then -n else n)
    | none => .error .unreadable
  if cs.isEmpty then .error .emptyNumber else
  let body := dropSign cs
  match body with
  | ['0'] => .ok 0
  | '0' :: 'b' :: rest => found (readBase? 2 'b' rest)
  | '0' :: 'x' :: rest => found (readBase? 16 'x' rest)
  | '0' :: _ => found (readBase? 8 'o' body)
  | [] => .error .emptyNumber
  | _ => if body.contains ':' then found (readGroups? body) else found (Text.readInt? (String.ofList body))

def digitRun (cs : List Char) : Option (Nat × Nat) :=
  (cs.mapM Text.digitValue?).map fun ds => (Text.ofDigits 10 ds, ds.length)

/-- Reads an exponent: nothing, or `e`, an optional sign and digits. -/
def exponent? : List Char → Option Int
  | [] => some 0
  | _ :: rest =>
    match digitRun (dropSign rest) with
    | some (n, k) => if k = 0 then none else some (if rest.head? == some '-' then -(n : Int) else n)
    | none => none

/-- Reads a decimal number without a sign, in lower case. -/
def readDecimal? (negative : Bool) (cs : List Char) : Option Binary64 :=
  let mantissa := cs.takeWhile (· != 'e')
  let whole := mantissa.takeWhile (· != '.')
  let fraction := (mantissa.dropWhile (· != '.')).drop 1
  match digitRun (whole ++ fraction), exponent? (cs.dropWhile (· != 'e')) with
  | some (n, k), some e => if k = 0 then none else some (.ofDecimal negative n (e - fraction.length))
  | _, _ => none

def readSigned? (cs : List Char) : Option Binary64 :=
  let bare := Text.dropEnds Text.isNumberMargin cs
  let negative := bare.head? == some '-'
  match String.ofList (dropSign bare) with
  | "inf" | "infinity" => some (.infinite negative)
  | "nan" => some .nan
  | body => readDecimal? negative body.toList

/-- The number of groups to base sixty, the last one with a fraction.  The weight of every group is rounded before it counts, and
there is none beyond the greatest number. -/
def readFloatGroups (cs : List Char) : Except Fault Binary64 :=
  match (Text.splitBy (· == ':') cs).reverse.mapM readSigned? with
  | none => .error .unreadable
  | some groups =>
    let weights := (List.range groups.length).map fun k => Binary64.ofInt (Nat.pow 60 k)
    if weights.any Binary64.isInfinite then .error .tooGreat
    else .ok ((groups.zipWith Binary64.mul weights).foldl Binary64.add .zero)

def readable {α : Type} (found : Option α) : Except Fault α :=
  match found with
  | some a => .ok a
  | none => .error .unreadable

def readFloat (text : String) : Except Fault Binary64 :=
  let cs := (text.toList.filter (· != '_')).map Char.toLower
  if cs.isEmpty then .error .emptyNumber else
  let body := dropSign cs
  let sign (x : Binary64) : Binary64 := if cs.head? == some '-' then x.neg else x
  match String.ofList body with
  | ".inf" => .ok (sign (.infinite false))
  | ".nan" => .ok .nan
  | _ =>
    (if body.contains ':' then readFloatGroups body else readable (readSigned? body)).map sign

/-- Reads a truth value, in any case of letters. -/
def readBool (text : String) : Except Fault Bool :=
  match String.ofList (text.toList.map Char.toLower) with
  | "yes" | "true" | "on" => .ok true
  | "no" | "false" | "off" => .ok false
  | _ => .error .notBoolean

def readTimestamp (text : String) : Except Fault Atom :=
  match WrittenTime.ofList? (dropFeed text.toList) with
  | none => .error .notTimestamp
  | some t => readable t.atom?

def readBytes (text : String) : Except Fault Atom :=
  if text.toList.all (·.toNat < 128) then
    match Text.base64? text with
    | some data => .ok (.bytes data)
    | none => .error .malformed
  else .error .malformed

/-- **The value of a scalar of a kind.** -/
def read (tag : Tag) (text : String) : Except Fault Atom :=
  match tag with
  | .str => .ok (.str text)
  | .null => .ok .null
  | .bool => (readBool text).map .bool
  | .int => (readInt text).map .int
  | .float => (readFloat text).map .float
  | .timestamp => readTimestamp text
  | .binary => readBytes text
  | .merge | .value | .seq | .map | .set | .omap | .pairs | .unknown => .error .malformed

end Scalar
end Yaml
end TypedClient
