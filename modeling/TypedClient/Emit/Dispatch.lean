import TypedClient.Schema.Path
import TypedClient.Text.Digit
import TypedClient.Text.Quoted
/-!
# Dispatch — which response an unwrapping applies to

A response is declared under an exact status code, a range such as `2XX`, or anything else, which is the rest.  An exact
code is more specific than its range, and a range more specific than the rest; so an unwrapping under a less specific key
excludes the more specific ones that are declared beside it.  The test of an unwrapping is a conjunction of clauses over
the status and the media type of a response.
-/
namespace TypedClient
namespace Emit

/-- How the body of one declared response is unwrapped. -/
structure Unwrapping where
  statusCode : String
  contentType : String
  propertyPath : String
  steps : List Schema.Step
  shadowed : List String
  deriving DecidableEq, Inhabited

/-- The leading digit of a range of status codes, `none` for any other text.  A single line feed may follow. -/
def rangeDigit? (code : String) : Option Char :=
  let digit? (d x y : Char) : Option Char :=
    if '1' ≤ d && d ≤ '5' && x.toUpper == 'X' && y.toUpper == 'X' then some d else none
  match code.toList with
  | [d, x, y] => digit? d x y
  | [d, x, y, '\n'] => digit? d x y
  | _ => none

/-- How specific a status key is: exact codes come first, then ranges, then the rest. -/
def statusRank (code : String) : Nat :=
  if Text.isNumeral code then 0 else if (rangeDigit? code).isSome then 1 else 2

/-- The declared codes that a response under `code` must not take over. -/
def shadowedBy (code : String) (declared : List String) : List String :=
  match statusRank code with
  | 0 => []
  | 1 =>
    match rangeDigit? code with
    | some d => declared.filter fun other => statusRank other == 0 && other.toList.head? == some d
    | none => []
  | _ => declared.filter fun other => other != code && statusRank other < 2

inductive Clause where
  /-- The status is the number, or is not. -/
  | status (wanted : Bool) (code : Int)
  /-- The status has the leading digit, or has not. -/
  | family (wanted : Bool) (digit : Char)
  /-- The media type is the text. -/
  | media (contentType : String)
  deriving DecidableEq

/-- A status code of digit forms that spells no number. -/
structure UnreadableStatus where
  code : String
  deriving DecidableEq

def statusClause (wanted : Bool) (code : String) : Except UnreadableStatus (List Clause) :=
  if Text.isNumeral code then
    match Text.readInt? code with
    | some n => .ok [.status wanted n]
    | none => .error ⟨code⟩
  else
    match rangeDigit? code with
    | some d => .ok [.family wanted d]
    | none => .ok []

def statusClauses (wanted : Bool) : List String → Except UnreadableStatus (List Clause)
  | [] => .ok []
  | code :: rest =>
    match statusClause wanted code with
    | .error e => .error e
    | .ok clauses => (statusClauses wanted rest).map (clauses ++ ·)

/-- **The conditions of an unwrapping**, all of which have to hold. -/
def Unwrapping.clauses (t : Unwrapping) : Except UnreadableStatus (List Clause) :=
  match statusClause true t.statusCode, statusClauses false t.shadowed with
  | .ok own, .ok others => .ok (own ++ others ++ [.media t.contentType])
  | .error e, _ | _, .error e => .error e

namespace Clause

def holds (status : Nat) (contentType : String) : Clause → Bool
  | .status wanted code => ((status : Int) == code) == wanted
  | .family wanted digit => (status / 100 + 48 == digit.toNat) == wanted
  | .media text => contentType == text

def operator (wanted : Bool) : String :=
  if wanted then " === " else " !== "

def text : Clause → String
  | .status wanted code => "res.status" ++ operator wanted ++ toString code
  | .family wanted digit => "Math.floor(res.status / 100)" ++ operator wanted ++ digit.toString
  | .media contentType => "res.contentType === " ++ Text.quote contentType

end Clause

def Unwrapping.condition (t : Unwrapping) : Except UnreadableStatus String :=
  t.clauses.map fun clauses => " && ".intercalate (clauses.map Clause.text)

end Emit
end TypedClient
