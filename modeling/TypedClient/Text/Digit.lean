import TypedClient.Text.Blank
/-!
# Digit — decimal digits of every script, and whole numbers read from text

Every script has its ten digits in a row, so that the zeros determine all of them.  Beside these stand digit forms
(superscripts, circled digits) that look like numbers but carry no decimal value: a text of them is a numeral that cannot
be read.
-/
namespace TypedClient
namespace Text

/-- The code points of the zeros of all scripts, as of Unicode 15. -/
def digitZeros : List Nat :=
  [48, 1632, 1776, 1984, 2406, 2534, 2662, 2790, 2918, 3046, 3174, 3302, 3430, 3558, 3664, 3792, 3872, 4160, 4240,
   6112, 6160, 6470, 6608, 6784, 6800, 6992, 7088, 7232, 7248, 42528, 43216, 43264, 43472, 43504, 43600, 44016, 65296,
   66720, 68912, 69734, 69872, 69942, 70096, 70384, 70736, 70864, 71248, 71360, 71472, 71904, 72016, 72784, 73040,
   73120, 73552, 92768, 92864, 93008, 120782, 120792, 120802, 120812, 120822, 123200, 123632, 124144, 125264, 130032]

/-- The runs of digit forms without a decimal value, both ends included. -/
def digitFormRuns : List (Nat × Nat) :=
  [(178, 179), (185, 185), (4969, 4977), (6618, 6618), (8304, 8304), (8308, 8313), (8320, 8329), (9312, 9320),
   (9332, 9340), (9352, 9360), (9450, 9450), (9461, 9469), (9471, 9471), (10102, 10110), (10112, 10120),
   (10122, 10130), (68160, 68163), (69216, 69224), (69714, 69722), (127232, 127242)]

def digitValue? (c : Char) : Option Nat :=
  (digitZeros.find? fun z => z ≤ c.toNat && c.toNat ≤ z + 9).map (c.toNat - ·)

/-- Whether the character is a decimal digit or a digit form. -/
def isDigit (c : Char) : Bool :=
  (digitValue? c).isSome || digitFormRuns.any fun (low, high) => low ≤ c.toNat && c.toNat ≤ high

def isNumeral (text : String) : Bool :=
  !text.isEmpty && text.toList.all isDigit

/-- The values of digits that may be parted by single underscores. -/
def digits? : List Char → Option (List Nat)
  | [] => none
  | [c] => (digitValue? c).map ([·])
  | c :: '_' :: rest =>
    match digitValue? c, digits? rest with
    | some d, some ds => some (d :: ds)
    | _, _ => none
  | c :: rest =>
    match digitValue? c, digits? rest with
    | some d, some ds => some (d :: ds)
    | _, _ => none

/-- The number that digits of the base spell, the most significant one first. -/
def ofDigits (base : Nat) (ds : List Nat) : Nat :=
  ds.foldl (fun n d => base * n + d) 0

/-- The most digits a whole number is read and written with. -/
def digitLimit : Nat := 4300

/-- The text of a whole number; `none` if it has more digits than are read and written. -/
def intText? (i : Int) : Option String :=
  if (Nat.repr i.natAbs).length ≤ digitLimit then some (toString i) else none

/-- White space that may stand around a number: all but the separators U+001C to U+001F. -/
def isNumberMargin (c : Char) : Bool :=
  isBlank c && !(28 ≤ c.toNat && c.toNat ≤ 31)

/-- Reads digits without a sign, at most `digitLimit` of them. -/
def readNat? (cs : List Char) : Option Nat :=
  match digits? cs with
  | some ds => if ds.length ≤ digitLimit then some (ofDigits 10 ds) else none
  | none => none

/-- **The whole number a text spells**: digits of any script with single underscores between them, behind an optional
sign, with white space around. -/
def readInt? (text : String) : Option Int :=
  match dropEnds isNumberMargin text.toList with
  | '+' :: cs => (readNat? cs).map Int.ofNat
  | '-' :: cs => (readNat? cs).map (- Int.ofNat ·)
  | cs => (readNat? cs).map Int.ofNat

end Text
end TypedClient
