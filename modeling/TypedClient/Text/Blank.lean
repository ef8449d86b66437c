/-!
# Blank — white space, trimming and lines

White space is Unicode's property of that name and the four separators U+001C to U+001F.  A text is cut into lines at ten
characters and at the pair CR LF, which is one line end; a line end at the very end starts no further line.
-/
namespace TypedClient
namespace Text

def isBlank (c : Char) : Bool :=
  let n := c.toNat
  (9 ≤ n && n ≤ 13) || (28 ≤ n && n ≤ 32) || n == 0x85 || n == 0xA0 || n == 0x1680 || (0x2000 ≤ n && n ≤ 0x200A) ||
    n == 0x2028 || n == 0x2029 || n == 0x202F || n == 0x205F || n == 0x3000

/-- The list without what satisfies `p` at its end. -/
def dropTail (p : Char → Bool) (cs : List Char) : List Char :=
  (cs.reverse.dropWhile p).reverse

/-- The list without what satisfies `p` at either end. -/
def dropEnds (p : Char → Bool) (cs : List Char) : List Char :=
  dropTail p (cs.dropWhile p)

def trim (text : String) : String :=
  String.ofList (dropEnds isBlank text.toList)

def isLineEnd (c : Char) : Bool :=
  let n := c.toNat
  (10 ≤ n && n ≤ 13) || (28 ≤ n && n ≤ 30) || n == 0x85 || n == 0x2028 || n == 0x2029

def lines : List Char → List (List Char)
  | [] => []
  | '\r' :: '\n' :: rest => [] :: lines rest
  | c :: rest =>
    if isLineEnd c then [] :: lines rest else
    match lines rest with
    | [] => [[c]]
    | line :: more => (c :: line) :: more

def startsWith (text start : String) : Bool :=
  start.toList.isPrefixOf text.toList

def endsWith (text tail : String) : Bool :=
  tail.toList.isSuffixOf text.toList

def dropFirst (n : Nat) (text : String) : String :=
  String.ofList (text.toList.drop n)

/-- The parts of a list between the elements that satisfy `p`; always at least one. -/
def splitBy (p : Char → Bool) : List Char → List (List Char)
  | [] => [[]]
  | c :: rest =>
    if p c then [] :: splitBy p rest else
    match splitBy p rest with
    | [] => [[c]]
    | part :: more => (c :: part) :: more

def splitAt (mark : Char) (text : String) : List String :=
  (splitBy (· == mark) text.toList).map String.ofList

/-- What follows the last occurrence of the character, the whole text if there is none. -/
def afterLast (mark : Char) (text : String) : String :=
  (splitAt mark text).getLastD text

/-- What precedes the first occurrence of the character, the whole text if there is none. -/
def beforeFirst (mark : Char) (text : String) : String :=
  String.ofList (text.toList.takeWhile (· != mark))

end Text
end TypedClient
