import TypedClient.Text.Half
/-!
# Quoted — string literals in double quotes

A literal stands between double quotes.  The quote, the backslash and the control characters below U+0020 are escaped,
all other characters stand for themselves, so that a literal holds no line feed and ends at its first bare quote.  A second
form keeps to printable ASCII and escapes everything else.
-/
namespace TypedClient
namespace Text

def hexDigit (n : Nat) : Char :=
  if n < 10 then Char.ofNat (48 + n) else Char.ofNat (87 + n)

/-- The last `width` hexadecimal digits of a number. -/
def hexDigits (width n : Nat) : List Char :=
  match width with
  | 0 => []
  | width + 1 => hexDigits width (n / 16) ++ [hexDigit (n % 16)]

def escapeQuoted (c : Char) : List Char :=
  if c = '"' then ['\\', '"']
  else if c = '\\' then ['\\', '\\']
  else if c = '\n' then ['\\', 'n']
  else if c = '\r' then ['\\', 'r']
  else if c = '\t' then ['\\', 't']
  else if c.toNat = 8 then ['\\', 'b']
  else if c.toNat = 12 then ['\\', 'f']
  else if c.toNat < 32 then '\\' :: 'u' :: hexDigits 4 c.toNat
  else [c]

/-- What stands behind the backslash for the characters that have an escape of two characters. -/
def shortEscapes : List (Char × Char) :=
  [('"', '"'), ('\\', '\\'), ('\n', 'n'), ('\r', 'r'), ('\t', 't'), ('\x08', 'b'), ('\x0c', 'f')]

/-- **The three ways in which a character is written**: as itself, by an escape of two characters, or by its number. -/
theorem escapeQuoted_cases (c : Char) :
    (escapeQuoted c = [c] ∧ 32 ≤ c.toNat ∧ c ≠ '"' ∧ c ≠ '\\') ∨
    (∃ x, escapeQuoted c = ['\\', x] ∧ (c, x) ∈ shortEscapes) ∨
    (escapeQuoted c = '\\' :: 'u' :: hexDigits 4 c.toNat ∧ c.toNat < 32) := by
  have hshort : ∀ d x, (d, x) ∈ shortEscapes → c = d →
      ∃ y, (['\\', x] : List Char) = ['\\', y] ∧ (c, y) ∈ shortEscapes := by
    rintro d x h rfl
    exact ⟨x, rfl, h⟩
  have hnumber : ∀ n, c.toNat = n → c = Char.ofNat n := by
    rintro n rfl
    exact (Char.ofNat_toNat c).symm
  unfold escapeQuoted
  split
  · rename_i h
    exact .inr (.inl (hshort _ _ (by decide) h))
  rename_i hquote
  split
  · rename_i h
    exact .inr (.inl (hshort _ _ (by decide) h))
  rename_i hback
  split
  · rename_i h
    exact .inr (.inl (hshort _ _ (by decide) h))
  split
  · rename_i h
    exact .inr (.inl (hshort _ _ (by decide) h))
  split
  · rename_i h
    exact .inr (.inl (hshort _ _ (by decide) h))
  split
  · rename_i h
    exact .inr (.inl (hshort _ _ (by decide) (hnumber 8 h)))
  split
  · rename_i h
    exact .inr (.inl (hshort _ _ (by decide) (hnumber 12 h)))
  split
  · rename_i h
    exact .inr (.inr ⟨rfl, h⟩)
  · rename_i h
    exact .inl ⟨rfl, Nat.le_of_not_lt h, hquote, hback⟩

def quote (text : String) : String :=
  String.ofList ('"' :: (text.toList.flatMap escapeQuoted ++ ['"']))

/-- A character as escapes of its 16-bit units: two of them beyond U+FFFF, but one for a half. -/
def escapeUnits (c : Char) : List Char :=
  let n := (halfCode? c).getD c.toNat
  if n < 0x10000 then '\\' :: 'u' :: hexDigits 4 n
  else
    '\\' :: 'u' :: (hexDigits 4 (0xD800 + (n - 0x10000) / 0x400) ++
      '\\' :: 'u' :: hexDigits 4 (0xDC00 + (n - 0x10000) % 0x400))

def escapeAscii (c : Char) : List Char :=
  if c.toNat < 0x7F then escapeQuoted c else escapeUnits c

def quoteAscii (text : String) : String :=
  String.ofList ('"' :: (text.toList.flatMap escapeAscii ++ ['"']))

end Text
end TypedClient
