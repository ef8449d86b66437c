/-!
# Half — halves of characters

An escape may name one half of a character beyond U+FFFF by itself.  No character has its code point, from U+D800 to U+DFFF:
in a text a private character stands for it, from U+10D800 to U+10DFFF.  A text that holds such a private character of its
own is not told apart from one that holds the half.
-/
namespace TypedClient
namespace Text

/-- The character that stands for the half of this code point. -/
def half (code : Nat) : Char := Char.ofNat (0x100000 + code)

def halfCode? (c : Char) : Option Nat :=
  if 0x10D800 ≤ c.toNat && c.toNat < 0x10E000 then some (c.toNat - 0x100000) else none

end Text
end TypedClient
