/-!
# Base64 — bytes out of their 64-character form

Four characters stand for three bytes.  Characters outside of the alphabet count for nothing.  The end of the data is padded
with `=` up to a multiple of four characters, and what follows full padding is not read.
-/
namespace TypedClient
namespace Text

def sextet? (c : Char) : Option Nat :=
  if 'A' ≤ c && c ≤ 'Z' then some (c.toNat - 65)
  else if 'a' ≤ c && c ≤ 'z' then some (c.toNat - 71)
  else if '0' ≤ c && c ≤ '9' then some (c.toNat + 4)
  else if c = '+' then some 62
  else if c = '/' then some 63
  else none

/-- The bytes from the `place`-th character of a group of four on, `left` being the bits left over from the one before and `pads`
the number of padding characters since.  Fails if the data ends inside a group. -/
def base64From (place left pads : Nat) : List Char → Option (List UInt8)
  | [] => if place = 0 then some [] else none
  | c :: rest =>
    if c = '=' then
      if place < 2 then base64From place left pads rest
      else if 4 ≤ place + (pads + 1) then some []
      else base64From place left (pads + 1) rest
    else
      match sextet? c with
      | none => base64From place left pads rest
      | some bits =>
        match place with
        | 0 => base64From 1 bits 0 rest
        | 1 => (base64From 2 (bits % 16) 0 rest).map ((left * 4 + bits / 16).toUInt8 :: ·)
        | 2 => (base64From 3 (bits % 4) 0 rest).map ((left * 16 + bits / 4).toUInt8 :: ·)
        | _ => (base64From 0 0 0 rest).map ((left * 64 + bits).toUInt8 :: ·)

/-- **The bytes that a text stands for.** -/
def base64? (text : String) : Option (List UInt8) :=
  base64From 0 0 0 text.toList

end Text
end TypedClient
