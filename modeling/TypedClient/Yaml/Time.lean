import TypedClient.Document.Atom
/-!
# Time — days and moments as they are written

A time is a day, alone or with a time of the day behind it, and that with a time zone or without one.  What is written need
not be a real time.
-/
namespace TypedClient
namespace Yaml

/-- A time of a day as it is written; the zone in minutes to the east. -/
structure Clock where
  hour : Nat
  minute : Nat
  second : Nat
  /-- Millionths of a second. -/
  micro : Nat
  zone : Option Int

structure WrittenTime where
  day : Day
  /-- Whether month and day have two digits each. -/
  padded : Bool
  clock : Option Clock

namespace WrittenTime

/-- The digits in front, between `least` and `most` of them, and what follows. -/
def takeDigits? (least most : Nat) (cs : List Char) : Option (Nat × List Char) :=
  let ds := (cs.takeWhile Char.isDigit).take most
  if ds.length < least then none else some (Text.ofDigits 10 (ds.map fun d => d.toNat - 48), cs.drop ds.length)

def expect? (c : Char) : List Char → Option (List Char)
  | [] => none
  | d :: rest => if c = d then some rest else none

def zone? (cs : List Char) : Option (Option Int) :=
  match cs.dropWhile fun c => c == ' ' || c == '\t' with
  | [] => if cs.isEmpty then some none else none
  | ['Z'] => some (some 0)
  | sign :: rest =>
    if sign != '+' && sign != '-' then none else do
      let (hours, rest) ← takeDigits? 1 2 rest
      let (minutes, rest) ← if rest.isEmpty then some (0, []) else takeDigits? 2 2 (← expect? ':' rest)
      let east : Int := (hours * 60 + minutes : Nat)
      if rest.isEmpty then some (some (if sign == '-' then -east else east)) else none

def micros (ds : List Char) : Nat :=
  Text.ofDigits 10 (((ds ++ List.replicate 6 '0').take 6).map fun d => d.toNat - 48)

def clock? (cs : List Char) : Option Clock := do
  let (hour, cs) ← takeDigits? 1 2 cs
  let (minute, cs) ← takeDigits? 2 2 (← expect? ':' cs)
  let (second, cs) ← takeDigits? 2 2 (← expect? ':' cs)
  match cs with
  | '.' :: rest =>
    return ⟨hour, minute, second, micros (rest.takeWhile Char.isDigit), ← zone? (rest.dropWhile Char.isDigit)⟩
  | _ => return ⟨hour, minute, second, 0, ← zone? cs⟩

/-- **A time**: a day, alone or with a time of it behind `T` or blanks. -/
def ofList? (cs : List Char) : Option WrittenTime := do
  let (year, cs) ← takeDigits? 4 4 cs
  let monthPart ← expect? '-' cs
  let (month, cs) ← takeDigits? 1 2 monthPart
  let dayPart ← expect? '-' cs
  let (day, rest) ← takeDigits? 1 2 dayPart
  let padded := monthPart.length == cs.length + 2 && dayPart.length == rest.length + 2
  match rest with
  | [] => return ⟨⟨year, month, day⟩, padded, none⟩
  | c :: behind =>
    if c == 'T' || c == 't' then return ⟨⟨year, month, day⟩, padded, some (← clock? behind)⟩
    else if c == ' ' || c == '\t' then
      return ⟨⟨year, month, day⟩, padded, some (← clock? (behind.dropWhile fun c => c == ' ' || c == '\t'))⟩
    else none

def atom? (t : WrittenTime) : Option Atom :=
  match t.clock with
  | none => if t.day.isReal then some (.day t.day) else none
  | some c =>
    let m : Moment := ⟨t.day, c.hour, c.minute, c.second, c.micro, c.zone⟩
    if m.isReal then some (.moment m) else none

end WrittenTime
end Yaml
end TypedClient
