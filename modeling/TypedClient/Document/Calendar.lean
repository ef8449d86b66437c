/-!
# Calendar — days and moments

A day is counted in the Gregorian calendar, which is taken to reach back to the year 1.  A moment is a time of a day, in a
time zone or without one.  Two moments with zones are the same when they are the same instant; a moment with a zone and one
without are never the same.
-/
namespace TypedClient

def zeroPadded (width n : Nat) : String :=
  let ds := (Nat.repr n).toList
  String.ofList (List.replicate (width - ds.length) '0' ++ ds)

structure Day where
  year : Nat
  month : Nat
  day : Nat
  deriving DecidableEq, Inhabited

namespace Day

def isLeap (year : Nat) : Bool :=
  year % 4 == 0 && (year % 100 != 0 || year % 400 == 0)

def monthLength (year month : Nat) : Nat :=
  if month = 2 then (if isLeap year then 29 else 28)
  else if [4, 6, 9, 11].contains month then 30 else 31

def isReal (d : Day) : Bool :=
  1 ≤ d.year && 1 ≤ d.month && d.month ≤ 12 && 1 ≤ d.day && d.day ≤ monthLength d.year d.month

/-- The number of days between the first day of the year 1 and this one. -/
def number (d : Day) : Nat :=
  let years := d.year - 1
  let months := ((List.range (d.month - 1)).map fun m => monthLength d.year (m + 1)).foldl (· + ·) 0
  365 * years + years / 4 + years / 400 - years / 100 + months + (d.day - 1)

def text (d : Day) : String :=
  zeroPadded 4 d.year ++ "-" ++ zeroPadded 2 d.month ++ "-" ++ zeroPadded 2 d.day

def parts (d : Day) : List Nat := [d.year, d.month, d.day]

def shown (d : Day) : String :=
  "datetime.date(" ++ ", ".intercalate (d.parts.map Nat.repr) ++ ")"

end Day

/-- A time of a day, to the millionth of a second.  `zone` is the distance of its time zone from universal time, in minutes
to the east. -/
structure Moment where
  day : Day
  hour : Nat
  minute : Nat
  second : Nat
  micro : Nat
  zone : Option Int
  deriving DecidableEq, Inhabited

namespace Moment

def minutesPerDay : Int := 1440

def isReal (m : Moment) : Bool :=
  m.day.isReal && m.hour < 24 && m.minute < 60 && m.second < 60 &&
    match m.zone with
    | some east => -minutesPerDay < east && east < minutesPerDay
    | none => true

/-- The millionths of seconds since the first day of the year 1, in universal time if there is a zone. -/
def instant (m : Moment) : Int :=
  let minutes : Int := (m.day.number * 24 + m.hour : Nat) * 60 + m.minute - m.zone.getD 0
  (minutes * 60 + m.second) * 1000000 + m.micro

/-- **Whether two moments are the same.** -/
def same (a b : Moment) : Bool :=
  a.zone.isSome == b.zone.isSome && a.instant == b.instant

def zoneText : Option Int → String
  | none => ""
  | some east =>
    (if east < 0 then "-" else "+") ++ zeroPadded 2 (east.natAbs / 60) ++ ":" ++ zeroPadded 2 (east.natAbs % 60)

def text (m : Moment) : String :=
  m.day.text ++ " " ++ zeroPadded 2 m.hour ++ ":" ++ zeroPadded 2 m.minute ++ ":" ++ zeroPadded 2 m.second ++
    (if m.micro = 0 then "" else "." ++ zeroPadded 6 m.micro) ++ zoneText m.zone

/-- A time zone as diagnostics show it; west of universal time it is a day less and the rest of it more. -/
def shownZone : Option Int → List String
  | none => []
  | some 0 => ["tzinfo=datetime.timezone.utc"]
  | some east =>
    let span := if east < 0 then "days=-1, seconds=" ++ toString ((minutesPerDay + east) * 60)
      else "seconds=" ++ toString (east * 60)
    ["tzinfo=datetime.timezone(datetime.timedelta(" ++ span ++ "))"]

/-- The moment as diagnostics show it: seconds and their millionths only if they are not zero. -/
def shown (m : Moment) : String :=
  let small := if m.micro ≠ 0 then [m.second, m.micro] else if m.second ≠ 0 then [m.second] else []
  let numbers := (m.day.parts ++ [m.hour, m.minute] ++ small).map Nat.repr
  "datetime.datetime(" ++ ", ".intercalate (numbers ++ shownZone m.zone) ++ ")"

end Moment
end TypedClient
