import TypedClient.Number.Binary64
/-!
# Shortest — the fewest digits that read back

A finite number is written with the fewest decimal digits that are still read as it, and of those with the digits nearest
to it.  For 1, 2, … 17 digits the two neighbours of the number on that decimal grid are tested against the interval of all
decimals that round to it; the first grid with a hit wins.
-/
namespace TypedClient
namespace Binary64

/-- The decimals that round to `mantissa · 2 ^ exponent`, as numerators over one denominator: the number itself, the lower
and the upper end, and whether the ends belong to the interval. -/
structure Rounding where
  value : Nat
  low : Nat
  high : Nat
  den : Nat
  closed : Bool

/-- The interval around a number.  Below a power of two the neighbour is half as far away. -/
def rounding (m : Nat) (e : Int) : Rounding :=
  let below := if m = Nat.pow 2 52 ∧ -1074 < e then 1 else 2
  let up : Nat := if 0 ≤ e then Nat.pow 2 e.toNat else 1
  let den : Nat := if 0 ≤ e then 4 else 4 * Nat.pow 2 (-e).toNat
  ⟨4 * m * up, (4 * m - below) * up, (4 * m + 2) * up, den, m % 2 == 0⟩

/-- Whether the decimal `n · 10 ^ s` lies in the interval. -/
def Rounding.holds (r : Rounding) (n : Nat) (s : Int) : Bool :=
  let x := if 0 ≤ s then n * Nat.pow 10 s.toNat * r.den else n * r.den
  let k : Nat := if 0 ≤ s then 1 else Nat.pow 10 (-s).toNat
  if r.closed then r.low * k ≤ x && x ≤ r.high * k else r.low * k < x && x < r.high * k

/-- The nearer of the two grid neighbours that lie in the interval, on the grid of step `10 ^ s`. -/
def Rounding.onGrid? (r : Rounding) (s : Int) : Option Nat :=
  let num := if 0 ≤ s then r.value else r.value * Nat.pow 10 (-s).toNat
  let den := if 0 ≤ s then r.den * Nat.pow 10 s.toNat else r.den
  let n := num / den
  match r.holds n s, r.holds (n + 1) s with
  | true, false => some n
  | false, true => some (n + 1)
  | true, true => some (roundDiv num den)
  | false, false => none

/-- The greatest `d` with `10 ^ d ≤ num / den`, searched from a start at or above it. -/
def log10From (num den : Nat) : Nat → Int → Int
  | 0, d => d
  | tries + 1, d =>
    let reached := if 0 ≤ d then den * Nat.pow 10 d.toNat ≤ num else den ≤ num * Nat.pow 10 (-d).toNat
    if reached then d else log10From num den tries (d - 1)

/-- The digits of the shortest decimal and its scale, for a positive number. -/
def shortest (m : Nat) (e : Int) : Nat × Int :=
  let r := rounding m e
  let top := (log2Ratio r.value r.den) * 30103 / 100000 + 1
  let d := log10From r.value r.den 4 top
  let grids := (List.range 17).map fun (k : Nat) => d - (k : Int)
  match grids.findSome? fun s => (r.onGrid? s).map (·, s) with
  | some found => found
  | none => (r.value / r.den, 0)

/-- Moves trailing zeros of the digits into the scale. -/
def dropZeros : Nat → Nat × Int → Nat × Int
  | 0, x => x
  | tries + 1, (n, s) => if n ≠ 0 ∧ n % 10 = 0 then dropZeros tries (n / 10, s + 1) else (n, s)

/-- **The text of a number.**  Positional from 10 ^ −4 up to below 10 ^ 16, always with a point; otherwise with an exponent of
a sign and at least two digits.  `inf` and `nan` are spelled as they are. -/
def toText : Binary64 → String
  | .nan => "nan"
  | .infinite negative => if negative then "-inf" else "inf"
  | .finite negative m e =>
    let sign := if negative then "-" else ""
    if m = 0 then sign ++ "0.0" else
    let (n, s) := dropZeros 17 (shortest m e)
    let ds := (Nat.repr n).toList
    let point : Int := s + (ds.length : Int)
    if -4 < point ∧ point ≤ 16 then
      if point ≤ 0 then
        sign ++ "0." ++ String.ofList (List.replicate (-point).toNat '0' ++ ds)
      else if ds.length ≤ point.toNat then
        sign ++ String.ofList (ds ++ List.replicate (point.toNat - ds.length) '0') ++ ".0"
      else
        sign ++ String.ofList (ds.take point.toNat) ++ "." ++ String.ofList (ds.drop point.toNat)
    else
      let power := point - 1
      let digits := (Nat.repr power.natAbs).toList
      let padded := if digits.length < 2 then '0' :: digits else digits
      let head := String.ofList (ds.take 1) ++ (if ds.length = 1 then "" else "." ++ String.ofList (ds.drop 1))
      sign ++ head ++ "e" ++ (if power < 0 then "-" else "+") ++ String.ofList padded

end Binary64
end TypedClient
