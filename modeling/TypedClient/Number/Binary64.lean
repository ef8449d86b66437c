/-!
# Binary64 — double-precision numbers, exactly

A finite number is `± mantissa · 2 ^ exponent` with a mantissa below 2 ^ 53 and an exponent of at least −1074; the mantissa
is at least 2 ^ 52 unless the exponent is the least one.  Everything is computed in whole numbers: a decimal literal is
rounded to the nearest number, a tie to the even mantissa.
-/
namespace TypedClient

inductive Binary64 where
  | nan
  | infinite (negative : Bool)
  | finite (negative : Bool) (mantissa : Nat) (exponent : Int)
  deriving DecidableEq, Inhabited

namespace Binary64

def zero : Binary64 := .finite false 0 (-1074)

/-- `num / den` to the nearest whole number, a tie to the even one. -/
def roundDiv (num den : Nat) : Nat :=
  let q := num / den
  let r := num % den
  if 2 * r < den then q else if den < 2 * r then q + 1 else if q % 2 = 0 then q else q + 1

/-- The greatest `e` with `2 ^ e ≤ num / den`, for a positive quotient. -/
def log2Ratio (num den : Nat) : Int :=
  let e : Int := (num.log2 : Int) - den.log2
  let reached := if 0 ≤ e then den * Nat.pow 2 e.toNat ≤ num else den ≤ num * Nat.pow 2 (-e).toNat
  if reached then e else e - 1

/-- **The number nearest to `± num / den`.**  The exponent is chosen so that the mantissa has 53 bits, or fewer at the least
exponent; rounding may carry the mantissa to 2 ^ 53, which is the next power of two. -/
def ofRatio (negative : Bool) (num den : Nat) : Binary64 :=
  if num = 0 ∨ den = 0 then .finite negative 0 (-1074) else
  let e := max (log2Ratio num den - 52) (-1074)
  let m := if 0 ≤ e then roundDiv num (den * Nat.pow 2 e.toNat) else roundDiv (num * Nat.pow 2 (-e).toNat) den
  let (m, e) := if m = Nat.pow 2 53 then (Nat.pow 2 52, e + 1) else (m, e)
  if 971 < e then .infinite negative else .finite negative m e

/-- The number nearest to the decimal `± digits · 10 ^ scale`.  Decimals far outside the range are cut short: beyond
10 ^ 400 all are infinite, below 10 ^ −400 all are zero. -/
def ofDecimal (negative : Bool) (digits : Nat) (scale : Int) : Binary64 :=
  if digits = 0 then .finite negative 0 (-1074) else
  let magnitude := scale + (digits.log2 / 3 : Nat)
  if 400 < scale then .infinite negative
  else if magnitude < -800 then .finite negative 0 (-1074)
  else if 0 ≤ scale then ofRatio negative (digits * Nat.pow 10 scale.toNat) 1
  else ofRatio negative digits (Nat.pow 10 (-scale).toNat)

/-- A finite number as a quotient with its sign in the numerator. -/
def toRatio? : Binary64 → Option (Int × Nat)
  | .finite negative m e =>
    let size : Nat := if 0 ≤ e then m * Nat.pow 2 e.toNat else m
    let den : Nat := if 0 ≤ e then 1 else Nat.pow 2 (-e).toNat
    some (if negative then -(size : Int) else size, den)
  | _ => none

/-- The nearest number to a whole number. -/
def ofInt (i : Int) : Binary64 :=
  ofRatio (decide (i < 0)) i.natAbs 1

def neg : Binary64 → Binary64
  | .nan => .nan
  | .infinite n => .infinite !n
  | .finite n m e => .finite (!n) m e

/-- The sum, rounded. -/
def add (x y : Binary64) : Binary64 :=
  match x, y with
  | .nan, _ | _, .nan => .nan
  | .infinite a, .infinite b => if a = b then .infinite a else .nan
  | .infinite a, _ | _, .infinite a => .infinite a
  | .finite a m e, .finite b n f =>
    match (Binary64.finite a m e).toRatio?, (Binary64.finite b n f).toRatio? with
    | some (p, q), some (r, s) =>
      let t := p * s + r * q
      ofRatio (if t = 0 then a && b else decide (t < 0)) t.natAbs (q * s)
    | _, _ => .nan

/-- Whether the number is negative, a zero by its sign. -/
def isNegative : Binary64 → Bool
  | .nan => false
  | .infinite n => n
  | .finite n _ _ => n

def isInfinite : Binary64 → Bool
  | .infinite _ => true
  | _ => false

def isZero : Binary64 → Bool
  | .finite _ m _ => m == 0
  | _ => false

/-- The product, rounded. -/
def mul (x y : Binary64) : Binary64 :=
  match x.toRatio?, y.toRatio? with
  | some (p, q), some (r, s) => ofRatio (x.isNegative != y.isNegative) (p * r).natAbs (q * s)
  | _, _ =>
    if x = .nan || y = .nan || x.isZero || y.isZero then .nan else .infinite (x.isNegative != y.isNegative)

/-- Whether two numbers are equal: nothing equals NaN, and the two zeros are equal. -/
def eq (x y : Binary64) : Bool :=
  match x, y with
  | .nan, _ | _, .nan => false
  | .infinite a, .infinite b => a == b
  | .finite a m e, .finite b n f =>
    match (Binary64.finite a m e).toRatio?, (Binary64.finite b n f).toRatio? with
    | some (p, q), some (r, s) => p * s == r * q
    | _, _ => false
  | _, _ => false

def eqInt (x : Binary64) (i : Int) : Bool :=
  match x.toRatio? with
  | some (p, q) => p == i * q
  | none => false

end Binary64
end TypedClient
