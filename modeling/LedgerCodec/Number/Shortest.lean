import LedgerCodec.Number.Binary64
/-!
# Shortest decimals

A number is shown with the fewest decimal digits that read back as it, and of
the decimals with that many digits by the one nearest to it. The digits stand
positionally for magnitudes from 10^-5 up to 10^16, and otherwise with a signed
power of ten.
-/

namespace LedgerCodec.Binary64

/-- The decimals that read back as a number `x` are those from `(2 * m - gap) * 2 ^ (e - 1)` to
`(2 * m + 1) * 2 ^ (e - 1)`, here all over a common denominator. -/
structure Interval where
  /-- Numerator of the lower end. -/
  low : Nat
  /-- Numerator of the number itself. -/
  mid : Nat
  /-- Numerator of the upper end. -/
  high : Nat
  /-- The denominator. -/
  den : Nat
  /-- Whether the ends belong to it. -/
  closed : Bool

/-- The decimals that read back as a number. -/
def interval (x : Binary64) : Interval :=
  let m := x.mantissa
  let scale (n : Nat) : Nat := if 0 ≤ x.exponent then n <<< x.exponent.toNat else n
  let den := if 0 ≤ x.exponent then 4 else 4 <<< (-x.exponent).toNat
  let below := if m = 1 <<< 52 ∧ -1074 < x.exponent then 4 * m - 1 else 4 * m - 2
  { low := scale below
    mid := scale (4 * m)
    high := scale (4 * m + 2)
    den
    closed := m % 2 = 0 }

/-- Whether `n * 10 ^ k` lies in an interval. -/
def Interval.contains (i : Interval) (n : Nat) (k : Int) : Bool :=
  let value := if 0 ≤ k then n * Nat.pow 10 k.toNat * i.den else n * i.den
  let scale (e : Nat) : Nat := if 0 ≤ k then e else e * Nat.pow 10 (-k).toNat
  if i.closed then scale i.low ≤ value && value ≤ scale i.high
  else scale i.low < value && value < scale i.high

/-- The decimal exponent of a number other than zero: the power of ten that its first digit
counts. -/
def magnitude (i : Interval) : Int :=
  let guess : Int := ((i.mid.log2 : Int) - (i.den.log2 : Int)) * 30103 / 100000
  let reaches (k : Int) : Bool :=
    if 0 ≤ k then i.den * Nat.pow 10 k.toNat ≤ i.mid
    else i.den ≤ i.mid * Nat.pow 10 (-k).toNat
  if reaches (guess + 2) then guess + 2
  else if reaches (guess + 1) then guess + 1
  else if reaches guess then guess
  else if reaches (guess - 1) then guess - 1
  else guess - 2

/-- The nearest decimal of the grid of `10 ^ k` in an interval, if one of its number's two
neighbours on the grid lies in it. -/
def Interval.nearest? (i : Interval) (k : Int) : Option Nat :=
  let (num, den) : Nat × Nat :=
    if 0 ≤ k then (i.mid, i.den * Nat.pow 10 k.toNat)
    else (i.mid * Nat.pow 10 (-k).toNat, i.den)
  let below := num / den
  let twice := 2 * (num % den)
  match i.contains below k, i.contains (below + 1) k with
  | true, true =>
    if twice < den ∨ (twice = den ∧ below % 2 = 0) then some below else some (below + 1)
  | true, false => some below
  | false, true => some (below + 1)
  | false, false => none

/-- Tries the grids with `digits` digits and more, up to `left` of them. -/
def search (i : Interval) (exponent : Int) : (left digits : Nat) → Nat × Int
  | 0, digits => (i.mid * Nat.pow 10 (digits - 1) / i.den, exponent - (digits - 1))
  | left + 1, digits =>
    let k := exponent - ((digits : Int) - 1)
    match i.nearest? k with
    | some n => (n, k)
    | none => search i exponent left (digits + 1)

/-- The digits of a number other than zero and the power of ten of its first digit. -/
def shortest (x : Binary64) : List Char × Int :=
  let i := x.interval
  let (n, k) := search i (magnitude i) 17 1
  let digits := Nat.toDigits 10 n
  let kept := (digits.reverse.dropWhile (· == '0')).reverse
  (kept, k + (digits.length : Int) - 1)

def text (x : Binary64) : String :=
  if x.mantissa = 0 then "0.0"
  else
    let (digits, exponent) := x.shortest
    if 0 ≤ exponent ∧ exponent < 16 then
      let whole := digits.take (exponent.toNat + 1)
      let zeros := List.replicate (exponent.toNat + 1 - digits.length) '0'
      let rest := digits.drop (exponent.toNat + 1)
      String.ofList (whole ++ zeros ++ '.' :: if rest.isEmpty then ['0'] else rest)
    else if -5 ≤ exponent ∧ exponent < 0 then
      String.ofList ('0' :: '.' :: List.replicate ((-exponent).toNat - 1) '0' ++ digits)
    else
      let fraction := if digits.length = 1 then [] else '.' :: digits.drop 1
      let sign := if exponent < 0 then "-" else "+"
      String.ofList (digits.take 1 ++ fraction) ++ "e" ++ sign ++ toString exponent.natAbs

end LedgerCodec.Binary64
