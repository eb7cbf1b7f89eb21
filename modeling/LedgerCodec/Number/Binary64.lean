/-!
# Binary floating point

The finite numbers of the 64-bit binary format from zero on, as a mantissa of at
most 53 bits and a power of two. Every operation is carried out exactly on
natural numbers and rounded once to the nearest such number, of two equally near
ones to that with the even mantissa.
-/

namespace LedgerCodec

/-- The number `mantissa * 2 ^ exponent`. -/
structure Binary64 where
  /-- At most 53 bits; fewer only at the smallest exponent. -/
  mantissa : Nat
  /-- The power of two, from -1074 to 971. -/
  exponent : Int
deriving DecidableEq, Repr

namespace Binary64

def zero : Binary64 := ⟨0, -1074⟩

/-- The quotient of two numbers, rounded to the nearest natural number, a half to the even one. -/
def roundQuotient (num den : Nat) : Nat :=
  let q := num / den
  let twice := 2 * (num % den)
  if twice < den then q
  else if den < twice then q + 1
  else if q % 2 = 0 then q else q + 1

/-- The quotient of two numbers over a power of two, as a numerator and a denominator. -/
def overPowerOfTwo (num den : Nat) (exponent : Int) : Nat × Nat :=
  if 0 ≤ exponent then (num, den <<< exponent.toNat) else (num <<< (-exponent).toNat, den)

/-- The nearest number to a quotient; none if it lies beyond the largest one. -/
def ofQuotient (num den : Nat) : Option Binary64 :=
  if num = 0 then some zero
  else
    let low : Int := (num.log2 : Int) - (den.log2 : Int) - 53
    let (n, d) := overPowerOfTwo num den low
    let tight := if n / d < 1 <<< 53 then low else low + 1
    let exponent := if tight < -1074 then -1074 else tight
    let (n, d) := overPowerOfTwo num den exponent
    let m := roundQuotient n d
    let x : Binary64 := if m = 1 <<< 53 then ⟨1 <<< 52, exponent + 1⟩ else ⟨m, exponent⟩
    if 971 < x.exponent then none else some x

/-- The nearest number to `n * 2 ^ exponent` over `den`. -/
def ofScaled (n den : Nat) (exponent : Int) : Option Binary64 :=
  if 0 ≤ exponent then ofQuotient (n <<< exponent.toNat) den
  else ofQuotient n (den <<< (-exponent).toNat)

/-- The nearest number to a product. -/
def mul (x y : Binary64) : Option Binary64 :=
  ofScaled (x.mantissa * y.mantissa) 1 (x.exponent + y.exponent)

/-- The nearest number to a quotient by a number other than zero. -/
def div (x y : Binary64) : Option Binary64 :=
  ofScaled x.mantissa y.mantissa (x.exponent - y.exponent)

/-- The nearest number to a power of ten. -/
def powerOfTen (k : Nat) : Option Binary64 :=
  ofQuotient (Nat.pow 10 k) 1

/-- The number that a decimal with a significand of at most 64 bits is read as: the significand is
rounded, then multiplied or divided by one power of ten up to 308 at a time. None if it lies
beyond the largest number. -/
def ofDecimal (significand : Nat) (exponent : Int) : Option Binary64 := do
  let x ← ofQuotient significand 1
  if significand = 0 then some zero
  else if 308 < exponent then none
  else if 0 ≤ exponent then x.mul (← powerOfTen exponent.toNat)
  else
    let k := (-exponent).toNat
    if k ≤ 308 then x.div (← powerOfTen k)
    else if k ≤ 616 then (← x.div (← powerOfTen 308)).div (← powerOfTen (k - 308))
    else some zero

end Binary64

end LedgerCodec
