/-!
# Finite double-precision numbers

A number `± significand · 2 ^ exponent` with a 53-bit significand and an exponent
of at least -1074, kept in the one form in which the significand has all its 53
bits unless the exponent is the smallest. Ratios round to the nearest such
number, a tie going to the even significand.
-/

namespace GraphRead

/-- A finite number of the double-precision format. -/
structure Binary64 where
  negative : Bool
  significand : Nat
  exponent : Int
deriving DecidableEq, Repr

namespace Binary64

/-- The smallest exponent of the format. -/
def minExponent : Int := -1074

/-- The largest exponent of the format. -/
def maxExponent : Int := 971

/-- Zero, with a sign of its own. -/
def zero (negative : Bool) : Binary64 := ⟨negative, 0, minExponent⟩

/-- `num / den` to the nearest natural number, a tie going to the even one. -/
def roundDiv (num den : Nat) : Nat :=
  let quotient := num / den
  let twice := 2 * (num % den)
  if twice < den then quotient
  else if den < twice then quotient + 1
  else if quotient % 2 = 0 then quotient else quotient + 1

/-- The ratio `num / den` divided by `2 ^ exponent`, as numerator and denominator. -/
def scaled (num den : Nat) (exponent : Int) : Nat × Nat :=
  if 0 ≤ exponent then (num, den * Nat.pow 2 exponent.toNat)
  else (num * Nat.pow 2 (-exponent).toNat, den)

/-- The exponent at which `num / den` has a significand of 53 bits, or the smallest one. -/
def exponentOf (num den : Nat) : Int :=
  let guess : Int := (num.log2 : Int) - (den.log2 : Int) - 52
  let (n, d) := scaled num den guess
  max minExponent (if n / d < Nat.pow 2 52 then guess - 1 else guess)

/-- The number nearest to `num / den`, or nothing if that is beyond the format. -/
def ofRatio (negative : Bool) (num den : Nat) : Option Binary64 :=
  if num = 0 then some (zero negative)
  else
    let exponent := exponentOf num den
    let (n, d) := scaled num den exponent
    let significand := roundDiv n d
    let (significand, exponent) :=
      if significand = Nat.pow 2 53 then (Nat.pow 2 52, exponent + 1) else (significand, exponent)
    if maxExponent < exponent then none else some ⟨negative, significand, exponent⟩

/-- The size of a number as an exact ratio. -/
def ratio (x : Binary64) : Nat × Nat :=
  if 0 ≤ x.exponent then (x.significand * Nat.pow 2 x.exponent.toNat, 1)
  else (x.significand, Nat.pow 2 (-x.exponent).toNat)

/-- The largest power of ten that the format holds is `10 ^ 308`. -/
def maxPower : Nat := 308

/-- The number nearest to a power of ten, as a ratio. -/
def powerOfTen (k : Nat) : Nat × Nat :=
  match ofRatio false (Nat.pow 10 k) 1 with
  | some x => x.ratio
  | none => (Nat.pow 10 k, 1)

/-- The number times `10 ^ k`, rounded. -/
def timesPower (x : Binary64) (k : Nat) : Option Binary64 :=
  let (n, d) := x.ratio
  let (p, q) := powerOfTen k
  ofRatio x.negative (n * p) (d * q)

/-- The number divided by `10 ^ k`, rounded. -/
def overPower (x : Binary64) (k : Nat) : Option Binary64 :=
  let (n, d) := x.ratio
  let (p, q) := powerOfTen k
  ofRatio x.negative (n * q) (d * p)

/-- Division by `10 ^ k` in steps of at most `10 ^ 308`, each of them rounded. Two full steps
take every 64-bit significand to zero, so a third never has anything left to do. -/
def shrink : Nat → Binary64 → Nat → Option Binary64
  | 0, x, _ => some (zero x.negative)
  | steps + 1, x, k =>
    if k ≤ maxPower then x.overPower k
    else (x.overPower maxPower).bind fun y => shrink steps y (k - maxPower)

/-- A decimal `significand · 10 ^ exponent`: the significand is rounded first and then scaled by
powers of ten, each step rounded. Nothing if the result is beyond the format. -/
def ofDecimal (negative : Bool) (significand : Nat) (exponent : Int) : Option Binary64 :=
  if significand = 0 then some (zero negative)
  else
    (ofRatio negative significand 1).bind fun x =>
      if exponent < 0 then x.shrink 4 (-exponent).toNat
      else if exponent ≤ maxPower then x.timesPower exponent.toNat
      else none

end Binary64

end GraphRead
