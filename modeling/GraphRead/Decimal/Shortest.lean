import GraphRead.Decimal.Binary64

/-!
# Shortest decimals

The fewest decimal digits that read back to a given double-precision number, and
among those of that length the nearest to it. The search is exact: for every
length it looks at the two neighbours of the number on the grid of decimals of
that length, until one of them lies in the interval of reals that round to it.
-/

namespace GraphRead.Decimal

/-- Digits `d₁d₂…dₙ` and an exponent `k`, for the value `d₁.d₂…dₙ · 10 ^ k`. -/
structure Digits where
  digits : List Nat
  exponent : Int
deriving DecidableEq, Repr

/-- The decimal digits of a natural number, leading digit first. -/
def naturalDigits (n : Nat) : List Nat := (Nat.toDigits 10 n).map fun c => c.toNat - '0'.toNat

/-- The digits without the zeros at their end. -/
def trimZeros (digits : List Nat) : List Nat := (digits.reverse.dropWhile (· = 0)).reverse

/-- The reals that round to a number, as numerators over a common denominator. -/
structure Interval where
  value : Nat
  low : Nat
  high : Nat
  denominator : Nat
  closed : Bool

/-- The interval of a positive number. It reaches half way to each neighbour, and the lower
neighbour is nearer when the significand is a power of two. The ends belong to it when the
significand is even. -/
def Interval.of (x : Binary64) : Interval :=
  let (num, den) := x.ratio
  let unit := if 0 ≤ x.exponent then Nat.pow 2 x.exponent.toNat else 1
  let nearer := x.significand = Nat.pow 2 52 && Binary64.minExponent < x.exponent
  { value := 4 * num
    low := if nearer then 4 * num - unit else 4 * num - 2 * unit
    high := 4 * num + 2 * unit
    denominator := 4 * den
    closed := x.significand % 2 = 0 }

/-- Whether `count · num / den` lies in the interval. -/
def Interval.holds (i : Interval) (count num den : Nat) : Bool :=
  let point := count * num * i.denominator
  if i.closed then i.low * den ≤ point && point ≤ i.high * den
  else i.low * den < point && point < i.high * den

/-- The power of ten `10 ^ k` as a ratio. -/
def power (k : Int) : Nat × Nat :=
  if 0 ≤ k then (Nat.pow 10 k.toNat, 1) else (1, Nat.pow 10 (-k).toNat)

/-- The decimal exponent of the leading digit of `num / den`, found from a first guess. -/
def leading (num den : Nat) : Nat → Int → Int
  | 0, k => k
  | steps + 1, k =>
    let (p, q) := power k
    let (p', q') := power (k + 1)
    if num * q < p * den then leading num den steps (k - 1)
    else if p' * den ≤ num * q' then leading num den steps (k + 1)
    else k

/-- The best decimal on the grid of `10 ^ unit`, if one of the two neighbours fits. -/
def onGrid (i : Interval) (unit : Int) : Option Nat :=
  let (p, q) := power unit
  let below := i.value * q / (i.denominator * p)
  let above := below + 1
  match i.holds below p q, i.holds above p q with
  | true, false => some below
  | false, true => some above
  | false, false => none
  | true, true =>
    let toBelow := i.value * q - below * p * i.denominator
    let toAbove := above * p * i.denominator - i.value * q
    if toBelow < toAbove then some below
    else if toAbove < toBelow then some above
    else if below % 2 = 0 then some below else some above

/-- The first grid, from coarse to fine, on which a decimal fits. -/
def firstGrid (i : Interval) : Nat → Int → Option (Nat × Int)
  | 0, _ => none
  | steps + 1, unit =>
    match onGrid i unit with
    | some count => some (count, unit)
    | none => firstGrid i steps (unit - 1)

/-- The shortest digits of a number, without its sign. -/
def shortest (x : Binary64) : Digits :=
  if x.significand = 0 then ⟨[0], 0⟩
  else
    let i := Interval.of x
    let guess := ((x.significand.log2 : Int) + x.exponent) * 30103 / 100000
    let k := leading i.value i.denominator 4 guess
    match firstGrid i 18 k with
    | none => ⟨[0], 0⟩
    | some (count, unit) =>
      let digits := naturalDigits count
      ⟨trimZeros digits, unit + (digits.length : Int) - 1⟩

end GraphRead.Decimal
