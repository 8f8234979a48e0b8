import GraphRead.Decimal.Shortest

/-!
# Writing decimals

How digits and an exponent are laid out as text: positional between two bounds
of the exponent, scientific outside of them.
-/

namespace GraphRead.Decimal

/-- The choices of a decimal format. -/
structure Layout where
  /-- The smallest exponent written positionally. -/
  minPositional : Int
  /-- The largest exponent written positionally. -/
  maxPositional : Int
  /-- The sign of an exponent that is not negative. -/
  plus : String

/-- The digits as text. -/
def digitText (digits : List Nat) : String :=
  String.ofList (digits.map fun d => Char.ofNat ('0'.toNat + d))

/-- A text of zeros. -/
def zeros (count : Nat) : String := String.ofList (List.replicate count '0')

/-- Positional text, always with a fraction. -/
def positional (d : Digits) : String :=
  if d.exponent < 0 then
    "0." ++ zeros ((-d.exponent).toNat - 1) ++ digitText d.digits
  else
    let whole := d.exponent.toNat + 1
    if d.digits.length ≤ whole then
      digitText d.digits ++ zeros (whole - d.digits.length) ++ ".0"
    else digitText (d.digits.take whole) ++ "." ++ digitText (d.digits.drop whole)

/-- Scientific text, with a fraction only if there is more than one digit. -/
def scientific (plus : String) (d : Digits) : String :=
  let mantissa :=
    match d.digits with
    | first :: second :: rest => digitText [first] ++ "." ++ digitText (second :: rest)
    | digits => digitText digits
  let sign := if d.exponent < 0 then "-" else plus
  mantissa ++ "e" ++ sign ++ toString d.exponent.natAbs

/-- A number in the given layout. -/
def Layout.write (layout : Layout) (x : Binary64) : String :=
  let d := shortest x
  let text :=
    if layout.minPositional ≤ d.exponent && d.exponent ≤ layout.maxPositional then positional d
    else scientific layout.plus d
  if x.negative then "-" ++ text else text

end GraphRead.Decimal
