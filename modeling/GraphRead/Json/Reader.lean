import GraphRead.Json.Source

/-!
# Reading JSON

A reader for JSON texts. Objects keep repeated keys as they were written. An
integer that fits in 64 bits stays exact; every other number becomes a
double-precision number, and a number beyond that format has no value.
-/

namespace GraphRead.Json

/-- Blanks between tokens. -/
def isBlank (c : Char) : Bool := c = ' ' || c = '\t' || c = '\n' || c = '\r'

/-- The text from its first character that is not blank. -/
def skipBlanks (text : List Char) : List Char := text.dropWhile isBlank

/-- The value of a decimal digit. -/
def digitValue (c : Char) : Nat := c.toNat - '0'.toNat

/-- The value of a hexadecimal digit. -/
def hexValue? (c : Char) : Option Nat :=
  if c.isDigit then some (digitValue c)
  else if 'a' ≤ c ∧ c ≤ 'f' then some (c.toNat - 'a'.toNat + 10)
  else if 'A' ≤ c ∧ c ≤ 'F' then some (c.toNat - 'A'.toNat + 10)
  else none

/-- Four hexadecimal digits and the text after them. -/
def hexQuad? : List Char → Option (Nat × List Char)
  | a :: b :: c :: d :: rest => do
    let a ← hexValue? a
    let b ← hexValue? b
    let c ← hexValue? c
    let d ← hexValue? d
    return (((a * 16 + b) * 16 + c) * 16 + d, rest)
  | _ => none

/-- The lower half of a surrogate pair in an escape, and the text after it. -/
def lowerHalf? : List Char → Option (Nat × List Char)
  | '\\' :: 'u' :: rest =>
    (hexQuad? rest).filter fun (unit, _) => 0xDC00 ≤ unit && unit < 0xE000
  | _ => none

/-- The character of a `\u` escape and the text after it. Half of a surrogate pair without the
other one is no character. -/
def unicodeEscape? (text : List Char) : Option (Option Char × List Char) := do
  let (unit, rest) ← hexQuad? text
  if 0xD800 ≤ unit ∧ unit < 0xDC00 then
    match lowerHalf? rest with
    | some (low, rest) =>
      return (some (Char.ofNat (0x10000 + (unit - 0xD800) * 0x400 + (low - 0xDC00))), rest)
    | none => return (none, rest)
  else if 0xDC00 ≤ unit ∧ unit < 0xE000 then return (none, rest)
  else return (some (Char.ofNat unit), rest)

/-- The character of an escape other than `\u`. -/
def simpleEscape? : Char → Option Char
  | '\x22' => some '\x22'
  | '\\' => some '\\'
  | '/' => some '/'
  | 'b' => some '\x08'
  | 'f' => some '\x0c'
  | 'n' => some '\n'
  | 'r' => some '\r'
  | 't' => some '\t'
  | _ => none

/-- The rest of a string after its opening quote, and the text after the closing one. The bound
is on the number of characters read. -/
def stringBody? : Nat → List Char → Option (Option (List Char) × List Char)
  | 0, _ => none
  | _ + 1, [] => none
  | bound + 1, c :: rest =>
    if c = '\x22' then some (some [], rest)
    else if c = '\\' then
      match rest with
      | 'u' :: rest => do
        let (c, rest) ← unicodeEscape? rest
        let (body, rest) ← stringBody? bound rest
        return (c.bind fun c => body.map (c :: ·), rest)
      | e :: rest => do
        let c ← simpleEscape? e
        let (body, rest) ← stringBody? bound rest
        return (body.map (c :: ·), rest)
      | [] => none
    else if c.toNat < 32 then none
    else do
      let (body, rest) ← stringBody? bound rest
      return (body.map (c :: ·), rest)

/-- A string after its opening quote, and the text after the closing one. -/
def string? (text : List Char) : Option (Option String × List Char) :=
  (stringBody? (text.length + 1) text).map fun (body, rest) => (body.map String.ofList, rest)

/-- The largest significand that is kept exactly. -/
def maxSignificand : Nat := Nat.pow 2 64 - 1

/-- The digits before the point. Digits beyond the largest significand are dropped and counted. -/
def wholeDigits (digits : List Char) : Nat × Nat :=
  digits.foldl (fun (significand, dropped) c =>
    let next := significand * 10 + digitValue c
    if dropped = 0 ∧ next ≤ maxSignificand then (next, 0) else (significand, dropped + 1)) (0, 0)

/-- The digits after the point, as far as the significand can take them, and their number. -/
def fractionDigits (significand : Nat) : List Char → Nat × Nat
  | [] => (significand, 0)
  | c :: rest =>
    let next := significand * 10 + digitValue c
    if next ≤ maxSignificand then
      let (result, taken) := fractionDigits next rest
      (result, taken + 1)
    else (significand, 0)

/-- The value of a digit sequence. -/
def naturalOf (digits : List Char) : Nat := digits.foldl (fun n c => n * 10 + digitValue c) 0

/-- An integer without fraction and exponent. Negative zero and integers beyond 64 bits are
double-precision numbers. -/
def integerNumber? (negative : Bool) (significand dropped : Nat) : Option Number :=
  if dropped = 0 ∧ !negative then some (.integer significand)
  else if dropped = 0 ∧ 0 < significand ∧ significand ≤ Nat.pow 2 63 then
    some (.integer (-(significand : Int)))
  else (Binary64.ofDecimal negative significand dropped).map .binary

/-- The largest exponent that is read digit by digit. -/
def maxReadExponent : Nat := Nat.pow 2 31 - 1

/-- A number with a fraction or an exponent. An exponent of more than 31 bits only leaves zero,
or a number beyond the format. -/
def binaryNumber? (negative : Bool) (significand : Nat) (exponent : Int) (down : Bool)
    (written : Nat) : Option Number :=
  if maxReadExponent < written then
    if significand ≠ 0 ∧ !down then none else some (.binary (.zero negative))
  else
    let exponent := if down then exponent - written else exponent + written
    (Binary64.ofDecimal negative significand exponent).map .binary

/-- The exponent part of a number, if there is one: its sign, its size and the text after it. -/
def exponentPart? (text : List Char) : Option (Option (Bool × Nat) × List Char) :=
  match text with
  | c :: rest =>
    if c = 'e' ∨ c = 'E' then
      let (down, rest) :=
        match rest with
        | '+' :: rest => (false, rest)
        | '-' :: rest => (true, rest)
        | _ => (false, rest)
      let digits := rest.takeWhile Char.isDigit
      if digits.isEmpty then none
      else some (some (down, naturalOf digits), rest.dropWhile Char.isDigit)
    else some (none, text)
  | [] => some (none, [])

/-- A number and the text after it. No zero may stand before other digits. -/
def number? (text : List Char) : Option (Option Number × List Char) := do
  let (negative, text) :=
    match text with
    | '-' :: rest => (true, rest)
    | _ => (false, text)
  let whole := text.takeWhile Char.isDigit
  let rest := text.dropWhile Char.isDigit
  if whole.isEmpty ∨ (whole.head? = some '0' ∧ 1 < whole.length) then none
  let (significand, dropped) := wholeDigits whole
  match rest with
  | '.' :: rest =>
    let fraction := rest.takeWhile Char.isDigit
    if fraction.isEmpty then none
    let (significand, taken) := fractionDigits significand fraction
    let exponent : Int := dropped - taken
    let (power, rest) ← exponentPart? (rest.dropWhile Char.isDigit)
    let (down, written) := power.getD (false, 0)
    return (binaryNumber? negative significand exponent down written, rest)
  | _ =>
    let (power, rest) ← exponentPart? rest
    match power with
    | none => return (integerNumber? negative significand dropped, rest)
    | some (down, written) =>
      return (binaryNumber? negative significand dropped down written, rest)

mutual
/-- A value and the text after it. The bound is on the number of steps. -/
def value? : Nat → List Char → Option (Source × List Char)
  | 0, _ => none
  | steps + 1, text =>
    match skipBlanks text with
    | 'n' :: 'u' :: 'l' :: 'l' :: rest => some (.null, rest)
    | 't' :: 'r' :: 'u' :: 'e' :: rest => some (.bool true, rest)
    | 'f' :: 'a' :: 'l' :: 's' :: 'e' :: rest => some (.bool false, rest)
    | '\x22' :: rest => (string? rest).map fun (value, rest) => (.string value, rest)
    | '[' :: rest =>
      match skipBlanks rest with
      | ']' :: rest => some (.array [], rest)
      | rest => (items? steps rest).map fun (items, rest) => (.array items, rest)
    | '\x7b' :: rest =>
      match skipBlanks rest with
      | '\x7d' :: rest => some (.object [], rest)
      | rest => (entries? steps rest).map fun (entries, rest) => (.object entries, rest)
    | text => (number? text).map fun (value, rest) => (.number value, rest)

/-- The items of an array up to its closing bracket. -/
def items? : Nat → List Char → Option (List Source × List Char)
  | 0, _ => none
  | steps + 1, text => do
    let (item, rest) ← value? steps text
    match skipBlanks rest with
    | ',' :: rest =>
      let (items, rest) ← items? steps rest
      return (item :: items, rest)
    | ']' :: rest => return ([item], rest)
    | _ => none

/-- The entries of an object up to its closing brace. -/
def entries? : Nat → List Char → Option (List (Option String × Source) × List Char)
  | 0, _ => none
  | steps + 1, text =>
    match skipBlanks text with
    | '\x22' :: rest => do
      let (key, rest) ← string? rest
      match skipBlanks rest with
      | ':' :: rest =>
        let (value, rest) ← value? steps rest
        match skipBlanks rest with
        | ',' :: rest =>
          let (entries, rest) ← entries? steps rest
          return ((key, value) :: entries, rest)
        | '\x7d' :: rest => return ([(key, value)], rest)
        | _ => none
      | _ => none
    | _ => none
end

/-- A text, taken apart. -/
def Source.parse? (text : String) : Option Source := do
  let chars := text.toList
  let (source, rest) ← Json.value? (2 * chars.length + 2) chars
  if (skipBlanks rest).isEmpty then return source else none

/-- The value written in a text, with at most `room` arrays and objects inside one another. -/
def parseWithin (room : Nat) (text : String) : Option Json :=
  (Source.parse? text).bind (·.value? room)

end GraphRead.Json
