import GraphRead.Decimal.Layout
import GraphRead.Json.Basic
import GraphRead.Text.Lines

/-!
# Writing JSON

Two forms of the same values: a compact one without blanks, and a pretty one
that gives every item and entry a line of its own.
-/

namespace GraphRead.Json

/-- Numbers are positional from `0.00001` up to sixteen digits before the point, and otherwise
scientific with the sign of the exponent always written. -/
def numberLayout : Decimal.Layout := ⟨-5, 15, "+"⟩

/-- A number as text. -/
def Number.write : Number → String
  | .integer value => toString value
  | .binary value => numberLayout.write value

/-- A hexadecimal digit in lower case. -/
def hexDigit (n : Nat) : Char :=
  if n < 10 then Char.ofNat ('0'.toNat + n) else Char.ofNat ('a'.toNat + (n - 10))

/-- A character inside a string: quotes, backslashes and control characters are escaped. -/
def escapeChar (c : Char) : List Char :=
  if c = '\x22' then ['\\', '\x22']
  else if c = '\\' then ['\\', '\\']
  else if c = '\x08' then ['\\', 'b']
  else if c = '\x0c' then ['\\', 'f']
  else if c = '\n' then ['\\', 'n']
  else if c = '\r' then ['\\', 'r']
  else if c = '\t' then ['\\', 't']
  else if c.toNat < 32 then
    ['\\', 'u', '0', '0', hexDigit (c.toNat / 16), hexDigit (c.toNat % 16)]
  else [c]

/-- A string in quotes. -/
def quote (text : String) : String :=
  String.ofList ('\x22' :: text.toList.flatMap escapeChar ++ ['\x22'])

mutual
/-- A value in the compact form. -/
def compact : Json → String
  | .null => "null"
  | .bool true => "true"
  | .bool false => "false"
  | .number value => value.write
  | .string value => quote value
  | .array items => "[" ++ Text.join "," (compactItems items) ++ "]"
  | .object entries => "\x7b" ++ Text.join "," (compactEntries entries) ++ "\x7d"
termination_by structural value => value

/-- The items in the compact form. -/
def compactItems : List Json → List String
  | [] => []
  | item :: items => compact item :: compactItems items
termination_by structural items => items

/-- The entries in the compact form. -/
def compactEntries : List (String × Json) → List String
  | [] => []
  | (key, value) :: rest => (quote key ++ ":" ++ compact value) :: compactEntries rest
termination_by structural rest => rest
end

/-- A container over several lines: its parts one per line and two blanks further in. -/
def spread (level : Nat) (opening closing : String) (parts : List String) : String :=
  let pad := String.ofList (List.replicate (2 * level) ' ')
  match parts with
  | [] => opening ++ closing
  | _ =>
    opening ++ "\n" ++ Text.join ",\n" (parts.map fun part => pad ++ "  " ++ part) ++ "\n" ++ pad
      ++ closing

mutual
/-- A value in the pretty form, inside `level` containers. -/
def prettyAt (level : Nat) : Json → String
  | .null => "null"
  | .bool true => "true"
  | .bool false => "false"
  | .number value => value.write
  | .string value => quote value
  | .array items => spread level "[" "]" (prettyItems (level + 1) items)
  | .object entries => spread level "\x7b" "\x7d" (prettyEntries (level + 1) entries)
termination_by structural value => value

/-- The items in the pretty form. -/
def prettyItems (level : Nat) : List Json → List String
  | [] => []
  | item :: items => prettyAt level item :: prettyItems level items
termination_by structural items => items

/-- The entries in the pretty form. -/
def prettyEntries (level : Nat) : List (String × Json) → List String
  | [] => []
  | (key, value) :: rest =>
    (quote key ++ ": " ++ prettyAt level value) :: prettyEntries level rest
termination_by structural rest => rest
end

/-- A value in the pretty form. -/
def pretty (value : Json) : String := prettyAt 0 value

end GraphRead.Json
