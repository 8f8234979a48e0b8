import GraphRead.Json.Printer

/-!
# Literals

Values written into the text of a query. Strings stand between single quotes,
lists between brackets; numbers, truth values and maps are written as in JSON.
-/

namespace GraphRead.Literal

/-- A character inside a string literal. -/
def escapeChar (c : Char) : List Char :=
  if c = '\\' then ['\\', '\\'] else if c = '\x27' then ['\\', '\x27'] else [c]

/-- A string literal. -/
def quote (text : String) : String := "'" ++ String.ofList (text.toList.flatMap escapeChar) ++ "'"

mutual
/-- A value as a literal. -/
def write : Json → String
  | .null => "NULL"
  | .string text => quote text
  | .array items => "[" ++ Text.join ", " (writeAll items) ++ "]"
  | .bool value => Json.compact (.bool value)
  | .number value => Json.compact (.number value)
  | .object entries => Json.compact (.object entries)
termination_by structural value => value

/-- Values as literals. -/
def writeAll : List Json → List String
  | [] => []
  | item :: items => write item :: writeAll items
termination_by structural items => items
end

end GraphRead.Literal
