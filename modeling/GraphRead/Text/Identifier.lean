/-!
# Identifiers

A plain identifier is a letter or an underscore followed by letters, digits and
underscores, all of them ASCII. A query writes a plain identifier as it is and
every other name between backticks, with the backticks inside it doubled.
-/

namespace GraphRead.Identifier

/-- The characters that may open a plain identifier. -/
def isStart (c : Char) : Bool := c.isAlpha || c == '_'

/-- The characters that may follow in a plain identifier. -/
def isPart (c : Char) : Bool := c.isAlphanum || c == '_'

/-- Whether the characters form a plain identifier. -/
def isPlainChars : List Char → Bool
  | [] => false
  | c :: rest => isStart c && rest.all isPart

/-- Whether a name can be written without quoting. -/
def isPlain (name : String) : Bool := isPlainChars name.toList

/-- The characters with every backtick written twice. -/
def doubled (chars : List Char) : List Char :=
  chars.flatMap fun c => if c = '\x60' then ['\x60', '\x60'] else [c]

/-- A name as a query writes it: plain names as they are, others quoted. -/
def escape (name : String) : String :=
  if isPlain name then name else "`" ++ String.ofList (doubled name.toList) ++ "`"

end GraphRead.Identifier
