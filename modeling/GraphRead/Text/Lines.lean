/-!
# Lines of text

Splitting a text into its lines, joining pieces with a separator, and indenting
a block. A line ends at a line feed, together with one carriage return directly
before it; a text that ends in a line feed has no further empty line.
-/

namespace GraphRead.Text

/-- The pieces one after another, with the separator between neighbours. -/
def join (separator : String) : List String → String
  | [] => ""
  | [piece] => piece
  | piece :: next :: rest => piece ++ separator ++ join separator (next :: rest)

/-- The lines of a character sequence, without their line ends. -/
def lineChars : List Char → List (List Char)
  | [] => []
  | '\r' :: '\n' :: rest => [] :: lineChars rest
  | '\n' :: rest => [] :: lineChars rest
  | c :: rest =>
    match lineChars rest with
    | [] => [[c]]
    | line :: lines => (c :: line) :: lines

/-- The lines of a text, without their line ends. -/
def lines (text : String) : List String := (lineChars text.toList).map String.ofList

/-- A line moved right by `width` blanks; an empty line stays empty. -/
def indentLine (width : Nat) (line : String) : String :=
  if line.isEmpty then "" else String.ofList (List.replicate width ' ') ++ line

/-- Every line of a block moved right by `width` blanks. -/
def indent (text : String) (width : Nat) : String :=
  join "\n" ((lines text).map (indentLine width))

end GraphRead.Text
