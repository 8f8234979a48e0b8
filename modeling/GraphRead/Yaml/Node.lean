import GraphRead.Document
import GraphRead.Yaml.Scalar

/-!
# YAML nodes

The values of a YAML document: scalars, lists and maps. A scalar keeps its text
and whether it was written without quotes, since only an unquoted scalar can
stand for an absent value, a truth value or a count. Records are read part by
part, and only so deep; what belongs to unknown keys does not count.
-/

namespace GraphRead

/-- A node of a YAML document. -/
inductive Yaml where
  | scalar (plain : Bool) (text : String)
  | list (items : List Yaml)
  | map (entries : List (Yaml × Yaml))
deriving Repr, Inhabited

namespace Yaml

/-- The node of a place where nothing was written. -/
def nothing : Yaml := .scalar true ""

mutual
/-- How deeply lists and maps are nested in a node. -/
def depth : Yaml → Nat
  | .scalar _ _ => 0
  | .list items => depthItems items + 1
  | .map entries => depthEntries entries + 1
termination_by structural node => node

/-- The greatest depth among the items. -/
def depthItems : List Yaml → Nat
  | [] => 0
  | item :: items => max (depth item) (depthItems items)
termination_by structural items => items

/-- The greatest depth among the values of the entries. -/
def depthEntries : List (Yaml × Yaml) → Nat
  | [] => 0
  | (_, value) :: rest => max (depth value) (depthEntries rest)
termination_by structural rest => rest
end

/-- The entries of a map whose keys are all scalars. -/
def textKeys? (entries : List (Yaml × Yaml)) : Option (List (String × Yaml)) :=
  entries.mapM fun (key, value) =>
    match key with
    | .scalar _ text => some (text, value)
    | _ => none

/-- Whether an unquoted scalar stands for an absent value. -/
def isAbsentText (text : String) : Bool := text ∈ ["", "~", "null", "Null", "NULL"]

/-- The truth value of an unquoted scalar. -/
def flagOf? (text : String) : Option Bool :=
  if text ∈ ["true", "True", "TRUE"] then some true
  else if text ∈ ["false", "False", "FALSE"] then some false
  else none

/-- The digits of a number in a base, added to what was read before them. -/
def digitsIn? (base soFar : Nat) : List Char → Option Nat
  | [] => if soFar < countBound then some soFar else none
  | c :: rest => do
    let digit ← digitOf? c
    if digit < base then digitsIn? base (soFar * base + digit) rest else none

/-- A number in a base, which has at least one digit. -/
def numberIn? (base : Nat) (digits : List Char) : Option Nat :=
  if digits.isEmpty then none else digitsIn? base 0 digits

/-- A decimal number, without zeros in front. -/
def decimal? (digits : List Char) : Option Nat :=
  match digits with
  | '0' :: _ :: _ => if digits.all Char.isDigit then none else numberIn? 10 digits
  | _ => numberIn? 10 digits

/-- The count of an unquoted scalar, in base ten, sixteen, eight or two. -/
def countOf? (text : String) : Option Nat :=
  let digits :=
    match text.toList with
    | '+' :: rest => rest
    | digits => digits
  match digits with
  | '0' :: 'x' :: rest => numberIn? 16 rest
  | '0' :: 'o' :: rest => numberIn? 8 rest
  | '0' :: 'b' :: rest => numberIn? 2 rest
  | _ => decimal? digits

/-- A part of a document, with the number of lists and maps that may still be opened in it. -/
structure Part where
  node : Yaml
  room : Nat
deriving Repr

/-- The deepest nesting of lists and maps that is read. -/
def maxDepth : Nat := 128

/-- A whole document as a part of itself. -/
def whole (node : Yaml) : Part := ⟨node, maxDepth⟩

/-- The entries of a map, if it may still be opened. -/
def Part.entries? : Part → Option (List (String × Part))
  | ⟨.map entries, room + 1⟩ =>
    (textKeys? entries).map (·.map fun (key, value) => (key, ⟨value, room⟩))
  | ⟨.scalar true "", _⟩ => some []
  | _ => none

/-- The items of a list, if it may still be opened. -/
def Part.items? : Part → Option (List Part)
  | ⟨.list items, room + 1⟩ => some (items.map (⟨·, room⟩))
  | ⟨.scalar true "", _⟩ => some []
  | _ => none

/-- The text of a scalar. -/
def Part.text? : Part → Option String
  | ⟨.scalar _ text, _⟩ => some text
  | _ => none

/-- The text of an unquoted scalar. -/
def Part.plainText? : Part → Option String
  | ⟨.scalar true text, _⟩ => some text
  | _ => none

/-- YAML records are maps with scalar keys. Where nothing was written there is a record without
fields or a list without items. -/
instance : Document Part where
  record? known part := part.entries?.bind (Document.keyed known)
  list? := Part.items?
  text? := Part.text?
  flag? part := part.plainText?.bind flagOf?
  count? part := part.plainText?.bind countOf?
  name? := Part.text?
  isAbsent part := part.plainText?.any isAbsentText
  depth part := part.node.depth

end Yaml

end GraphRead
