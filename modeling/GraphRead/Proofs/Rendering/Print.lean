import GraphRead.Proofs.Rendering.Trace

/-!
# Printing under a fixed naming

A second way from query trees to texts, without a context: every variable,
parameter and page has its name beforehand, and the text of a tree is put
together from the texts of its parts. What is printed is a fragment, which
remembers what it refers to by name, so that a part that is left out takes its
references with it. Pages have no identity; they are numbered as they stand in
the tree, from the left.
-/

namespace GraphRead

open Event (pages)

/-- What a text refers to by a name. -/
inductive Handle where
  | var (v : Variable)
  | param (p : Param)
  /-- The number of rows to skip or to keep, at the given place among all pages. -/
  | page (number : Nat) (count : UInt64)
deriving DecidableEq

/-- A name for everything that can be referred to. -/
structure Naming where
  var : Variable → String
  param : Param → String
  page : Nat → String

/-- The name of a handle. A fixed name goes before a chosen one. -/
def Naming.name (naming : Naming) : Handle → String
  | .var v => v.name.getD (naming.var v)
  | .param p => naming.param p
  | .page number _ => naming.page number

/-- A text with the handles that it refers to, in the order of the text. -/
structure Fragment where
  text : String
  handles : List Handle

namespace Fragment

/-- A text that refers to nothing. -/
def words (text : String) : Fragment := ⟨text, []⟩

/-- One fragment after another. -/
def append (before after : Fragment) : Fragment :=
  ⟨before.text ++ after.text, before.handles ++ after.handles⟩

instance : Append Fragment := ⟨append⟩

/-- Fragments whose texts are put together to one. -/
def assemble (texts : List String → String) (parts : List Fragment) : Fragment :=
  ⟨texts (parts.map text), parts.flatMap handles⟩

/-- The fragment of a variable. -/
def ofVariable (naming : Naming) (v : Variable) : Fragment := ⟨naming.name (.var v), [.var v]⟩

/-- The fragment of a parameter. -/
def ofParam (naming : Naming) (p : Param) : Fragment := ⟨"$" ++ naming.name (.param p), [.param p]⟩

/-- The fragment of a page. -/
def ofPage (naming : Naming) (number : Nat) (count : UInt64) : Fragment :=
  ⟨"$" ++ naming.name (.page number count), [.page number count]⟩

/-- The junction of fragments: none of nothing, a single one as it is, and otherwise all of them in
parentheses. -/
def junction (keyword : String) : List Fragment → Option Fragment
  | [] => none
  | [part] => some part
  | parts => some (words "(" ++ assemble (Text.join (" " ++ keyword ++ " ")) parts ++ words ")")

/-- A block of lines between braces. -/
def block (width : Nat) (head : String) (body : Fragment) : Fragment :=
  ⟨head ++ " \x7b\n" ++ Text.indent body.text width ++ "\n\x7d", body.handles⟩

/-- A clause followed by the clauses that belong to it. -/
def stacked (head : Fragment) (clauses : List Fragment) : Fragment :=
  assemble (Text.join "\n") (head :: clauses)

/-- A subquery with what it imports. -/
def importing (names : List Fragment) (body : Fragment) : Fragment :=
  match names with
  | [] => body
  | _ => words "WITH " ++ assemble (Text.join ", ") names ++ words "\n" ++ body

/-- The text of stacked fragments. -/
@[simp]
theorem text_stacked (head : Fragment) (clauses : List Fragment) :
    (stacked head clauses).text = GraphRead.stacked head.text (clauses.map text) := rfl

/-- The text of words. -/
@[simp]
theorem text_words (text : String) : (words text).text = text := rfl

/-- The text of fragments in a row. -/
@[simp]
theorem text_append (before after : Fragment) :
    (before ++ after).text = before.text ++ after.text := rfl

/-- The text of assembled fragments. -/
@[simp]
theorem text_assemble (texts : List String → String) (parts : List Fragment) :
    (assemble texts parts).text = texts (parts.map text) := rfl

/-- A variable is printed as its name. -/
@[simp]
theorem text_ofVariable (naming : Naming) (v : Variable) :
    (ofVariable naming v).text = naming.name (.var v) := rfl

/-- A parameter is printed as its name with a sign before it. -/
@[simp]
theorem text_ofParam (naming : Naming) (p : Param) :
    (ofParam naming p).text = "$" ++ naming.name (.param p) := rfl

/-- A page is printed as its name with a sign before it. -/
@[simp]
theorem text_ofPage (naming : Naming) (number : Nat) (count : UInt64) :
    (ofPage naming number count).text = "$" ++ naming.name (.page number count) := rfl

/-- The text of a junction is the junction of the texts, if there are any. -/
@[simp]
theorem map_text_junction (keyword : String) (parts : List Fragment) :
    (junction keyword parts).map text = GraphRead.junction keyword (parts.map text) := by
  match parts with
  | [] => rfl
  | [_] => rfl
  | _ :: _ :: _ => rfl

/-- The text of a subquery with what it imports. -/
@[simp]
theorem text_importing (names : List Fragment) (body : Fragment) :
    (importing names body).text = GraphRead.importing (names.map text) body.text := by
  cases names <;> rfl

end Fragment

open Fragment (words assemble ofVariable ofParam ofPage)

/-- Prints the properties that a node has to have. -/
def NodePattern.printProperties (naming : Naming) (properties : List (String × Param)) :
    List Fragment :=
  properties.map fun (key, p) => words (Identifier.escape key ++ ": ") ++ ofParam naming p

/-- Prints a variable that may be missing. -/
def optionalFragment (naming : Naming) : Option Variable → Fragment
  | none => words ""
  | some v => ofVariable naming v

/-- Prints a node of a pattern. -/
def NodePattern.print (naming : Naming) (node : NodePattern) : Fragment :=
  let labels := String.join (node.labels.map fun label => ":" ++ Identifier.escape label)
  let properties := printProperties naming node.properties
  let tail := if properties.isEmpty then words "" else words " " ++ assemble braces properties
  words "(" ++ optionalFragment naming node.bound ++ words labels ++ tail ++ words ")"

/-- The text of a node is made from the texts of its properties. -/
theorem NodePattern.text_print (naming : Naming) (node : NodePattern) :
    (node.print naming).text =
      let properties := (printProperties naming node.properties).map Fragment.text
      "(" ++ (optionalFragment naming node.bound).text
        ++ String.join (node.labels.map fun label => ":" ++ Identifier.escape label)
        ++ (if properties.isEmpty then "" else " " ++ braces properties) ++ ")" := by
  cases hnone : (printProperties naming node.properties).isEmpty <;>
    simp [NodePattern.print, hnone]

/-- Prints a relationship of a pattern. -/
def RelationshipPattern.print (naming : Naming) (relationship : RelationshipPattern) : Fragment :=
  let type := (relationship.type.map fun type => ":" ++ Identifier.escape type).getD ""
  let inner := words "[" ++ optionalFragment naming relationship.bound ++ words type ++ words "]"
  match relationship.direction with
  | .outgoing => words "-" ++ inner ++ words "->"
  | .incoming => words "<-" ++ inner ++ words "-"
  | .undirected => words "-" ++ inner ++ words "-"

/-- Prints the steps of a pattern. -/
def Pattern.printHops (naming : Naming) : List (RelationshipPattern × NodePattern) → Fragment
  | [] => words ""
  | (relationship, node) :: rest =>
    relationship.print naming ++ node.print naming ++ printHops naming rest

/-- Prints a pattern. -/
def Pattern.print (naming : Naming) (pattern : Pattern) : Fragment :=
  pattern.start.print naming ++ printHops naming pattern.hops

/-- Prints the alias of an item. A variable that keeps its name needs none. -/
def Item.printAlias (naming : Naming) : Item → Fragment
  | .plain _ => words ""
  | .named _ newName => words " AS " ++ words (Identifier.escape newName)
  | .aliased (.var v) newName =>
    if v = newName then words "" else words " AS " ++ ofVariable naming newName
  | .aliased _ newName => words " AS " ++ ofVariable naming newName

mutual
/-- Prints an expression that has `first` pages before it. -/
def Expr.print (width : Nat) (naming : Naming) (first : Nat) : Expr → Fragment
  | .var v => ofVariable naming v
  | .property v path =>
    ofVariable naming v ++ words (String.join (path.map fun key => "." ++ Identifier.escape key))
  | .param p => ofParam naming p
  | .literal value => words (Literal.write value)
  | .apply function arguments =>
    words (function ++ "(")
      ++ assemble (Text.join ", ") (Expr.printAll width naming first arguments) ++ words ")"
  | .list items =>
    words "[" ++ assemble (Text.join ", ") (Expr.printAll width naming first items) ++ words "]"
  | .map entries => assemble braces (Expr.printEntries width naming first entries)
  | .project v entries =>
    ofVariable naming v ++ words " "
      ++ assemble braces (MapEntry.printAll width naming first entries)
  | .comprehend pattern filter result =>
    let condition := Predicate.printOptional width naming first filter
    let result := result.print width naming (first + pages (Predicate.eventsOptional filter))
    match condition with
    | some condition =>
      words "[" ++ pattern.print naming ++ words " WHERE " ++ condition ++ words " | " ++ result
        ++ words "]"
    | none => words "[" ++ pattern.print naming ++ words " | " ++ result ++ words "]"
termination_by structural e => e

/-- Prints expressions. -/
def Expr.printAll (width : Nat) (naming : Naming) (first : Nat) : List Expr → List Fragment
  | [] => []
  | e :: rest =>
    e.print width naming first :: Expr.printAll width naming (first + pages e.events) rest
termination_by structural es => es

/-- Prints the entries of a map. -/
def Expr.printEntries (width : Nat) (naming : Naming) (first : Nat) :
    List (String × Expr) → List Fragment
  | [] => []
  | (key, e) :: rest =>
    (words (Identifier.escape key ++ ": ") ++ e.print width naming first)
      :: Expr.printEntries width naming (first + pages e.events) rest
termination_by structural es => es

/-- Prints the entries of a map made from a variable. -/
def MapEntry.printAll (width : Nat) (naming : Naming) (first : Nat) :
    List MapEntry → List Fragment
  | [] => []
  | .stored key :: rest =>
    words ("." ++ Identifier.escape key) :: MapEntry.printAll width naming first rest
  | .computed key e :: rest =>
    (words (Identifier.escape key ++ ": ") ++ e.print width naming first)
      :: MapEntry.printAll width naming (first + pages e.events) rest
termination_by structural es => es

/-- Prints a predicate, if there is something to say. -/
def Predicate.print (width : Nat) (naming : Naming) (first : Nat) : Predicate → Option Fragment
  | .compare comparison left right =>
    let before := left.print width naming first ++ words " " ++ words comparison.symbol
    if comparison.isUnary then some before
    else some (before ++ Expr.printOptional width naming (first + pages left.events) right)
  | .all parts => Fragment.junction "AND" (Predicate.printAll width naming first parts)
  | .any parts => Fragment.junction "OR" (Predicate.printAll width naming first parts)
  | .not part =>
    (part.print width naming first).map fun printed =>
      { printed with text := negated part printed.text }
  | .exist body => some (Fragment.block width "EXISTS" (body.print width naming first))
  | .single v list filter =>
    let condition := Predicate.printOptional width naming (first + pages list.events) filter
    some (words "single(" ++ ofVariable naming v ++ words " IN " ++ list.print width naming first
      ++ words " WHERE " ++ condition.getD (words "true") ++ words ")")
termination_by structural p => p

/-- Prints the right side of a comparison, with the blank before it. -/
def Expr.printOptional (width : Nat) (naming : Naming) (first : Nat) : Option Expr → Fragment
  | none => words ""
  | some e => words " " ++ e.print width naming first
termination_by structural e => e

/-- Prints a predicate that may be missing. -/
def Predicate.printOptional (width : Nat) (naming : Naming) (first : Nat) :
    Option Predicate → Option Fragment
  | none => none
  | some p => p.print width naming first
termination_by structural p => p

/-- Prints the predicates that have something to say. -/
def Predicate.printAll (width : Nat) (naming : Naming) (first : Nat) :
    List Predicate → List Fragment
  | [] => []
  | p :: rest =>
    (p.print width naming first).toList
      ++ Predicate.printAll width naming (first + pages p.events) rest
termination_by structural ps => ps

/-- Prints the items of a projection. -/
def Item.printAll (width : Nat) (naming : Naming) (clause : ReadingClause) (first : Nat) :
    List Item → List Fragment
  | [] => []
  | item :: rest =>
    item.print width naming first
      :: Item.printAll width naming clause (first + pages (item.events clause)) rest
termination_by structural items => items

/-- Prints an item of a projection. -/
def Item.print (width : Nat) (naming : Naming) (first : Nat) : Item → Fragment
  | .plain e => e.print width naming first ++ Item.printAlias naming (.plain e)
  | .aliased e newName =>
    e.print width naming first ++ Item.printAlias naming (.aliased e newName)
  | .named e newName => e.print width naming first ++ Item.printAlias naming (.named e newName)
termination_by structural item => item

/-- Prints the keys of a sort. -/
def Statement.printKeys (width : Nat) (naming : Naming) (first : Nat) :
    List (Expr × SortDirection) → List Fragment
  | [] => []
  | (e, direction) :: rest =>
    (e.print width naming first ++ words " " ++ words direction.keyword)
      :: Statement.printKeys width naming (first + pages e.events) rest
termination_by structural keys => keys

/-- Prints a statement. -/
def Statement.print (width : Nat) (naming : Naming) (first : Nat) : Statement → Fragment
  | .matching optional pattern clauses =>
    Fragment.stacked
      (words (if optional then "OPTIONAL MATCH " else "MATCH ") ++ pattern.print naming)
      (Statement.printAll width naming first clauses)
  | .filtering parts =>
    ((Fragment.junction "AND" (Predicate.printAll width naming first parts)).map
      (words "WHERE " ++ ·)).getD (words "")
  | .returning distinct items =>
    words (withDistinct "RETURN" distinct ++ " ")
      ++ assemble (Text.join ", ") (Item.printAll width naming .returning first items)
  | .calling body imports _ clauses =>
    Fragment.stacked
      (Fragment.block width "CALL"
        (Fragment.importing (imports.map (ofVariable naming)) (body.print width naming first)))
      (Statement.printAll width naming (first + pages body.events) clauses)
  | .passing distinct items clauses =>
    let head := words (withDistinct "WITH" distinct ++ " ")
      ++ assemble (Text.join ", ") (Item.printAll width naming .passing first items)
    Fragment.stacked head (Statement.printAll width naming
      (first + pages (Item.eventsAll .passing items)) clauses)
  | .passingAll distinct clauses =>
    Fragment.stacked (words (withDistinct "WITH" distinct ++ " *"))
      (Statement.printAll width naming first clauses)
  | .ordering keys =>
    let printed := Statement.printKeys width naming first keys
    if printed.isEmpty then words ""
    else words "ORDER BY " ++ assemble (Text.join ", ") printed
  | .skipping count => words "SKIP " ++ ofPage naming first count
  | .limiting count => words "LIMIT " ++ ofPage naming first count
termination_by structural s => s

/-- Prints clauses, without those that have nothing to say. -/
def Statement.printAll (width : Nat) (naming : Naming) (first : Nat) :
    List Statement → List Fragment
  | [] => []
  | s :: rest =>
    let printed := s.print width naming first
    let others := Statement.printAll width naming (first + pages s.events) rest
    if printed.text.isEmpty then others else printed :: others
termination_by structural ss => ss
end

namespace Statement

variable (width : Nat) (naming : Naming) (first : Nat)

/-- The text of a condition is made from the texts of its parts. -/
theorem text_print_filtering (parts : List Predicate) :
    (Statement.print width naming first (.filtering parts)).text =
      ((junction "AND" ((Predicate.printAll width naming first parts).map Fragment.text)).map
        ("WHERE " ++ ·)).getD "" := by
  rw [← Fragment.map_text_junction, Statement.print]
  cases Fragment.junction "AND" (Predicate.printAll width naming first parts) <;> rfl

/-- The text of a sort is made from the texts of its keys. -/
theorem text_print_ordering (keys : List (Expr × SortDirection)) :
    (Statement.print width naming first (.ordering keys)).text =
      let texts := (printKeys width naming first keys).map Fragment.text
      if texts.isEmpty then "" else "ORDER BY " ++ Text.join ", " texts := by
  simp only [Statement.print, List.isEmpty_map]
  split <;> rfl

end Statement

end GraphRead
