import GraphRead.Cypher.Context
import GraphRead.Cypher.Literal
import GraphRead.Text.Identifier

/-!
# Rendering

Query trees become text. Names are chosen and parameters bound in the order in
which they are first written. A predicate may render to nothing, and a clause
that renders to nothing is left out.
-/

namespace GraphRead

open Context

/-- A map between braces; an empty one keeps its blank. -/
def braces (entries : List String) : String :=
  match entries with
  | [] => "\x7b \x7d"
  | _ => "\x7b " ++ Text.join ", " entries ++ " \x7d"

/-- A block of lines between braces, indented by one level. -/
def block (context : Context) (head body : String) : String :=
  head ++ " \x7b\n" ++ context.indent body ++ "\n\x7d"

/-- A clause followed by the clauses that belong to it, one per line. -/
def stacked (head : String) (clauses : List String) : String := Text.join "\n" (head :: clauses)

/-- The parts of a junction as one text: none of nothing, a single part as it is, and otherwise
all of them in parentheses. -/
def junction (keyword : String) (parts : List String) : Option String :=
  match parts with
  | [] => none
  | [part] => some part
  | _ => some ("(" ++ Text.join (" " ++ keyword ++ " ") parts ++ ")")

/-- Whether the text of a predicate already stands in parentheses. -/
def Predicate.isGrouped (p : Predicate) (text : String) : Bool :=
  match p with
  | .all _ | .any _ => text.toList.head? = some '('
  | _ => false

/-- The negation of a predicate that has a text. -/
def negated (p : Predicate) (text : String) : String :=
  if p.isGrouped text then "NOT " ++ text else "NOT (" ++ text ++ ")"

/-- A keyword, with the word for different rows if it is asked for. -/
def withDistinct (keyword : String) (distinct : Bool) : String :=
  if distinct then keyword ++ " DISTINCT" else keyword

/-- A parameter as it is written in a query. -/
def Param.render (p : Param) : Render String := return "$" ++ (← paramName p)

/-- The properties that a node has to have. -/
def NodePattern.renderProperties : List (String × Param) → Render (List String)
  | [] => return []
  | (key, param) :: rest => do
    let text ← param.render
    let texts ← renderProperties rest
    return (Identifier.escape key ++ ": " ++ text) :: texts

/-- The name of a variable that may be missing. -/
def optionalName : Option Variable → Render String
  | none => return ""
  | some v => variableName v

/-- A node of a pattern. -/
def NodePattern.render (node : NodePattern) : Render String := do
  let name ← optionalName node.bound
  let labels := String.join (node.labels.map fun label => ":" ++ Identifier.escape label)
  let properties ← renderProperties node.properties
  let tail := if properties.isEmpty then "" else " " ++ braces properties
  return "(" ++ name ++ labels ++ tail ++ ")"

/-- A relationship of a pattern. -/
def RelationshipPattern.render (relationship : RelationshipPattern) : Render String := do
  let name ← optionalName relationship.bound
  let type := (relationship.type.map fun type => ":" ++ Identifier.escape type).getD ""
  let inner := "[" ++ name ++ type ++ "]"
  match relationship.direction with
  | .outgoing => return "-" ++ inner ++ "->"
  | .incoming => return "<-" ++ inner ++ "-"
  | .undirected => return "-" ++ inner ++ "-"

/-- The relationships of a pattern with the nodes at their other ends. -/
def Pattern.renderHops : List (RelationshipPattern × NodePattern) → Render String
  | [] => return ""
  | (relationship, node) :: rest => do
    let relationshipText ← relationship.render
    let nodeText ← node.render
    let restText ← renderHops rest
    return relationshipText ++ nodeText ++ restText

/-- A pattern. -/
def Pattern.render (pattern : Pattern) : Render String := do
  let start ← pattern.start.render
  let hops ← renderHops pattern.hops
  return start ++ hops

/-- The items of a projection, of which there has to be one. -/
def projection (clause : ReadingClause) (items : List Item) (texts : Render (List String)) :
    Render String :=
  if items.isEmpty then throw (.emptyProjection clause)
  else return Text.join ", " (← texts)

/-- The text of an item with its alias. A variable that keeps its name needs none. -/
def Item.withAlias (item : Item) (text : String) : Render String :=
  match item with
  | .plain _ => return text
  | .named _ newName => return text ++ " AS " ++ Identifier.escape newName
  | .aliased (.var v) newName =>
    if v = newName then return text else return text ++ " AS " ++ (← variableName newName)
  | .aliased _ newName => return text ++ " AS " ++ (← variableName newName)

/-- The base of the names in a subquery: the one asked for, or that of the first import. -/
def callBase (options : RenderOptions) (base : Option String) (imports : List Variable) : String :=
  match base, imports with
  | some base, _ => base
  | none, first :: _ => baseFor options first
  | none, [] => "call"

/-- The text of a subquery with what it imports. -/
def importing (names : List String) (text : String) : String :=
  match names with
  | [] => text
  | _ => "WITH " ++ Text.join ", " names ++ "\n" ++ text

mutual
/-- Renders an expression. -/
def Expr.render : Expr → Render String
  | .var v => variableName v
  | .property v path => do
    let name ← variableName v
    return name ++ String.join (path.map fun key => "." ++ Identifier.escape key)
  | .param p => p.render
  | .literal value => return Literal.write value
  | .apply function arguments => do
    let texts ← Expr.renderAll arguments
    return function ++ "(" ++ Text.join ", " texts ++ ")"
  | .list items => do
    let texts ← Expr.renderAll items
    return "[" ++ Text.join ", " texts ++ "]"
  | .map entries => do
    let texts ← Expr.renderEntries entries
    return braces texts
  | .project v entries => do
    let name ← variableName v
    let texts ← MapEntry.renderAll entries
    return name ++ " " ++ braces texts
  | .comprehend pattern filter result => do
    let patternText ← pattern.render
    let condition ← Predicate.renderOptional filter
    let resultText ← result.render
    match condition with
    | some text => return "[" ++ patternText ++ " WHERE " ++ text ++ " | " ++ resultText ++ "]"
    | none => return "[" ++ patternText ++ " | " ++ resultText ++ "]"
termination_by structural e => e

/-- Renders expressions. -/
def Expr.renderAll : List Expr → Render (List String)
  | [] => return []
  | e :: rest => do
    let text ← e.render
    let texts ← Expr.renderAll rest
    return text :: texts
termination_by structural es => es

/-- Renders the entries of a map. -/
def Expr.renderEntries : List (String × Expr) → Render (List String)
  | [] => return []
  | (key, e) :: rest => do
    let text ← e.render
    let texts ← Expr.renderEntries rest
    return (Identifier.escape key ++ ": " ++ text) :: texts
termination_by structural es => es

/-- Renders the entries of a map made from a variable. -/
def MapEntry.renderAll : List MapEntry → Render (List String)
  | [] => return []
  | .stored key :: rest => do
    let texts ← MapEntry.renderAll rest
    return ("." ++ Identifier.escape key) :: texts
  | .computed key e :: rest => do
    let text ← e.render
    let texts ← MapEntry.renderAll rest
    return (Identifier.escape key ++ ": " ++ text) :: texts
termination_by structural es => es

/-- Renders a predicate, if there is something to say. -/
def Predicate.render : Predicate → Render (Option String)
  | .compare comparison left right => do
    let leftText ← left.render
    if comparison.isUnary then return some (leftText ++ " " ++ comparison.symbol)
    else
      let rightText ← Expr.renderOptional right
      return some (leftText ++ " " ++ comparison.symbol ++ rightText)
  | .all parts => do
    let texts ← Predicate.renderAll parts
    return junction "AND" texts
  | .any parts => do
    let texts ← Predicate.renderAll parts
    return junction "OR" texts
  | .not part => do
    let text ← part.render
    return text.map (negated part)
  | .exist body => do
    let text ← inNested body.render
    return some (block (← get) "EXISTS" text)
  | .single v list filter => do
    let name ← variableName v
    let listText ← list.render
    let condition ← Predicate.renderOptional filter
    return some ("single(" ++ name ++ " IN " ++ listText ++ " WHERE " ++ condition.getD "true"
      ++ ")")
termination_by structural p => p

/-- Renders the right side of a comparison, with the blank before it. -/
def Expr.renderOptional : Option Expr → Render String
  | none => return ""
  | some e => do
    let text ← e.render
    return " " ++ text
termination_by structural e => e

/-- Renders a predicate that may be missing. -/
def Predicate.renderOptional : Option Predicate → Render (Option String)
  | none => return none
  | some p => p.render
termination_by structural p => p

/-- Renders the predicates that have something to say. -/
def Predicate.renderAll : List Predicate → Render (List String)
  | [] => return []
  | p :: rest => do
    let text ← p.render
    let texts ← Predicate.renderAll rest
    return text.toList ++ texts
termination_by structural ps => ps

/-- Renders the items of a projection. -/
def Item.renderAll (clause : ReadingClause) : List Item → Render (List String)
  | [] => return []
  | item :: rest => do
    let text ← item.render clause
    let texts ← Item.renderAll clause rest
    return text :: texts
termination_by structural items => items

/-- Renders an item of a projection, all of whose variables have to be declared. -/
def Item.render (clause : ReadingClause) : Item → Render String
  | .plain e => do
    requireAll clause e.reads
    let text ← e.render
    Item.withAlias (.plain e) text
  | .aliased e newName => do
    requireAll clause e.reads
    let text ← e.render
    Item.withAlias (.aliased e newName) text
  | .named e newName => do
    requireAll clause e.reads
    let text ← e.render
    Item.withAlias (.named e newName) text
termination_by structural item => item

/-- Renders the keys of a sort. -/
def Statement.renderKeys : List (Expr × SortDirection) → Render (List String)
  | [] => return []
  | (e, direction) :: rest => do
    let text ← e.render
    let texts ← Statement.renderKeys rest
    return (text ++ " " ++ direction.keyword) :: texts
termination_by structural keys => keys

/-- Renders a statement. -/
def Statement.render : Statement → Render String
  | .matching optional pattern clauses => do
    declareAll pattern.bound
    let text ← pattern.render
    let texts ← Statement.renderAll clauses
    return stacked ((if optional then "OPTIONAL MATCH " else "MATCH ") ++ text) texts
  | .filtering parts => do
    let texts ← Predicate.renderAll parts
    return ((junction "AND" texts).map ("WHERE " ++ ·)).getD ""
  | .returning distinct items => do
    let text ← projection .returning items (Item.renderAll .returning items)
    return withDistinct "RETURN" distinct ++ " " ++ text
  | .calling body imports base clauses => do
    requireAll .calling imports
    let names ← variableNamesOf imports
    let base := callBase (← get).options base imports
    let text ← inChild base imports body.render
    declareAll body.returned
    let head := block (← get) "CALL" (importing names text)
    let texts ← Statement.renderAll clauses
    return stacked head texts
  | .passing distinct items clauses => do
    let text ← projection .passing items (Item.renderAll .passing items)
    retain (items.filterMap Item.introduced?)
    let texts ← Statement.renderAll clauses
    return stacked (withDistinct "WITH" distinct ++ " " ++ text) texts
  | .passingAll distinct clauses => do
    let texts ← Statement.renderAll clauses
    return stacked (withDistinct "WITH" distinct ++ " *") texts
  | .ordering keys => do
    let texts ← Statement.renderKeys keys
    return if texts.isEmpty then "" else "ORDER BY " ++ Text.join ", " texts
  | .skipping count => return "SKIP $" ++ (← bindValue (.ofNat count.toNat))
  | .limiting count => return "LIMIT $" ++ (← bindValue (.ofNat count.toNat))
termination_by structural s => s

/-- Renders clauses, without those that have nothing to say. -/
def Statement.renderAll : List Statement → Render (List String)
  | [] => return []
  | s :: rest => do
    let text ← s.render
    let texts ← Statement.renderAll rest
    return if text.isEmpty then texts else text :: texts
termination_by structural ss => ss
end

end GraphRead
