import GraphRead.Cypher.Pattern

/-!
# Query trees

Expressions, predicates and statements of a query, before any name is chosen.
A clause that belongs to another one is kept in that one's list of clauses; a
list holds at most one condition if it is built by `push`.
-/

namespace GraphRead

/-- How two expressions are compared, or one is tested. -/
inductive Comparison where
  | equal
  | less
  | lessOrEqual
  | greater
  | greaterOrEqual
  | within
  | contains
  | startsWith
  | endsWith
  | matching
  | isNull
  | isNotNull
deriving DecidableEq, Repr

namespace Comparison

/-- All comparisons. -/
def all : List Comparison :=
  [equal, less, lessOrEqual, greater, greaterOrEqual, within, contains, startsWith, endsWith,
    matching, isNull, isNotNull]

/-- The symbol of a comparison in a query. -/
def symbol : Comparison → String
  | equal => "="
  | less => "<"
  | lessOrEqual => "<="
  | greater => ">"
  | greaterOrEqual => ">="
  | within => "IN"
  | contains => "CONTAINS"
  | startsWith => "STARTS WITH"
  | endsWith => "ENDS WITH"
  | matching => "=~"
  | isNull => "IS NULL"
  | isNotNull => "IS NOT NULL"

/-- The comparison of a symbol. -/
def ofSymbol? (text : String) : Option Comparison := all.find? (·.symbol = text)

/-- Whether a comparison tests a single expression. -/
def isUnary : Comparison → Bool
  | isNull | isNotNull => true
  | _ => false

end Comparison

/-- The direction of a sort. -/
inductive SortDirection where
  | ascending
  | descending
deriving DecidableEq, Repr

/-- The keyword of a sort direction. -/
def SortDirection.keyword : SortDirection → String
  | ascending => "ASC"
  | descending => "DESC"

/-- The sort direction of a keyword. -/
def SortDirection.ofKeyword? : String → Option SortDirection
  | "ASC" => some ascending
  | "DESC" => some descending
  | _ => none

mutual
/-- An expression. -/
inductive Expr where
  | var (v : Variable)
  /-- A property of a variable, or of a map below it. -/
  | property (v : Variable) (path : List String)
  | param (p : Param)
  /-- A value written into the text of the query. -/
  | literal (value : Json)
  | apply (function : String) (arguments : List Expr)
  | list (items : List Expr)
  | map (entries : List (String × Expr))
  /-- A map made from a variable. -/
  | project (v : Variable) (entries : List MapEntry)
  /-- The results of an expression over the matches of a pattern. -/
  | comprehend (pattern : Pattern) (filter : Option Predicate) (result : Expr)

/-- An entry of a map made from a variable: one of its properties, or a computed value. -/
inductive MapEntry where
  | stored (key : String)
  | computed (key : String) (value : Expr)

/-- A condition. -/
inductive Predicate where
  | compare (comparison : Comparison) (left : Expr) (right : Option Expr)
  | all (parts : List Predicate)
  | any (parts : List Predicate)
  | not (part : Predicate)
  /-- A statement has a result. -/
  | exist (body : Statement)
  /-- Exactly one item of a list satisfies a condition. -/
  | single (v : Variable) (list : Expr) (filter : Option Predicate)

/-- An expression of a projection, with the name it gets. -/
inductive Item where
  | plain (expr : Expr)
  | aliased (expr : Expr) (newName : Variable)
  | named (expr : Expr) (newName : String)

/-- A statement, which is a clause together with the clauses that belong to it. -/
inductive Statement where
  | matching (optional : Bool) (pattern : Pattern) (clauses : List Statement)
  /-- A condition, in parts that all have to hold. -/
  | filtering (parts : List Predicate)
  | returning (distinct : Bool) (items : List Item)
  /-- A subquery that sees only its imports. -/
  | calling (body : Statement) (imports : List Variable) (base : Option String)
      (clauses : List Statement)
  /-- Only the items are passed on. -/
  | passing (distinct : Bool) (items : List Item) (clauses : List Statement)
  /-- Everything is passed on. -/
  | passingAll (distinct : Bool) (clauses : List Statement)
  | ordering (keys : List (Expr × SortDirection))
  | skipping (count : UInt64)
  | limiting (count : UInt64)
end

namespace Item

/-- The expression of an item. -/
def expr : Item → Expr
  | plain e | aliased e _ | named e _ => e

/-- The variable that an item makes known: its alias, or the variable that it passes on. -/
def introduced? : Item → Option Variable
  | aliased _ newName => some newName
  | plain (.var v) => some v
  | _ => none

end Item

namespace Predicate

/-- The parts that are there, if any: a single part stands for itself. -/
def combine (wrap : List Predicate → Predicate) (parts : List (Option Predicate)) :
    Option Predicate :=
  match parts.filterMap id with
  | [] => none
  | [part] => some part
  | parts => some (wrap parts)

/-- All of the parts that are there. -/
def allOf (parts : List (Option Predicate)) : Option Predicate := combine all parts

/-- Any of the parts that are there. -/
def anyOf (parts : List (Option Predicate)) : Option Predicate := combine any parts

/-- A comparison of two expressions. -/
def binary (comparison : Comparison) (left right : Expr) : Predicate :=
  compare comparison left (some right)

/-- The expression has no value. -/
def isNull (e : Expr) : Predicate := compare .isNull e none

/-- The expression has a value. -/
def isNotNull (e : Expr) : Predicate := compare .isNotNull e none

end Predicate

/-- What a condition is made of. -/
inductive Condition where
  | predicate (predicate : Option Predicate)
  /-- Properties of a variable have the values of parameters. -/
  | equalities (v : Variable) (values : List (String × Param))

/-- The predicate of a condition. -/
def Condition.predicate? : Condition → Option Predicate
  | predicate p => p
  | equalities v values =>
    Predicate.allOf <| values.map fun (key, param) =>
      some (.binary .equal (.property v [key]) (.param param))

namespace Statement

/-- A condition as a statement. -/
def condition (c : Condition) : Statement := filtering c.predicate?.toList

/-- The condition that all parts of a condition make together. -/
def together (parts : List Predicate) : Option Predicate := Predicate.allOf (parts.map some)

/-- Returns a variable, or a map of some of its properties. -/
def returningFields (distinct : Bool) (v : Variable) (fields : List String)
    (newName : Option Variable) : Statement :=
  let result : Expr := if fields.isEmpty then .var v else .project v (fields.map .stored)
  match newName with
  | some newName => returning distinct [.aliased result newName]
  | none => returning distinct [.plain result]

/-- The clauses with further parts for their condition, if they have one. -/
def addToCondition (parts : List Predicate) : List Statement → Option (List Statement)
  | [] => none
  | filtering present :: rest => some (filtering (present ++ parts) :: rest)
  | clause :: rest => (addToCondition parts rest).map (clause :: ·)

/-- The clauses with one more. A condition joins the one that is already there. -/
def push (clauses : List Statement) : Statement → List Statement
  | filtering parts => (addToCondition parts clauses).getD (clauses ++ [filtering parts])
  | clause => clauses ++ [clause]

end Statement

mutual
/-- The variables that an expression reads, with repetitions. What a comprehension reads is its
own affair. -/
def Expr.reads : Expr → List Variable
  | .var v => [v]
  | .property v _ => [v]
  | .apply _ arguments => Expr.readsAll arguments
  | .list items => Expr.readsAll items
  | .map entries => Expr.readsEntries entries
  | .project v entries => v :: MapEntry.readsAll entries
  | .param _ => []
  | .literal _ => []
  | .comprehend _ _ _ => []
termination_by structural e => e

/-- The variables that expressions read. -/
def Expr.readsAll : List Expr → List Variable
  | [] => []
  | e :: rest => e.reads ++ Expr.readsAll rest
termination_by structural es => es

/-- The variables that the values of a map read. -/
def Expr.readsEntries : List (String × Expr) → List Variable
  | [] => []
  | (_, e) :: rest => e.reads ++ Expr.readsEntries rest
termination_by structural es => es

/-- The variables that the computed entries of a map read. -/
def MapEntry.readsAll : List MapEntry → List Variable
  | [] => []
  | .stored _ :: rest => MapEntry.readsAll rest
  | .computed _ e :: rest => e.reads ++ MapEntry.readsAll rest
termination_by structural es => es
end

mutual
/-- The variables that a statement returns, without those of the subqueries in it. -/
def Statement.returned : Statement → List Variable
  | .returning _ items => items.filterMap Item.introduced?
  | .matching _ _ clauses => Statement.returnedAll clauses
  | .passing _ _ clauses => Statement.returnedAll clauses
  | .passingAll _ clauses => Statement.returnedAll clauses
  | .calling _ _ _ clauses => Statement.returnedAll clauses
  | .filtering _ => []
  | .ordering _ => []
  | .skipping _ => []
  | .limiting _ => []
termination_by structural s => s

/-- The variables that statements return. -/
def Statement.returnedAll : List Statement → List Variable
  | [] => []
  | s :: rest => s.returned ++ Statement.returnedAll rest
termination_by structural ss => ss
end

end GraphRead
