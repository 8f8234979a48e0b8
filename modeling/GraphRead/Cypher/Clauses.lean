import GraphRead.Cypher.Tree

/-!
# Clauses under construction

The clauses that belong to a statement are added one by one. They have at most one
condition, whose position is remembered; a further condition is merged into it.
-/

namespace GraphRead

/-- The parts of a condition with a further one. If it has nothing to say, nothing is added. -/
def Condition.addTo (present : List Predicate) (c : Condition) : List Predicate :=
  present ++ c.predicate?.toList

/-- The statement with further parts, if it is a condition. -/
def Statement.withParts (parts : List Predicate) : Statement → Statement
  | filtering present => filtering (present ++ parts)
  | clause => clause

/-- The clauses of a statement that is being put together. -/
structure Clauses where
  children : List Statement
  /-- The position of the condition, once there is one. -/
  conditionIndex : Option Nat

namespace Clauses

/-- No clause has been added. -/
def empty : Clauses := ⟨[], none⟩

/-- The clauses with one more. A condition is merged into the one that is already there. -/
def push (clauses : Clauses) : Statement → Clauses
  | .filtering parts =>
    match clauses.conditionIndex with
    | some index => { clauses with children := clauses.children.modify index (.withParts parts) }
    | none => ⟨clauses.children ++ [.filtering parts], some clauses.children.length⟩
  | clause => { clauses with children := clauses.children ++ [clause] }

/-- The clauses with a further condition. -/
def andWhere (clauses : Clauses) (condition : Condition) : Clauses :=
  clauses.push (.condition condition)

end Clauses

end GraphRead
