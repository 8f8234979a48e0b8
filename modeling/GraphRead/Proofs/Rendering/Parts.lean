import GraphRead.Cypher.Tree
import Mathlib.Data.List.Basic

/-!
# The parts of a tree

The expressions and predicates that stand anywhere in a query tree, itself and
those inside projections, subqueries, conditions and comprehensions included.
-/

namespace GraphRead

/-- An expression or a predicate in a tree. -/
inductive Part where
  | expr (e : Expr)
  | predicate (p : Predicate)

mutual
/-- The parts of an expression, with itself. -/
def Expr.parts : Expr → List Part
  | .var v => [.expr (.var v)]
  | .property v path => [.expr (.property v path)]
  | .param p => [.expr (.param p)]
  | .literal value => [.expr (.literal value)]
  | .apply function arguments => .expr (.apply function arguments) :: Expr.partsAll arguments
  | .list items => .expr (.list items) :: Expr.partsAll items
  | .map entries => .expr (.map entries) :: Expr.partsEntries entries
  | .project v entries => .expr (.project v entries) :: MapEntry.partsAll entries
  | .comprehend pattern filter result =>
    .expr (.comprehend pattern filter result)
      :: (Predicate.partsOptional filter ++ result.parts)
termination_by structural e => e

/-- The parts of expressions. -/
def Expr.partsAll : List Expr → List Part
  | [] => []
  | e :: rest => e.parts ++ Expr.partsAll rest
termination_by structural es => es

/-- The parts of the values of a map. -/
def Expr.partsEntries : List (String × Expr) → List Part
  | [] => []
  | (_, e) :: rest => e.parts ++ Expr.partsEntries rest
termination_by structural es => es

/-- The parts of the computed entries of a map. -/
def MapEntry.partsAll : List MapEntry → List Part
  | [] => []
  | .stored _ :: rest => MapEntry.partsAll rest
  | .computed _ e :: rest => e.parts ++ MapEntry.partsAll rest
termination_by structural es => es

/-- The parts of a predicate, with itself. -/
def Predicate.parts : Predicate → List Part
  | .compare comparison left right =>
    .predicate (.compare comparison left right) :: (left.parts ++ Expr.partsOptional right)
  | .all parts => .predicate (.all parts) :: Predicate.partsAll parts
  | .any parts => .predicate (.any parts) :: Predicate.partsAll parts
  | .not part => .predicate (.not part) :: part.parts
  | .exist body => .predicate (.exist body) :: body.parts
  | .single v list filter =>
    .predicate (.single v list filter) :: (list.parts ++ Predicate.partsOptional filter)
termination_by structural p => p

/-- The parts of the right side of a comparison. -/
def Expr.partsOptional : Option Expr → List Part
  | none => []
  | some e => e.parts
termination_by structural e => e

/-- The parts of a predicate that may be missing. -/
def Predicate.partsOptional : Option Predicate → List Part
  | none => []
  | some p => p.parts
termination_by structural p => p

/-- The parts of predicates. -/
def Predicate.partsAll : List Predicate → List Part
  | [] => []
  | p :: rest => p.parts ++ Predicate.partsAll rest
termination_by structural ps => ps

/-- The parts of the items of a projection. -/
def Item.partsAll : List Item → List Part
  | [] => []
  | item :: rest => item.parts ++ Item.partsAll rest
termination_by structural items => items

/-- The parts of an item of a projection. -/
def Item.parts : Item → List Part
  | .plain e => e.parts
  | .aliased e _ => e.parts
  | .named e _ => e.parts
termination_by structural item => item

/-- The parts of the keys of a sort. -/
def Statement.partsKeys : List (Expr × SortDirection) → List Part
  | [] => []
  | (e, _) :: rest => e.parts ++ Statement.partsKeys rest
termination_by structural keys => keys

/-- The parts of a statement. -/
def Statement.parts : Statement → List Part
  | .matching _ _ clauses => Statement.partsAll clauses
  | .filtering parts => Predicate.partsAll parts
  | .returning _ items => Item.partsAll items
  | .calling body _ _ clauses => body.parts ++ Statement.partsAll clauses
  | .passing _ items clauses => Item.partsAll items ++ Statement.partsAll clauses
  | .passingAll _ clauses => Statement.partsAll clauses
  | .ordering keys => Statement.partsKeys keys
  | .skipping _ => []
  | .limiting _ => []
termination_by structural s => s

/-- The parts of clauses. -/
def Statement.partsAll : List Statement → List Part
  | [] => []
  | s :: rest => s.parts ++ Statement.partsAll rest
termination_by structural ss => ss
end

/-- Whether an expression makes a map. -/
def Expr.isMap : Expr → Bool
  | .map _ | .project _ _ => true
  | _ => false

/-- The parts of clauses in a row are those of the first and then those of the others. -/
theorem Statement.partsAll_append (first second : List Statement) :
    partsAll (first ++ second) = partsAll first ++ partsAll second := by
  induction first with
  | nil => rfl
  | cons s rest ih => simp [partsAll, ih]

/-- The parts of a longer map are those of the first entries and then those of the others. -/
theorem Expr.partsEntries_append (first second : List (String × Expr)) :
    partsEntries (first ++ second) = partsEntries first ++ partsEntries second := by
  induction first with
  | nil => rfl
  | cons entry rest ih => simp [partsEntries, ih]

/-- The parts of entries in a row are those of the first and then those of the others. -/
theorem MapEntry.partsAll_append (first second : List MapEntry) :
    partsAll (first ++ second) = partsAll first ++ partsAll second := by
  induction first with
  | nil => rfl
  | cons entry rest ih => cases entry <;> simp [partsAll, ih]

/-- The parts of predicates are those of each. -/
theorem Predicate.mem_partsAll {part : Part} {ps : List Predicate} :
    part ∈ partsAll ps ↔ ∃ p ∈ ps, part ∈ p.parts := by
  induction ps with
  | nil => simp [partsAll]
  | cons p rest ih => simp [partsAll, ih]

/-- The parts of items are those of each. -/
theorem Item.mem_partsAll {part : Part} {items : List Item} :
    part ∈ partsAll items ↔ ∃ item ∈ items, part ∈ item.parts := by
  induction items with
  | nil => simp [partsAll]
  | cons item rest ih => simp [partsAll, ih]

/-- The parts of sort keys are those of each. -/
theorem Statement.mem_partsKeys {part : Part} {keys : List (Expr × SortDirection)} :
    part ∈ partsKeys keys ↔ ∃ key ∈ keys, part ∈ key.1.parts := by
  induction keys with
  | nil => simp [partsKeys]
  | cons key rest ih => simp [partsKeys, ih]

end GraphRead
