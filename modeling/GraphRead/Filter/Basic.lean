import GraphRead.Catalog.Schema
import GraphRead.Filter.Key
import GraphRead.Filter.KeyPath

/-!
# Filters

A filter after its keys have been resolved against a schema: junctions of tests
on properties, on related nodes, on connections (nodes together with the
relationships to them) and on aggregates over them.
-/

namespace GraphRead

/-- The shapes that a filter demands of its values. -/
inductive Shape where
  | object
  | objects
  | list
deriving DecidableEq, Repr

/-- The wording of a shape. -/
def Shape.wording : Shape → String
  | object => "an object"
  | objects => "a list of objects"
  | list => "a list"

/-- Why a filter is refused. -/
inductive FilterError where
  | unknownField (path : KeyPath) (element field : String)
  | unsupportedOperator (path : KeyPath) (field operator : String)
  | wrongShape (path : KeyPath) (expected : Shape) (found : String)
  | tooDeep (path : KeyPath) (limit : Nat)
  | schema (error : SchemaError)
deriving DecidableEq, Repr

namespace FilterError

/-- The wording of a filter error. -/
def message : FilterError → String
  | unknownField path element field =>
    "Unknown where field `" ++ field ++ "` on `" ++ element ++ "` at `" ++ path.text ++ "`"
  | unsupportedOperator path field operator =>
    "Field `" ++ field ++ "` does not support operator `" ++ operator ++ "` at `" ++ path.text
      ++ "`"
  | wrongShape path expected found =>
    "Expected " ++ expected.wording ++ " at `" ++ path.text ++ "`, found " ++ found
  | tooDeep path limit =>
    "Where input exceeds the maximum nesting depth of " ++ toString limit ++ " at `" ++ path.text
      ++ "`"
  | schema error => error.message

/-- The place at fault. -/
def path? : FilterError → Option KeyPath
  | unknownField path _ _ => some path
  | unsupportedOperator path _ _ => some path
  | wrongShape path _ _ => some path
  | tooDeep path _ => some path
  | schema _ => none

end FilterError

/-- A relationship field together with the node it leads to. -/
structure Link where
  field : String
  relationship : Relationship
  target : Node

/-- An aggregate over the related nodes or relationships. -/
inductive Aggregate where
  | count
  | over (side : Side) (property : String) (function : AggregateFunction)
deriving DecidableEq, Repr

/-- A filter on the aggregates over a relationship. -/
inductive AggregateFilter where
  | all (parts : List AggregateFilter)
  | any (parts : List AggregateFilter)
  | test (aggregate : Aggregate) (comparison : Comparison) (value : Json)

mutual
/-- A filter on a node or a relationship. -/
inductive Filter where
  | all (parts : List Filter)
  | any (parts : List Filter)
  /-- The stored property compares to a value; without an operator they are equal. -/
  | property (property : String) (operator : Option FilterOperator) (value : Json)
  /-- So many related nodes satisfy a filter; without a filter the test is for their absence. -/
  | related (link : Link) (quantifier : Quantifier) (inner : Option Filter)
  /-- The same for related nodes together with the relationships to them. -/
  | connected (link : Link) (quantifier : Quantifier) (inner : Option ConnectionFilter)
  | aggregated (link : Link) (inner : AggregateFilter)

/-- A filter on a related node together with the relationship to it. -/
inductive ConnectionFilter where
  | all (parts : List ConnectionFilter)
  | any (parts : List ConnectionFilter)
  | node (negated : Bool) (filter : Filter)
  | edge (negated : Bool) (filter : Filter)
end

/-- The junction of filters. -/
def Filter.join : Junction → List Filter → Filter
  | .all, parts => .all parts
  | .any, parts => .any parts

/-- The junction of connection filters. -/
def ConnectionFilter.join : Junction → List ConnectionFilter → ConnectionFilter
  | .all, parts => .all parts
  | .any, parts => .any parts

/-- The junction of aggregate filters. -/
def AggregateFilter.join : Junction → List AggregateFilter → AggregateFilter
  | .all, parts => .all parts
  | .any, parts => .any parts

end GraphRead
