import GraphRead.Filter.Reader

/-!
# Filters as predicates

A filter on a variable becomes a predicate of a query. A filter without any
condition becomes no predicate at all. Every use of a relationship gets
variables of its own, and every value a parameter of its own.
-/

namespace GraphRead

namespace Link

/-- The pattern of a link from a known node. The relationship is anonymous unless it is needed. -/
def pattern (link : Link) (source : Variable) (edge : Option Variable) (related : Variable) :
    Pattern :=
  let relationship :=
    match edge with
    | some edge => RelationshipPattern.of edge link.relationship.direction
    | none => .anonymous link.relationship.type link.relationship.direction
  Pattern.related source relationship related

end Link

namespace Predicate

/-- Some match of the pattern satisfies a condition. -/
def someMatch (pattern : Pattern) (inner : Option Predicate) : Predicate :=
  .exist (.matching false pattern [.filtering inner.toList])

/-- There is a match of the pattern. -/
def anyMatch (pattern : Pattern) : Predicate := .exist (.matching false pattern [])

/-- So many matches of the pattern satisfy a condition. -/
def quantified (pattern : Pattern) (inner : Option Predicate) : Quantifier → Fresh Predicate
  | .any => return someMatch pattern inner
  | .no => return .not (someMatch pattern inner)
  | .every =>
    match inner with
    | none => return anyMatch pattern
    | some inner =>
      return .all [anyMatch pattern, .not (someMatch pattern (some (.not inner)))]
  | .one => do
    let v ← Fresh.value
    return .single v (.comprehend pattern inner (.literal (.ofNat 1))) none

/-- A test for null: nothing is related, or something is for the quantifier that denies. -/
def absence (pattern : Pattern) : Quantifier → Predicate
  | .no => anyMatch pattern
  | _ => .not (anyMatch pattern)

/-- A property compares to a parameter. -/
def ofOperator (property param : Expr) : Option FilterOperator → Predicate
  | none => .binary .equal property param
  | some .differs => .not (.binary .equal property param)
  | some .oneOf => .binary .within property param
  | some .notOneOf => .not (.binary .within property param)
  | some .less => .binary .less property param
  | some .lessOrEqual => .binary .lessOrEqual property param
  | some .greater => .binary .greater property param
  | some .greaterOrEqual => .binary .greaterOrEqual property param
  | some .contains => .binary .contains property param
  | some .notContains => .not (.binary .contains property param)
  | some .startsWith => .binary .startsWith property param
  | some .notStartsWith => .not (.binary .startsWith property param)
  | some .endsWith => .binary .endsWith property param
  | some .notEndsWith => .not (.binary .endsWith property param)
  | some .matching => .binary .matching property param
  | some .includes => .binary .within param property
  | some .notIncludes => .not (.binary .within param property)

/-- A property compares to a value. Null asks for the absence of the property, or with a negated
operator for its presence. -/
def ofProperty (target : Variable) (property : String) (operator : Option FilterOperator)
    (value : Json) : Fresh Predicate := do
  let stored := Expr.property target [property]
  if value.isNull then
    if operator.any FilterOperator.isNegated then return .isNotNull stored
    else return .isNull stored
  else
    let param ← Fresh.param value
    return ofOperator stored (.param param) operator

end Predicate

/-- The expression of an aggregate over matched nodes and relationships. -/
def Aggregate.expr (related edge : Variable) : Aggregate → Expr
  | .count => .apply "count" [.var related]
  | .over side property function =>
    let v := match side with
      | .node => related
      | .edge => edge
    let stored := Expr.property v [property]
    match function with
    | .average => .apply "avg" [stored]
    | .sum => .apply "sum" [stored]
    | .min => .apply "min" [stored]
    | .max => .apply "max" [stored]
    | .shortestLength => .apply "min" [.apply "size" [stored]]
    | .longestLength => .apply "max" [.apply "size" [stored]]
    | .averageLength => .apply "avg" [.apply "size" [stored]]

mutual
/-- The aggregates that a filter mentions, each under a name of its own, and the condition over
those names. -/
def AggregateFilter.predicate (related edge : Variable) :
    AggregateFilter → Fresh (List Item × Option Predicate)
  | .all parts => do
    let (items, predicates) ← AggregateFilter.predicates related edge parts
    return (items, Predicate.allOf predicates)
  | .any parts => do
    let (items, predicates) ← AggregateFilter.predicates related edge parts
    return (items, Predicate.anyOf predicates)
  | .test aggregate comparison value => do
    let result ← Fresh.value
    let param ← Fresh.param value
    return ([.aliased (aggregate.expr related edge) result],
      some (.binary comparison (.var result) (.param param)))
termination_by structural f => f

/-- The aggregates and conditions of several filters. -/
def AggregateFilter.predicates (related edge : Variable) :
    List AggregateFilter → Fresh (List Item × List (Option Predicate))
  | [] => return ([], [])
  | f :: rest => do
    let (items, predicate) ← f.predicate related edge
    let (others, predicates) ← AggregateFilter.predicates related edge rest
    return (items ++ others, predicate :: predicates)
termination_by structural fs => fs
end

/-- The predicate of an aggregate filter: one subquery that computes all the aggregates. -/
def AggregateFilter.subquery (link : Link) (source : Variable) (f : AggregateFilter) :
    Fresh (Option Predicate) := do
  let related ← Fresh.node link.target.labels
  let edge ← Fresh.relationship link.relationship.type
  let (items, condition) ← f.predicate related edge
  return condition.map fun condition =>
    .exist (.matching false (link.pattern source (some edge) related)
      [.passing false items [.filtering [condition]]])

mutual
/-- The predicate of a filter on a variable, if it has a condition. -/
def Filter.predicate (target : Variable) : Filter → Fresh (Option Predicate)
  | .all parts => do
    let predicates ← Filter.predicates target parts
    return Predicate.allOf predicates
  | .any parts => do
    let predicates ← Filter.predicates target parts
    return Predicate.anyOf predicates
  | .property property operator value => do
    let predicate ← Predicate.ofProperty target property operator value
    return some predicate
  | .related link quantifier inner => do
    let related ← Fresh.node link.target.labels
    let pattern := link.pattern target none related
    match inner with
    | none => return some (Predicate.absence pattern quantifier)
    | some inner =>
      let condition ← inner.predicate related
      let predicate ← Predicate.quantified pattern condition quantifier
      return some predicate
  | .connected link quantifier inner => do
    let related ← Fresh.node link.target.labels
    let edge ← Fresh.relationship link.relationship.type
    let pattern := link.pattern target (some edge) related
    match inner with
    | none => return some (Predicate.absence pattern quantifier)
    | some inner =>
      let condition ← inner.predicate related edge
      let predicate ← Predicate.quantified pattern condition quantifier
      return some predicate
  | .aggregated link inner => inner.subquery link target
termination_by structural f => f

/-- The predicates of several filters. -/
def Filter.predicates (target : Variable) : List Filter → Fresh (List (Option Predicate))
  | [] => return []
  | f :: rest => do
    let predicate ← f.predicate target
    let predicates ← Filter.predicates target rest
    return predicate :: predicates
termination_by structural fs => fs

/-- The predicate of a filter on a connection, if it has a condition. -/
def ConnectionFilter.predicate (related edge : Variable) :
    ConnectionFilter → Fresh (Option Predicate)
  | .all parts => do
    let predicates ← ConnectionFilter.predicates related edge parts
    return Predicate.allOf predicates
  | .any parts => do
    let predicates ← ConnectionFilter.predicates related edge parts
    return Predicate.anyOf predicates
  | .node negated filter => do
    let predicate ← filter.predicate related
    return if negated then predicate.map .not else predicate
  | .edge negated filter => do
    let predicate ← filter.predicate edge
    return if negated then predicate.map .not else predicate
termination_by structural f => f

/-- The predicates of several connection filters. -/
def ConnectionFilter.predicates (related edge : Variable) :
    List ConnectionFilter → Fresh (List (Option Predicate))
  | [] => return []
  | f :: rest => do
    let predicate ← f.predicate related edge
    let predicates ← ConnectionFilter.predicates related edge rest
    return predicate :: predicates
termination_by structural fs => fs
end

/-- The predicate that a JSON filter on an element asks for, if it has a condition. Identities
from `next` on are taken to be unused. -/
def wherePredicate (schema : Schema) (limit : Nat) (element : Element) (target : Variable)
    (next : Nat) (value : Json) : FilterResult (Option Predicate) := do
  let filter ← Filter.read schema limit element .root value
  return ((filter.predicate target).run next).1

end GraphRead
