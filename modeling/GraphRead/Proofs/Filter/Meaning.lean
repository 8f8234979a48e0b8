import GraphRead.Proofs.Filter.Binding
import GraphRead.Proofs.Filter.Evaluation
import GraphRead.Proofs.Filter.Shape

/-!
# The meaning of filters

A filter is a JSON value, and what it says of a node, an edge or a connection can
be read off it directly: the quantifiers range over the neighbours in the graph,
and no variable is ever bound. A verdict is the truth of a filter, or nothing if
it does not constrain anything. The predicate of a filter has the same verdict
wherever its target is bound and the identities that it uses are not.
-/

namespace GraphRead

open PropertyGraph

/-- Whether all or any of several conditions hold. -/
def Junction.holds : Junction → List Bool → Bool
  | .all, conditions => conditions.all id
  | .any, conditions => conditions.any id

/-- The junction of the verdicts that constrain something. -/
def Junction.verdict (junction : Junction) (verdicts : List (Option Bool)) : Option Bool :=
  match verdicts.filterMap id with
  | [] => none
  | present => some (junction.holds present)

/-- Whether so many matches satisfy a filter, given for each match whether it does. -/
def Quantifier.holds : Quantifier → List Bool → Bool
  | .any, verdicts => verdicts.any id
  | .no, verdicts => !verdicts.any id
  | .every, verdicts => !verdicts.isEmpty && verdicts.all id
  | .one, verdicts => verdicts.count true = 1

/-- What null says about the matches: there are none, or some for the quantifier that denies. -/
def Quantifier.holdsForNull : Quantifier → Bool → Bool
  | .no, isEmpty => !isEmpty
  | _, isEmpty => isEmpty

/-- The comparison of an operator, without its negation. -/
def FilterOperator.comparison : FilterOperator → Comparison
  | .differs => .equal
  | .oneOf | .notOneOf | .includes | .notIncludes => .within
  | .less => .less
  | .lessOrEqual => .lessOrEqual
  | .greater => .greater
  | .greaterOrEqual => .greaterOrEqual
  | .contains | .notContains => .contains
  | .startsWith | .notStartsWith => .startsWith
  | .endsWith | .notEndsWith => .endsWith
  | .matching => .matching

/-- Whether the value is looked for in the stored property, and not the other way round. -/
def FilterOperator.looksInside : FilterOperator → Bool
  | .includes | .notIncludes => true
  | _ => false

variable {graph : PropertyGraph}

/-- Whether a stored property compares to a value. Null asks for the absence of the property, or
with a negated operator for its presence. -/
def Interpretation.test (interpretation : Interpretation graph) (operator : Option FilterOperator)
    (stored value : Json) : Bool :=
  let comparison := operator.elim .equal FilterOperator.comparison
  let truth :=
    if value.isNull then stored.isNull
    else if operator.any FilterOperator.looksInside then
      interpretation.compare comparison value stored
    else interpretation.compare comparison stored value
  truth != operator.any FilterOperator.isNegated

/-- What a filter is about. -/
inductive Subject (graph : PropertyGraph) where
  | element (kind : Element) (x : graph.Value)
  /-- A related node together with the edge to it. -/
  | connection (link : Link) (step : graph.Step)

/-- What a side of a connection stands for. -/
def Side.value (step : graph.Step) : Side → graph.Value
  | .node => .node step.2
  | .edge => .edge step.1

/-- One side of a connection. -/
def Subject.side (link : Link) (step : graph.Step) (s : Side) : Subject graph :=
  .element (link.element s) (s.value step)

section Reading

variable (interpretation : Interpretation graph) (schema : Schema)

/-- Whether so many neighbours satisfy a filter that is written as a value. -/
def Quantifier.holdsNear (quantifier : Quantifier) (link : Link) (x : graph.Value) (value : Json)
    (verdict : graph.Step → Option Bool) : Bool :=
  if value.isNull then quantifier.holdsForNull (link.neighbours x).isEmpty
  else quantifier.holds ((link.neighbours x).map fun step => (verdict step).getD true)

/-- The verdict of an entry with a key that is no junction, given the verdicts of its value on the
subjects that the key leads to. -/
def Subject.verdict (key : String) (value : Json) (nested : Subject graph → Option Bool) :
    Subject graph → Option Bool
  | .element kind x =>
    match kind.meaning? schema key with
    | some (.scalar property operator) =>
      some (interpretation.test operator (x.property property) value)
    | some (.related link quantifier) =>
      some <| quantifier.holdsNear link x value fun step => nested (.side link step .node)
    | some (.connected link quantifier) =>
      some <| quantifier.holdsNear link x value fun step => nested (.connection link step)
    | some (.aggregated _) => none
    | none => none
  | .connection link step =>
    match connectionPart? key with
    | some (s, negated) => (nested (.side link step s)).map (· != negated)
    | none => none

mutual
/-- The verdict of a filter on a subject: all of its entries hold. -/
def Json.verdict : Json → Subject graph → Option Bool
  | .object pairs, subject => Junction.all.verdict (Json.verdictsOfEntries pairs subject)
  | _, _ => none
termination_by structural value => value

/-- The verdict of the list under a junction key. -/
def Json.verdictOfList (junction : Junction) : Json → Subject graph → Option Bool
  | .array items, subject => junction.verdict (Json.verdictsOfItems items subject)
  | _, _ => none
termination_by structural value => value

/-- The verdicts of the members of a list. -/
def Json.verdictsOfItems : List Json → Subject graph → List (Option Bool)
  | [], _ => []
  | item :: rest, subject => item.verdict subject :: Json.verdictsOfItems rest subject
termination_by structural items => items

/-- The verdicts of the entries of an object. -/
def Json.verdictsOfEntries : List (String × Json) → Subject graph → List (Option Bool)
  | [], _ => []
  | (key, value) :: rest, subject =>
    let verdict := match Junction.ofKey? key with
      | some junction => value.verdictOfList junction subject
      | none => subject.verdict interpretation schema key value fun other => value.verdict other
    verdict :: Json.verdictsOfEntries rest subject
termination_by structural pairs => pairs
end

end Reading

/-- Aggregates are filtered under a key. -/
def Slot.isAggregate : Slot → Bool
  | .nested (.aggregate _) => true
  | _ => false

mutual
/-- No key inside a filter asks for aggregates. -/
def Json.hasNoAggregate (schema : Schema) : Json → Slot → Bool
  | .object pairs, .nested place => Json.haveNoAggregate schema place pairs
  | .array items, .nested place => Json.allHaveNoAggregate schema place items
  | _, _ => true
termination_by structural value => value

/-- No key inside the items of a list asks for aggregates. -/
def Json.allHaveNoAggregate (schema : Schema) (place : Place) : List Json → Bool
  | [] => true
  | item :: rest =>
    item.hasNoAggregate schema (.nested place) && Json.allHaveNoAggregate schema place rest
termination_by structural items => items

/-- No key of the entries, or inside them, asks for aggregates. -/
def Json.haveNoAggregate (schema : Schema) (place : Place) : List (String × Json) → Bool
  | [] => true
  | (key, value) :: rest =>
    !(place.slot schema key).isAggregate && value.hasNoAggregate schema (place.slot schema key)
      && Json.haveNoAggregate schema place rest
termination_by structural pairs => pairs
end

namespace PropertyGraph.Environment

/-- Nothing is bound to the identities from one on. -/
def FreshFrom (env : graph.Environment) (next : Nat) : Prop :=
  ∀ identity, next ≤ identity → env identity = none

variable {env : graph.Environment} {next : Nat}

/-- Identities that are not bound from here on are not bound from later on. -/
theorem FreshFrom.mono (h : env.FreshFrom next) {later : Nat} (hle : next ≤ later) :
    env.FreshFrom later := by
  intro identity hidentity
  exact h identity (hle.trans hidentity)

/-- Setting a variable that was handed out before leaves later identities unbound. -/
theorem FreshFrom.set (h : env.FreshFrom next) {v : Variable} (hv : v.identity < next)
    (x : graph.Value) : (env.set v x).FreshFrom next := by
  intro identity hidentity
  rw [set_other (by omega)]
  exact h identity hidentity

end PropertyGraph.Environment

section Compilation

variable (interpretation : Interpretation graph)

/-- The verdict of the predicate that a computation makes with the identities from one on. -/
def Fresh.verdict (env : graph.Environment) (next : Nat)
    (computation : Fresh (Option Predicate)) : Option Bool :=
  (computation.run next).1.map (·.holds interpretation env)

/-- The predicate of a filter has a verdict on whatever its target is bound to. -/
def Filter.Decides (filter : Filter) (verdict : graph.Value → Option Bool) : Prop :=
  ∀ ⦃target : Variable⦄ ⦃env : graph.Environment⦄ ⦃next : Nat⦄ ⦃x : graph.Value⦄,
    env target.identity = some x → env.FreshFrom next →
      Fresh.verdict interpretation env next (filter.predicate target) = verdict x

/-- The predicate of a filter on a connection has a verdict on every connection. -/
def ConnectionFilter.Decides (filter : ConnectionFilter)
    (verdict : graph.Step → Option Bool) : Prop :=
  ∀ ⦃related edge : Variable⦄ ⦃env : graph.Environment⦄ ⦃next : Nat⦄
    ⦃step : graph.Step⦄,
    env related.identity = some (.node step.2) →
      env edge.identity = some (.edge step.1) → env.FreshFrom next →
      Fresh.verdict interpretation env next (filter.predicate related edge) = verdict step

end Compilation

variable {interpretation : Interpretation graph} {env : graph.Environment}

section Junctions

variable {β : Type} {compile : β → Fresh (Option Predicate)} {next : Nat} {parts : List β}
  {verdicts : List (Option Bool)}

end Junctions

section Tests

end Tests

section Quantifiers

variable (pattern : Pattern)

end Quantifiers

section Links

variable {link : Link} {source related : Variable} {edge : Option Variable} {x : graph.Value}

end Links

namespace FilterReader

variable {schema : Schema} {limit : Nat}

section Objects

variable {β σ : Type} {join : Junction → List β → β} {member : KeyPath → Json → FilterResult β}
  {entry : KeyPath → String → Json → FilterResult β} {place : Place}
  {Decides : β → (σ → Option Bool) → Prop} {subject : σ → Subject graph}

end Objects

end FilterReader

end GraphRead
