import GraphRead.Filter.Predicate
import Mathlib.Data.List.FinRange

/-!
# Evaluation of predicates

A finite property graph gives predicates a meaning. Variables are bound to what
they stand for by an environment; a pattern extends the environment in every way
in which the graph has a path of that form, and a statement passes on rows, each
an environment. What the comparisons mean, and all that is not a match, a
condition or a comprehension, is left to an interpretation.
-/

namespace GraphRead

/-- A finite graph whose nodes have labels, whose edges have a type, and both of which store
properties. A property that is not stored is null. -/
structure PropertyGraph where
  nodeCount : Nat
  edgeCount : Nat
  labels : Fin nodeCount → List String
  type : Fin edgeCount → String
  source : Fin edgeCount → Fin nodeCount
  target : Fin edgeCount → Fin nodeCount
  nodeProperty : Fin nodeCount → String → Json
  edgeProperty : Fin edgeCount → String → Json

namespace PropertyGraph

variable (graph : PropertyGraph)

/-- What a variable stands for. -/
inductive Value where
  | node (i : Fin graph.nodeCount)
  | edge (e : Fin graph.edgeCount)
  | data (value : Json)
deriving DecidableEq

/-- The values of the variables, by their identities. -/
abbrev Environment := Nat → Option graph.Value

/-- A step to another node: an edge and the node at its other end. -/
abbrev Step := Fin graph.edgeCount × Fin graph.nodeCount

/-- An edge leads from one node to another in a direction. -/
def joins : Direction → Fin graph.edgeCount → (i j : Fin graph.nodeCount) → Bool
  | .outgoing, e, i, j => graph.source e = i && graph.target e = j
  | .incoming, e, i, j => graph.source e = j && graph.target e = i
  | .undirected, e, i, j =>
    graph.source e = i && graph.target e = j || graph.source e = j && graph.target e = i

/-- The steps from a node in a direction. An edge from a node to itself is one step in any
direction. -/
def steps (direction : Direction) (i : Fin graph.nodeCount) : List graph.Step :=
  ((List.finRange graph.edgeCount).product (List.finRange graph.nodeCount)).filter fun (e, j) =>
    graph.joins direction e i j

end PropertyGraph

open PropertyGraph

variable {graph : PropertyGraph}

/-- A property of a value: it is stored in the graph, or an entry of a map. -/
def PropertyGraph.Value.property : graph.Value → String → Json
  | .node i, key => graph.nodeProperty i key
  | .edge e, key => graph.edgeProperty e key
  | .data (.object entries), key => (entries.lookup key).getD .null
  | .data _, _ => .null

/-- A property of a value, or of a map below it. -/
def PropertyGraph.Value.follow (x : graph.Value) : List String → Json
  | [] => .null
  | [key] => x.property key
  | key :: path => (.data (x.property key) : graph.Value).follow path

namespace PropertyGraph.Environment

/-- A variable gets a value. -/
def set (env : graph.Environment) (v : Variable) (x : graph.Value) : graph.Environment :=
  Function.update env v.identity (some x)

/-- The variable of a part of a pattern, if it has one, gets a value. -/
def bind (env : graph.Environment) (bound : Option Variable) (x : graph.Value) :
    graph.Environment :=
  bound.elim env fun v => env.set v x

/-- A part of a pattern meets a value: its variable is bound to it. A variable that has a value
already only meets that one. -/
def meet (env : graph.Environment) (bound : Option Variable) (x : graph.Value) :
    Option graph.Environment :=
  match bound.bind fun v => env v.identity with
  | some known => if known = x then some env else none
  | none => some (env.bind bound x)

end PropertyGraph.Environment

/-- What predicates leave open: the truth of comparisons, and the meaning of the other parts of
queries. -/
structure Interpretation (graph : PropertyGraph) where
  compare : Comparison → Json → Json → Bool
  value : Expr → graph.Environment → Json
  rows : Statement → graph.Environment → List graph.Environment

section Patterns

variable (interpretation : Interpretation graph)

/-- A node of a pattern meets a node of the graph that has its labels and properties. -/
def NodePattern.meet (pattern : NodePattern) (i : Fin graph.nodeCount) (env : graph.Environment) :
    Option graph.Environment :=
  if pattern.labels.all (· ∈ graph.labels i) ∧
      pattern.properties.all (fun (key, param) =>
        interpretation.compare .equal (graph.nodeProperty i key) param.value) then
    env.meet pattern.bound (.node i)
  else none

/-- A relationship of a pattern meets an edge of its type. -/
def RelationshipPattern.meet (pattern : RelationshipPattern) (e : Fin graph.edgeCount)
    (env : graph.Environment) : Option graph.Environment :=
  if pattern.type.all (· = graph.type e) then env.meet pattern.bound (.edge e) else none

/-- The ways along the hops of a pattern from a node. No edge is used twice. -/
def Pattern.rowsAlong : List (RelationshipPattern × NodePattern) → List (Fin graph.edgeCount) →
    Fin graph.nodeCount → graph.Environment → List graph.Environment
  | [], _, _, env => [env]
  | (relationship, node) :: rest, used, i, env =>
    (graph.steps relationship.direction i).flatMap fun (e, j) =>
      if e ∈ used then []
      else
        match (relationship.meet e env).bind (node.meet interpretation j) with
        | some env => rowsAlong rest (e :: used) j env
        | none => []

/-- The matches of a pattern, each as an environment that binds its variables too. -/
def Pattern.rows (pattern : Pattern) (env : graph.Environment) : List graph.Environment :=
  (List.finRange graph.nodeCount).flatMap fun i =>
    match pattern.start.meet interpretation i env with
    | some env => Pattern.rowsAlong interpretation pattern.hops [] i env
    | none => []

end Patterns

/-- The items of a list. -/
def Json.items : Json → List Json
  | .array items => items
  | _ => []

section Trees

variable (interpretation : Interpretation graph)

mutual
/-- The value of an expression. -/
def Expr.value : Expr → graph.Environment → Json
  | .property v path, env => (env v.identity).elim .null (·.follow path)
  | .param p, _ => p.value
  | .literal value, _ => value
  | .comprehend pattern filter result, env =>
    let rows := (pattern.rows interpretation env).filter fun env => Predicate.holdsIfAny filter env
    .array (rows.map fun env => result.value env)
  | .var v, env => interpretation.value (.var v) env
  | .apply function arguments, env => interpretation.value (.apply function arguments) env
  | .list items, env => interpretation.value (.list items) env
  | .map entries, env => interpretation.value (.map entries) env
  | .project v entries, env => interpretation.value (.project v entries) env
termination_by structural e => e

/-- The value of an operand. One that is not there is null. -/
def Expr.valueIfAny : Option Expr → graph.Environment → Json
  | none, _ => .null
  | some e, env => e.value env
termination_by structural e => e

/-- Whether a predicate holds. -/
def Predicate.holds : Predicate → graph.Environment → Bool
  | .compare comparison left right, env =>
    match comparison with
    | .isNull => (left.value env).isNull
    | .isNotNull => !(left.value env).isNull
    | comparison => interpretation.compare comparison (left.value env) (Expr.valueIfAny right env)
  | .all parts, env => Predicate.allHold parts env
  | .any parts, env => Predicate.anyHolds parts env
  | .not part, env => !part.holds env
  | .exist body, env => !(body.rows env).isEmpty
  | .single v list filter, env =>
    (list.value env).items.countP (fun item => Predicate.holdsIfAny filter (env.set v (.data item)))
      = 1
termination_by structural p => p

/-- Whether a predicate holds. One that is not there does not constrain anything. -/
def Predicate.holdsIfAny : Option Predicate → graph.Environment → Bool
  | none, _ => true
  | some p, env => p.holds env
termination_by structural p => p

/-- Whether all of several predicates hold. -/
def Predicate.allHold : List Predicate → graph.Environment → Bool
  | [], _ => true
  | p :: rest, env => p.holds env && Predicate.allHold rest env
termination_by structural ps => ps

/-- Whether any of several predicates holds. -/
def Predicate.anyHolds : List Predicate → graph.Environment → Bool
  | [], _ => false
  | p :: rest, env => p.holds env || Predicate.anyHolds rest env
termination_by structural ps => ps

/-- The rows that a statement makes of one row. -/
def Statement.rows : Statement → graph.Environment → List graph.Environment
  | .matching false pattern clauses, env =>
    (pattern.rows interpretation env).flatMap fun env => Statement.rowsOfAll clauses env
  | .filtering parts, env => if Predicate.allHold parts env then [env] else []
  | .matching true pattern clauses, env => interpretation.rows (.matching true pattern clauses) env
  | .returning distinct items, env => interpretation.rows (.returning distinct items) env
  | .calling body imports base clauses, env =>
    interpretation.rows (.calling body imports base clauses) env
  | .passing distinct items clauses, env =>
    interpretation.rows (.passing distinct items clauses) env
  | .passingAll distinct clauses, env => interpretation.rows (.passingAll distinct clauses) env
  | .ordering keys, env => interpretation.rows (.ordering keys) env
  | .skipping count, env => interpretation.rows (.skipping count) env
  | .limiting count, env => interpretation.rows (.limiting count) env
termination_by structural s => s

/-- The rows that statements make of one row, one after the other. -/
def Statement.rowsOfAll : List Statement → graph.Environment → List graph.Environment
  | [], env => [env]
  | s :: rest, env => (s.rows env).flatMap fun env => Statement.rowsOfAll rest env
termination_by structural ss => ss
end

end Trees

namespace PropertyGraph.Environment

variable {env : graph.Environment}

/-- Setting a variable keeps what the others are bound to. -/
theorem set_other {v : Variable} {identity : Nat} (h : identity ≠ v.identity) (x : graph.Value) :
    env.set v x identity = env identity := by
  simp [set, Function.update_of_ne h]

end PropertyGraph.Environment

namespace Link

/-- The related nodes of a value together with the edges to them: the edges have the type and the
direction of the link, and the nodes the labels of its target. Only nodes have any. -/
def neighbours (link : Link) : graph.Value → List graph.Step
  | .node i =>
    (graph.steps link.relationship.direction i).filter fun (e, j) =>
      link.relationship.type = graph.type e && link.target.labels.all (· ∈ graph.labels j)
  | _ => []

/-- The environment in which the variables of a link are bound. -/
def bind (env : graph.Environment) (edge : Option Variable) (related : Variable)
    (step : graph.Step) : graph.Environment :=
  (env.bind edge (.edge step.1)).set related (.node step.2)

section Rows

variable (interpretation : Interpretation graph) {link : Link} {env : graph.Environment}
  {edge : Option Variable} {related : Variable}

end Rows

end Link

namespace Predicate

variable (interpretation : Interpretation graph) {env : graph.Environment}

end Predicate

end GraphRead
