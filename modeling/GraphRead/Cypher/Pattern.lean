import GraphRead.Catalog.Field
import GraphRead.Cypher.Variable

/-!
# Patterns

A pattern is a path: a node, and then relationships each with the node at its
other end. Nodes and relationships may be anonymous.
-/

namespace GraphRead

/-- A node of a pattern. -/
structure NodePattern where
  bound : Option Variable
  labels : List String
  properties : List (String × Param)

/-- A relationship of a pattern. -/
structure RelationshipPattern where
  bound : Option Variable
  type : Option String
  direction : Direction

/-- A path of nodes and relationships. -/
structure Pattern where
  start : NodePattern
  hops : List (RelationshipPattern × NodePattern)

namespace NodePattern

/-- The pattern of a variable, with its labels. -/
def of (v : Variable) : NodePattern := ⟨some v, v.labels, []⟩

/-- A node without a variable. -/
def anonymous (labels : List String) : NodePattern := ⟨none, labels, []⟩

/-- The pattern without labels, for a node that is already known. -/
def unlabelled (node : NodePattern) : NodePattern := { node with labels := [] }

/-- The pattern with the properties it has to have. -/
def withProperties (node : NodePattern) (properties : List (String × Param)) : NodePattern :=
  { node with properties }

end NodePattern

namespace RelationshipPattern

/-- The pattern of a variable, with its type. -/
def of (v : Variable) (direction : Direction) : RelationshipPattern :=
  ⟨some v, v.relationshipType?, direction⟩

/-- A relationship without a variable. -/
def anonymous (type : String) (direction : Direction) : RelationshipPattern :=
  ⟨none, some type, direction⟩

end RelationshipPattern

namespace Pattern

/-- The variables of a pattern in order of appearance. -/
def bound (pattern : Pattern) : List Variable :=
  pattern.start.bound.toList ++
    pattern.hops.flatMap fun (relationship, node) =>
      relationship.bound.toList ++ node.bound.toList

/-- From a known node over a relationship to the node at its other end. -/
def related (source : Variable) (relationship : RelationshipPattern) (target : Variable) :
    Pattern :=
  ⟨(NodePattern.of source).unlabelled, [(relationship, NodePattern.of target)]⟩

end Pattern

end GraphRead
