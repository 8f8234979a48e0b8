import GraphRead.Catalog.Scalar

/-!
# Fields, nodes and elements

A node has labels and fields. A field is a scalar, stored under its own or
another property name, or a relationship to another node, which has properties
of its own. An element is what a filter applies to: a node or a relationship,
seen as a name and its fields.
-/

namespace GraphRead

/-- The direction of a relationship, seen from the node that has the field. -/
inductive Direction where
  | outgoing
  | incoming
  | undirected
deriving DecidableEq, Repr

namespace Direction

/-- The word for a direction. -/
def word : Direction → String
  | incoming => "incoming"
  | outgoing => "outgoing"
  | undirected => "undirected"

/-- The direction of a name in a schema. -/
def ofName? : String → Option Direction
  | "OUT" | "OUTGOING" => some outgoing
  | "IN" | "INCOMING" => some incoming
  | "UNDIRECTED" => some undirected
  | _ => none

end Direction

/-- The two parts of a connection: the related node and the relationship to it. -/
inductive Side where
  | node
  | edge
deriving DecidableEq, Repr

/-- What is known of a scalar field. -/
structure Scalar where
  type : ScalarType
  isList : Bool
  /-- The operators of the field, if it does not have those of its type. -/
  operators : Option (List FilterOperator)
deriving DecidableEq, Repr

/-- The operators of a scalar field. -/
def Scalar.allowed (scalar : Scalar) : List FilterOperator :=
  scalar.operators.getD (FilterOperator.defaults scalar.type scalar.isList)

mutual
/-- A field of a node or of a relationship. -/
structure Field where
  name : String
  /-- The name under which the field is stored, if it is not its own. -/
  stored : Option String
  kind : FieldKind

/-- The two kinds of fields. -/
inductive FieldKind where
  | scalar (scalar : Scalar)
  | relationship (relationship : Relationship)

/-- What is known of a relationship field. -/
structure Relationship where
  type : String
  direction : Direction
  /-- The name of the node at the other end. -/
  target : String
  isList : Bool
  properties : List Field
end

namespace Field

/-- The name under which a field is stored. -/
def property (field : Field) : String := field.stored.getD field.name

/-- The scalar of a scalar field. -/
def scalar? (field : Field) : Option Scalar :=
  match field.kind with
  | .scalar scalar => some scalar
  | .relationship _ => none

/-- The relationship of a relationship field. -/
def relationship? (field : Field) : Option Relationship :=
  match field.kind with
  | .scalar _ => none
  | .relationship relationship => some relationship

/-- Whether a field can be filtered by an operator. -/
def allows (field : Field) (operator : FilterOperator) : Bool :=
  match field.kind with
  | .scalar scalar => operator ∈ scalar.allowed
  | .relationship _ => false

end Field

/-- The field of a name: the first one that bears it. -/
def findField (fields : List Field) (name : String) : Option Field :=
  fields.find? (·.name = name)

/-- A kind of node. -/
structure Node where
  name : String
  labels : List String
  fields : List Field

/-- What a filter applies to. -/
structure Element where
  name : String
  fields : List Field

/-- The field of an element. -/
def Element.field? (element : Element) (name : String) : Option Field :=
  findField element.fields name

/-- The field of a node. -/
def Node.field? (node : Node) (name : String) : Option Field := findField node.fields name

/-- A node as an element. -/
def Node.element (node : Node) : Element := ⟨node.name, node.fields⟩

/-- The property of a relationship. -/
def Relationship.property? (relationship : Relationship) (name : String) : Option Field :=
  findField relationship.properties name

/-- A relationship as an element, named by its type. -/
def Relationship.element (relationship : Relationship) : Element :=
  ⟨relationship.type, relationship.properties⟩

end GraphRead
