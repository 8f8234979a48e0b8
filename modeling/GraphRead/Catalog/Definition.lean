import GraphRead.Catalog.Schema
import GraphRead.Document

/-!
# Schema definitions

A schema as it is declared in a document, before it is checked: every field may
declare a scalar type, a relationship, both or neither. Resolving a definition
demands exactly one of them and gives the schema.
-/

namespace GraphRead

mutual
/-- A declared field. -/
structure FieldDefinition where
  name : String
  type : Option ScalarType
  list : Bool
  property : Option String
  operators : Option (List FilterOperator)
  relationship : Option RelationshipDefinition

/-- A declared relationship. -/
structure RelationshipDefinition where
  type : String
  direction : Direction
  target : String
  list : Bool
  properties : List FieldDefinition
end

/-- A declared node. Its labels are its name unless others are given. -/
structure NodeDefinition where
  name : String
  labels : Option (List String)
  fields : List FieldDefinition

/-- A declared schema. -/
structure SchemaDefinition where
  name : Option String
  nodes : List NodeDefinition

mutual
/-- The field that a definition declares. The owner is the node, or for a property of a
relationship the node and the field of the relationship. -/
def FieldDefinition.resolve (owner : String) : FieldDefinition → Except SchemaError Field
  | ⟨name, some type, list, property, operators, none⟩ =>
    .ok ⟨name, property, .scalar ⟨type, list, operators⟩⟩
  | ⟨name, none, _, property, _, some relationship⟩ => do
    let relationship ← relationship.resolve (owner ++ "." ++ name)
    return ⟨name, property, .relationship relationship⟩
  | ⟨name, none, _, _, _, none⟩ => .error (.ambiguousKind owner name)
  | ⟨name, some _, _, _, _, some _⟩ => .error (.ambiguousKind owner name)
termination_by structural definition => definition

/-- The relationship that a definition declares. -/
def RelationshipDefinition.resolve (owner : String) :
    RelationshipDefinition → Except SchemaError Relationship
  | ⟨type, direction, target, list, properties⟩ => do
    let properties ← FieldDefinition.resolveProperties owner properties
    return ⟨type, direction, target, list, properties⟩
termination_by structural definition => definition

/-- The properties of a relationship, all of which have to be scalars. -/
def FieldDefinition.resolveProperties (owner : String) :
    List FieldDefinition → Except SchemaError (List Field)
  | [] => .ok []
  | definition :: rest => do
    let field ← definition.resolve owner
    match field.kind with
    | .scalar _ =>
      let fields ← FieldDefinition.resolveProperties owner rest
      return field :: fields
    | .relationship _ => .error (.ambiguousKind owner field.name)
termination_by structural definitions => definitions
end

/-- The node that a definition declares. -/
def NodeDefinition.resolve (definition : NodeDefinition) : Except SchemaError Node := do
  let fields ← definition.fields.mapM (FieldDefinition.resolve definition.name)
  return ⟨definition.name, definition.labels.getD [definition.name], fields⟩

/-- The schema that a definition declares. -/
def SchemaDefinition.resolve (definition : SchemaDefinition) : Except SchemaError Schema := do
  let nodes ← definition.nodes.mapM NodeDefinition.resolve
  Schema.ofNodes nodes

section Reading

open Document

variable {α : Type} [Document α]

/-- The scalar type written in a document. -/
def ScalarType.read? (value : α) : Option ScalarType := (name? value).bind ScalarType.ofName?

/-- The operator written in a document. -/
def FilterOperator.read? (value : α) : Option FilterOperator :=
  (name? value).bind FilterOperator.ofSuffix?

/-- The direction written in a document. -/
def Direction.read? (value : α) : Option Direction := (name? value).bind Direction.ofName?

/-- A declared relationship, given how its properties are read. -/
def RelationshipDefinition.readWith (property : α → Option FieldDefinition) (value : α) :
    Option RelationshipDefinition := do
  let field ← record? ["type", "direction", "target", "list", "properties"] value
  let type ← required text? (field "type")
  let direction ← required Direction.read? (field "direction")
  let target ← required text? (field "target")
  let list ← defaulted flag? true (field "list")
  let properties ← defaulted (listOf property) [] (field "properties")
  return ⟨type, direction, target, list, properties⟩

/-- A declared field. The bound is on how deeply fields are nested. -/
def FieldDefinition.readWithin : Nat → α → Option FieldDefinition
  | 0, _ => none
  | bound + 1, value => do
    let field ←
      record? ["name", "type", "list", "property", "operators", "relationship"] value
    let name ← required text? (field "name")
    let type ← optional ScalarType.read? (field "type")
    let list ← defaulted flag? false (field "list")
    let property ← optional text? (field "property")
    let operators ← optional (listOf FilterOperator.read?) (field "operators")
    let relationship ←
      optional (RelationshipDefinition.readWith (FieldDefinition.readWithin bound))
        (field "relationship")
    return ⟨name, type, list, property, operators, relationship⟩

/-- A declared field. -/
def FieldDefinition.read? (value : α) : Option FieldDefinition :=
  FieldDefinition.readWithin (depth value + 1) value

/-- A declared node. -/
def NodeDefinition.read? (value : α) : Option NodeDefinition := do
  let field ← record? ["name", "labels", "fields"] value
  let name ← required text? (field "name")
  let labels ← optional (listOf text?) (field "labels")
  let fields ← defaulted (listOf FieldDefinition.read?) [] (field "fields")
  return ⟨name, labels, fields⟩

/-- A declared schema. -/
def SchemaDefinition.read? (value : α) : Option SchemaDefinition := do
  let field ← record? ["name", "nodes"] value
  let name ← optional text? (field "name")
  let nodes ← required (listOf NodeDefinition.read?) (field "nodes")
  return ⟨name, nodes⟩

end Reading

end GraphRead
