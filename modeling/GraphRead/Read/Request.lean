import GraphRead.Catalog.Field
import GraphRead.Cypher.Tree
import GraphRead.Document

/-!
# Read requests

What is asked of a kind of node: which of the nodes, in which order, how many of
them, and what of each. A selection may go on to related nodes, either with a
request of their own or as a connection together with the relationships to them.
Requests are read from documents with free-form values and written as JSON.
-/

namespace GraphRead

/-- A sort by a field. -/
structure SortKey where
  field : String
  direction : SortDirection
deriving DecidableEq, Repr

/-- A sort of a connection by a field of the node or of the relationship. -/
structure ConnectionSortKey where
  side : Side
  field : String
  direction : SortDirection
deriving DecidableEq, Repr

mutual
/-- A request for nodes. -/
structure Request where
  filter : Option Json
  sort : List SortKey
  offset : Option UInt64
  limit : Option UInt64
  selection : Selection

/-- What is selected of a node. -/
structure Selection where
  fields : List String
  relationships : List RelationshipSelection
  connections : List ConnectionSelection

/-- Related nodes, with a request of their own. -/
structure RelationshipSelection where
  field : String
  /-- The key of the result, if it is not made from the name of the field. -/
  key : Option String
  request : Request

/-- Related nodes together with the relationships to them. -/
structure ConnectionSelection where
  field : String
  /-- The key of the result, if it is not made from the name of the field. -/
  key : Option String
  filter : Option Json
  sort : List ConnectionSortKey
  edgeFields : List String
  node : Selection
end

/-- The empty selection. -/
def Selection.empty : Selection := ⟨[], [], []⟩

/-- The request for all nodes and nothing of them. -/
def Request.empty : Request := ⟨none, [], none, none, .empty⟩

/-- The name of a side in a sort. -/
def Side.word : Side → String
  | node => "node"
  | edge => "edge"

/-- The side of a name. -/
def Side.ofWord? : String → Option Side
  | "node" => some node
  | "edge" => some edge
  | _ => none

section Reading

open Document FreeDocument

variable {α : Type} [FreeDocument α]

/-- A free-form value: the repeated keys of its objects are merged. -/
def freeForm? (value : α) : Option Json := (value? value).map Json.merged

/-- A count of rows. -/
def rows? (value : α) : Option UInt64 := (count? value).map UInt64.ofNat

/-- The sort direction written in a document. -/
def SortDirection.read? (value : α) : Option SortDirection :=
  (name? value).bind SortDirection.ofKeyword?

/-- The side written in a document. -/
def Side.read? (value : α) : Option Side := (name? value).bind Side.ofWord?

/-- A sort written in a document. -/
def SortKey.read? (value : α) : Option SortKey := do
  let field ← record? ["field", "direction"] value
  let name ← required text? (field "field")
  let direction ← defaulted SortDirection.read? .ascending (field "direction")
  return ⟨name, direction⟩

/-- A sort of a connection written in a document. -/
def ConnectionSortKey.read? (value : α) : Option ConnectionSortKey := do
  let field ← record? ["on", "field", "direction"] value
  let side ← defaulted Side.read? .node (field "on")
  let name ← required text? (field "field")
  let direction ← defaulted SortDirection.read? .ascending (field "direction")
  return ⟨side, name, direction⟩

/-- The keys of a request. -/
def Request.keys : List String := ["where", "sort", "offset", "limit", "selection"]

/-- A request from its fields, given how its selection is read. -/
def Request.ofFields (selection : α → Option Selection) (field : String → Option α) :
    Option Request := do
  let filter ← optional freeForm? (field "where")
  let sort ← defaulted (listOf SortKey.read?) [] (field "sort")
  let offset ← optional rows? (field "offset")
  let limit ← optional rows? (field "limit")
  let selection ← defaulted selection .empty (field "selection")
  return ⟨filter, sort, offset, limit, selection⟩

/-- A selection of related nodes. The fields of its request stand beside its own, and it has to be
written with keys. -/
def RelationshipSelection.readWith (selection : α → Option Selection) (value : α) :
    Option RelationshipSelection := do
  let field ← openRecord? ("field" :: "alias" :: Request.keys) value
  let name ← required text? (field "field")
  let key ← optional text? (field "alias")
  let request ← Request.ofFields selection field
  return ⟨name, key, request⟩

/-- A selection of a connection, given how the selection of its node is read. -/
def ConnectionSelection.readWith (selection : α → Option Selection) (value : α) :
    Option ConnectionSelection := do
  let field ← record? ["field", "alias", "where", "sort", "edge_fields", "node"] value
  let name ← required text? (field "field")
  let key ← optional text? (field "alias")
  let filter ← optional freeForm? (field "where")
  let sort ← defaulted (listOf ConnectionSortKey.read?) [] (field "sort")
  let edgeFields ← defaulted (listOf text?) [] (field "edge_fields")
  let node ← defaulted selection .empty (field "node")
  return ⟨name, key, filter, sort, edgeFields, node⟩

/-- A selection. The bound is on how deeply selections are nested. -/
def Selection.readWithin : Nat → α → Option Selection
  | 0, _ => none
  | bound + 1, value => do
    let inner := Selection.readWithin bound
    let field ← record? ["fields", "relationships", "connections"] value
    let fields ← defaulted (listOf text?) [] (field "fields")
    let relationships ←
      defaulted (listOf (RelationshipSelection.readWith inner)) [] (field "relationships")
    let connections ←
      defaulted (listOf (ConnectionSelection.readWith inner)) [] (field "connections")
    return ⟨fields, relationships, connections⟩

/-- A selection written in a document. -/
def Selection.read? (value : α) : Option Selection :=
  Selection.readWithin (depth value + 1) value

/-- A request written in a document. -/
def Request.read? (value : α) : Option Request := do
  let field ← record? Request.keys value
  Request.ofFields Selection.read? field

end Reading

section Writing

/-- A text that may be missing. -/
def optionalText : Option String → Json
  | some text => .string text
  | none => .null

/-- A count of rows that may be missing. -/
def optionalRows : Option UInt64 → Json
  | some count => .ofNat count.toNat
  | none => .null

/-- The entry of a filter, if there is one. -/
def filterEntry : Option Json → List (String × Json)
  | some filter => [("where", filter)]
  | none => []

/-- Texts as an array. -/
def texts (items : List String) : Json := .array (items.map .string)

/-- A sort as JSON. -/
def SortKey.toJson (sort : SortKey) : Json :=
  .object [("field", .string sort.field), ("direction", .string sort.direction.keyword)]

/-- A sort of a connection as JSON. -/
def ConnectionSortKey.toJson (sort : ConnectionSortKey) : Json :=
  .object
    [("on", .string sort.side.word), ("field", .string sort.field),
      ("direction", .string sort.direction.keyword)]

mutual
/-- The entries of a request as JSON. -/
def Request.toEntries : Request → List (String × Json)
  | ⟨filter, sort, offset, limit, selection⟩ =>
    filterEntry filter ++
      [("sort", .array (sort.map SortKey.toJson)), ("offset", optionalRows offset),
        ("limit", optionalRows limit), ("selection", selection.toJson)]
termination_by structural request => request

/-- A selection as JSON. -/
def Selection.toJson : Selection → Json
  | ⟨fields, relationships, connections⟩ =>
    .object
      [("fields", texts fields),
        ("relationships", .array (RelationshipSelection.toJsons relationships)),
        ("connections", .array (ConnectionSelection.toJsons connections))]
termination_by structural selection => selection

/-- A selection of related nodes as JSON. -/
def RelationshipSelection.toJson : RelationshipSelection → Json
  | ⟨field, key, request⟩ =>
    .object (("field", .string field) :: ("alias", optionalText key) :: request.toEntries)
termination_by structural selection => selection

/-- Selections of related nodes as JSON. -/
def RelationshipSelection.toJsons : List RelationshipSelection → List Json
  | [] => []
  | selection :: rest => selection.toJson :: RelationshipSelection.toJsons rest
termination_by structural selections => selections

/-- A selection of a connection as JSON. -/
def ConnectionSelection.toJson : ConnectionSelection → Json
  | ⟨field, key, filter, sort, edgeFields, node⟩ =>
    .object
      (("field", .string field) :: ("alias", optionalText key) :: filterEntry filter ++
        [("sort", .array (sort.map ConnectionSortKey.toJson)), ("edge_fields", texts edgeFields),
          ("node", node.toJson)])
termination_by structural selection => selection

/-- Selections of connections as JSON. -/
def ConnectionSelection.toJsons : List ConnectionSelection → List Json
  | [] => []
  | selection :: rest => selection.toJson :: ConnectionSelection.toJsons rest
termination_by structural selections => selections
end

/-- A request as JSON. -/
def Request.toJson (request : Request) : Json := .object request.toEntries

end Writing

end GraphRead
