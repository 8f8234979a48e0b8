import GraphRead.Cypher.Query
import GraphRead.Filter.Predicate
import GraphRead.Read.Request

/-!
# Planning reads

A request for a kind of node becomes a statement: the nodes are matched,
filtered, put in order and cut to a page; every selection of related nodes is a
subquery that returns one value; and the selection is a map made from the node
and those values.
-/

namespace GraphRead

/-- Why a request cannot be answered. -/
inductive ReadError where
  | filter (error : FilterError)
  | build (error : BuildError)
  | schema (error : SchemaError)
  | unknownSort (path element field : String)
  | unknownSelection (path element field : String)
deriving DecidableEq, Repr

/-- The wording of a read error. -/
def ReadError.message : ReadError → String
  | .filter error => error.message
  | .build error => error.message
  | .schema error => error.message
  | .unknownSort path element field =>
    "Cannot sort `" ++ element ++ "` by `" ++ field ++ "` at `" ++ path ++ "`"
  | .unknownSelection path element field =>
    "Cannot select `" ++ field ++ "` on `" ++ element ++ "` at `" ++ path ++ "`"

/-- A step of planning, which takes identities and may fail. -/
abbrev Plan := StateT Nat (Except ReadError)

namespace Plan

/-- A step that only takes identities. -/
def fresh {α : Type} (step : Fresh α) : Plan α := fun next => .ok (step.run next)

/-- A step that only may fail. -/
def checked {α ε : Type} (wrap : ε → ReadError) (result : Except ε α) : Plan α :=
  match result with
  | .ok value => pure value
  | .error error => throw (wrap error)

/-- A value that has to be there. -/
def found {α : Type} (error : ReadError) : Option α → Plan α
  | some value => pure value
  | none => throw error

end Plan

namespace Read

/-- What planning depends on. -/
structure Setting where
  schema : Schema
  maxFilterDepth : Nat

/-- The scalar field of a node. -/
def scalarField? (node : Node) (name : String) : Option Field :=
  (node.field? name).filter fun field => field.scalar?.isSome

/-- The condition of a filter at a location, as a clause. -/
def filterClause (setting : Setting) (element : Element) (target : Variable) (path : String)
    (filter : Json) : Plan Statement := do
  let filter ← Plan.checked .filter <|
    Filter.read setting.schema setting.maxFilterDepth element (.located (path ++ ".where")) filter
  let predicate ← Plan.fresh (filter.predicate target)
  return .condition (.predicate predicate)

/-- The condition of a connection filter at a location, as a clause. -/
def connectionClause (setting : Setting) (link : Link) (related edge : Variable) (path : String)
    (filter : Json) : Plan Statement := do
  let filter ← Plan.checked .filter <|
    ConnectionFilter.read setting.schema setting.maxFilterDepth link
      (.located (path ++ ".where")) filter
  let predicate ← Plan.fresh (filter.predicate related edge)
  return .condition (.predicate predicate)

/-- A clause that may be missing. -/
def optionalClause (clause : Json → Plan Statement) : Option Json → Plan (List Statement)
  | none => return []
  | some filter => do
    let clause ← clause filter
    return [clause]

/-- The path of the sort with the given index. -/
def sortPath (path : String) (index : Nat) : String :=
  path ++ ".sort[" ++ toString index ++ "]"

/-- The sort keys of a request. -/
def sortKeys (node : Node) (v : Variable) (path : String) :
    (index : Nat) → List SortKey → Plan (List (Expr × SortDirection))
  | _, [] => return []
  | index, sort :: rest => do
    let field ← Plan.found (.unknownSort (sortPath path index) node.name sort.field)
      (scalarField? node sort.field)
    let keys ← sortKeys node v path (index + 1) rest
    return (.property v [field.property], sort.direction) :: keys

/-- The name of the relationship side of a connection. -/
def edgeElement (link : Link) : String := link.field ++ "Connection.edge"

/-- The sort keys of a connection. -/
def connectionSortKeys (link : Link) (related edge : Variable) (path : String) :
    (index : Nat) → List ConnectionSortKey → Plan (List (Expr × SortDirection))
  | _, [] => return []
  | index, sort :: rest => do
    let (v, field, element) :=
      match sort.side with
      | .node => (related, scalarField? link.target sort.field, link.target.name)
      | .edge => (edge, link.relationship.property? sort.field, edgeElement link)
    let field ← Plan.found (.unknownSort (sortPath path index) element sort.field) field
    let keys ← connectionSortKeys link related edge path (index + 1) rest
    return (.property v [field.property], sort.direction) :: keys

/-- The sort clause, if there is anything to sort by. -/
def orderClause : List (Expr × SortDirection) → List Statement
  | [] => []
  | keys => [.ordering keys]

/-- The clause that puts rows in order and cuts them to a page, if a request asks for it. -/
def pageClause (keys : List (Expr × SortDirection)) (offset limit : Option UInt64) :
    List Statement :=
  let clauses :=
    orderClause keys ++ (offset.map Statement.skipping).toList
      ++ (limit.map Statement.limiting).toList
  if clauses.isEmpty then [] else [.passingAll false clauses]

/-- The entries of the selected fields. A field that is stored under another name is computed. -/
def fieldEntries (node : Node) (v : Variable) (path : String) : List String → Plan (List MapEntry)
  | [] => return []
  | name :: rest => do
    let field ← Plan.found (.unknownSelection (path ++ "." ++ name) node.name name)
      (scalarField? node name)
    let entries ← fieldEntries node v path rest
    if field.property = field.name then return .stored field.name :: entries
    else return .computed field.name (.property v [field.property]) :: entries

/-- The entries of the selected properties of a relationship. -/
def edgeEntries (link : Link) (edge : Variable) (path : String) :
    List String → Plan (List (String × Expr))
  | [] => return []
  | name :: rest => do
    let property ← Plan.found
      (.unknownSelection (path ++ ".edges." ++ name) (edgeElement link) name)
      (link.relationship.property? name)
    let entries ← edgeEntries link edge path rest
    return (name, .property edge [property.property]) :: entries

/-- The link of a relationship field of a node. -/
def selectedLink (setting : Setting) (node : Node) (name path : String) : Plan Link := do
  let (field, relationship) ← Plan.found (.unknownSelection path node.name name) <|
    (node.field? name).bind fun field =>
      field.relationship?.map fun relationship => (field, relationship)
  let target ← Plan.checked .schema (setting.schema.node relationship.target)
  return ⟨field.name, relationship, target⟩

/-- A subquery that imports the node it starts from. -/
def subquery (parent : Variable) (pattern : Pattern) (clauses : List Statement) : Statement :=
  .calling (.matching false pattern clauses) [parent] none []

/-- All related nodes, or the first of them if there is at most one. -/
def collected (link : Link) (related : Variable) : Expr :=
  let all := Expr.apply "collect" [.var related]
  if link.relationship.isList then all else .apply "head" [all]

/-- The last clauses of a subquery for related nodes. -/
def relatedResult (link : Link) (related result : Variable) (projection : Expr) :
    List Statement :=
  [.passing false [.aliased projection related] [],
    .returning false [.aliased (collected link related) result]]

/-- The last clauses of a subquery for a connection. -/
def connectionResult (edgeMap edges result : Variable) (entries : List (String × Expr)) :
    List Statement :=
  [.passing false [.aliased (.map entries) edgeMap] [],
    .passing false [.aliased (.apply "collect" [.var edgeMap]) edges] [],
    .returning false
      [.aliased (.map [("edges", .var edges), ("totalCount", .apply "size" [.var edges])])
        result]]

/-- The key of a selection of related nodes. -/
def relationshipKey (field : String) (key : Option String) : String := key.getD field

/-- The key of a selection of a connection. -/
def connectionKey (field : String) (key : Option String) : String :=
  key.getD (field ++ "Connection")

mutual
/-- The clauses of a request on a variable, and the map that answers it. -/
def request (setting : Setting) (node : Node) (v : Variable) (path : String) :
    Request → Plan (List Statement × Expr)
  | ⟨filter, sort, offset, limit, wanted⟩ => do
    let filters ← optionalClause (filterClause setting node.element v path) filter
    let keys ← sortKeys node v path 0 sort
    let (calls, projection) ← selection setting node v path wanted
    return (filters ++ pageClause keys offset limit ++ calls, projection)
termination_by structural request => request

/-- The subqueries of a selection on a variable, and the map that answers it. -/
def selection (setting : Setting) (node : Node) (v : Variable) (path : String) :
    Selection → Plan (List Statement × Expr)
  | ⟨fields, related, connected⟩ => do
    let entries ← fieldEntries node v path fields
    let (relatedCalls, relatedEntries) ← relationships setting node v path related
    let (connectedCalls, connectedEntries) ← connections setting node v path connected
    return (relatedCalls ++ connectedCalls,
      .project v (entries ++ relatedEntries ++ connectedEntries))
termination_by structural selection => selection

/-- The subqueries for related nodes, and the entries of their results. -/
def relationships (setting : Setting) (node : Node) (v : Variable) (path : String) :
    List RelationshipSelection → Plan (List Statement × List MapEntry)
  | [] => return ([], [])
  | ⟨field, key, wanted⟩ :: rest => do
    let place := path ++ "." ++ field
    let link ← selectedLink setting node field place
    let related ← Plan.fresh (.node link.target.labels)
    let edge ← Plan.fresh (.relationship link.relationship.type)
    let (clauses, projection) ← request setting link.target related place wanted
    let result ← Plan.fresh .value
    let call := subquery v (link.pattern v (some edge) related)
      (clauses ++ relatedResult link related result projection)
    let (calls, entries) ← relationships setting node v path rest
    return (call :: calls, .computed (relationshipKey field key) (.var result) :: entries)
termination_by structural selections => selections

/-- The subqueries for connections, and the entries of their results. The rows are put in order
after the nested subqueries, so that these keep the order. -/
def connections (setting : Setting) (node : Node) (v : Variable) (path : String) :
    List ConnectionSelection → Plan (List Statement × List MapEntry)
  | [] => return ([], [])
  | ⟨field, key, filter, sort, edgeFields, wanted⟩ :: rest => do
    let place := path ++ "." ++ field ++ "Connection"
    let link ← selectedLink setting node field place
    let related ← Plan.fresh (.node link.target.labels)
    let edge ← Plan.fresh (.relationship link.relationship.type)
    let filters ← optionalClause (connectionClause setting link related edge place) filter
    let (clauses, projection) ← selection setting link.target related place wanted
    let keys ← connectionSortKeys link related edge place 0 sort
    let properties ← edgeEntries link edge place edgeFields
    let edgeMap ← Plan.fresh .value
    let edges ← Plan.fresh .value
    let result ← Plan.fresh .value
    let call := subquery v (link.pattern v (some edge) related)
      (filters ++ clauses ++ pageClause keys none none
        ++ connectionResult edgeMap edges result (properties ++ [("node", projection)]))
    let (calls, entries) ← connections setting node v path rest
    return (call :: calls, .computed (connectionKey field key) (.var result) :: entries)
termination_by structural selections => selections
end

/-- The statement that answers a request for nodes of a kind. The node that it starts from bears
the prefix of variables as its name. -/
def statement (schema : Schema) (name : String) (wanted : Request) (settings : Settings) :
    Except ReadError Statement := do
  let node ← (schema.node name).mapError .schema
  let this := Variable.namedNode 0 settings.variablePrefix node.labels
  let ((clauses, projection), _) ←
    (request ⟨schema, settings.maxFilterDepth⟩ node this name wanted).run 1
  return .matching false ⟨.of this, []⟩ (clauses ++ [.returning false [.aliased projection this]])

/-- The query that answers a request for nodes of a kind. -/
def query (schema : Schema) (name : String) (wanted : Request) (settings : Settings) :
    Except ReadError Query := do
  let statement ← statement schema name wanted settings
  (statement.build settings.toRenderOptions).mapError .build

end Read

end GraphRead
