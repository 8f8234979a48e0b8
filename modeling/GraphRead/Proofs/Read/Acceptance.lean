import GraphRead.Proofs.Filter.Failures
import GraphRead.Proofs.Read.Scoping

/-!
# Which requests are answered

A request is answered if it fits the schema: it starts from a registered node,
and wherever it goes from there it asks only for fields that are there, in order
of fields that can be sorted by, under filters that can be read. In a consistent
schema nothing else can go wrong, and where a request does not fit, it is refused
for what it asks and not for what the schema lacks.
-/

namespace GraphRead

/-- A name is that of a scalar field of a node. -/
def Node.HasScalar (node : Node) (name : String) : Prop :=
  ∃ field scalar, node.field? name = some field ∧ field.kind = .scalar scalar

/-- A name is that of a property of a relationship. -/
def Relationship.HasProperty (relationship : Relationship) (name : String) : Prop :=
  ∃ property, relationship.property? name = some property

/-- A name is that of a relationship field of a node, and something holds of its link. -/
def Node.LinksTo (schema : Schema) (node : Node) (name : String) (holds : Link → Prop) : Prop :=
  ∃ field relationship, node.field? name = some field ∧
    field.kind = .relationship relationship ∧
    ∀ target, schema.node? relationship.target = some target →
      holds ⟨field.name, relationship, target⟩

/-- There is at most one link of a name. -/
theorem Node.linksTo_iff {schema : Schema} {node target : Node} {name : String}
    {holds : Link → Prop} {field : Field} {relationship : Relationship}
    (hfield : node.field? name = some field) (hkind : field.kind = .relationship relationship)
    (htarget : schema.node? relationship.target = some target) :
    node.LinksTo schema name holds ↔ holds ⟨field.name, relationship, target⟩ := by
  constructor
  · rintro ⟨field, relationship, hfield', hkind', h⟩
    obtain rfl := Option.some.inj (hfield.symm.trans hfield')
    obtain rfl := FieldKind.relationship.inj (hkind.symm.trans hkind')
    exact h target htarget
  · intro h
    refine ⟨field, relationship, hfield, hkind, fun other hother => ?_⟩
    obtain rfl := Option.some.inj (htarget.symm.trans hother)
    exact h

/-- A value is accepted as a filter on an element. -/
def Json.FiltersElement (schema : Schema) (limit : Nat) (element : Element) (value : Json) : Prop :=
  ∀ target next, ∃ predicate, wherePredicate schema limit element target next value = .ok predicate

/-- A value is accepted as a filter on a connection. -/
def Json.FiltersConnection (schema : Schema) (limit : Nat) (link : Link) (value : Json) : Prop :=
  ∃ filter, ConnectionFilter.read schema limit link .root value = .ok filter

/-- A connection can be sorted by a key. -/
def ConnectionSortKey.Fits (link : Link) (sort : ConnectionSortKey) : Prop :=
  match sort.side with
  | .node => link.target.HasScalar sort.field
  | .edge => link.relationship.HasProperty sort.field

mutual
/-- A request fits a node of a schema. -/
def Request.Fits (schema : Schema) (limit : Nat) : Request → Node → Prop
  | ⟨filter, sort, _, _, wanted⟩, node =>
    (∀ value ∈ filter, value.FiltersElement schema limit node.element) ∧
      (∀ key ∈ sort, node.HasScalar key.field) ∧ wanted.Fits schema limit node
termination_by structural request => request

/-- A selection fits a node of a schema. -/
def Selection.Fits (schema : Schema) (limit : Nat) : Selection → Node → Prop
  | ⟨fields, related, connected⟩, node =>
    (∀ name ∈ fields, node.HasScalar name) ∧
      RelationshipSelection.AllFit schema limit related node ∧
      ConnectionSelection.AllFit schema limit connected node
termination_by structural selection => selection

/-- Selections of related nodes name relationships of a node and fit the nodes at their ends. -/
def RelationshipSelection.AllFit (schema : Schema) (limit : Nat) :
    List RelationshipSelection → Node → Prop
  | [], _ => True
  | ⟨field, _, wanted⟩ :: rest, node =>
    node.LinksTo schema field (fun link => wanted.Fits schema limit link.target) ∧
      RelationshipSelection.AllFit schema limit rest node
termination_by structural selections => selections

/-- Selections of connections name relationships of a node and fit the links. -/
def ConnectionSelection.AllFit (schema : Schema) (limit : Nat) :
    List ConnectionSelection → Node → Prop
  | [], _ => True
  | ⟨field, _, filter, sort, edgeFields, wanted⟩ :: rest, node =>
    node.LinksTo schema field (fun link =>
      (∀ value ∈ filter, value.FiltersConnection schema limit link) ∧
        wanted.Fits schema limit link.target ∧ (∀ key ∈ sort, key.Fits link) ∧
        ∀ name ∈ edgeFields, link.relationship.HasProperty name) ∧
      ConnectionSelection.AllFit schema limit rest node
termination_by structural selections => selections
end

namespace Json

open FilterReader (Accepts)

variable {schema : Schema} {limit : Nat} {value : Json}

/-- Where a filter stands does not matter to whether it is accepted. -/
theorem filtersElement_iff {element : Element} (path : KeyPath) :
    value.FiltersElement schema limit element ↔
      Accepts (Filter.read schema limit element path value) := by
  have hfits := (FilterReader.accepts_filter_and_connection schema
    (show limit + 1 + 0 = limit + 1 by omega)).1 element
  have hroot : Accepts (Filter.read schema limit element .root value) ↔
      Accepts (Filter.read schema limit element path value) :=
    (hfits .root value).trans (hfits path value).symm
  rw [← hroot]
  constructor
  · intro h
    exact FilterReader.accepts_bind_pure.mp (h (.value 0) 0)
  · intro h target next
    exact FilterReader.accepts_bind_pure.mpr h

/-- Whether a filter on a connection is accepted does not depend on the path it is read at. -/
theorem filtersConnection_iff {link : Link} (path : KeyPath) :
    value.FiltersConnection schema limit link ↔
      Accepts (ConnectionFilter.read schema limit link path value) := by
  have hfits := (FilterReader.accepts_filter_and_connection schema
    (show limit + 1 + 0 = limit + 1 by omega)).2 link
  exact (hfits .root value).trans (hfits path value).symm

end Json

/-- An error that is the fault of a request, and neither of the schema nor of rendering. -/
def ReadError.BlamesRequest : ReadError → Prop
  | .filter error => ∀ cause, error ≠ .schema cause
  | .build _ | .schema _ => False
  | .unknownSort .. | .unknownSelection .. => True

/-- A plan succeeds if something holds, and else it fails by fault of the request. -/
def Plan.Decides {α : Type} (plan : Plan α) (p : Prop) : Prop :=
  ∀ next, p ∧ (∃ result, plan.run next = .ok result) ∨
    ¬ p ∧ ∃ error, plan.run next = .error error ∧ error.BlamesRequest

namespace Plan.Decides

variable {α β : Type} {p q : Prop}

/-- What decides a plan can be said in another way. -/
theorem congr {plan : Plan α} (h : Decides plan p) (hiff : p ↔ q) : Decides plan q := by
  rw [← hiff]
  exact h

/-- A plan that only returns always succeeds. -/
theorem pure (a : α) : Decides (Pure.pure a) True := by
  intro next
  exact .inl ⟨trivial, (a, next), rfl⟩

/-- Looking something up succeeds if it is there. -/
theorem found {error : ReadError} (herror : error.BlamesRequest) (value : Option α) :
    Decides (Plan.found error value) (∃ a, value = some a) := by
  intro next
  cases value with
  | some a => exact .inl ⟨⟨a, rfl⟩, (a, next), rfl⟩
  | none => exact .inr ⟨nofun, error, rfl, herror⟩

/-- A filter is decided by its reader, if the schema is not to blame. -/
theorem checked {result : FilterResult α} (h : FilterReader.SparesSchema result) :
    Decides (Plan.checked .filter result) (FilterReader.Accepts result) := by
  intro next
  cases result with
  | ok a => exact .inl ⟨⟨a, rfl⟩, (a, next), rfl⟩
  | error error =>
    refine .inr ⟨FilterReader.not_accepts_error error, .filter error, rfl, ?_⟩
    exact fun cause heq => h cause (congrArg Except.error heq)

/-- Both steps have to succeed. -/
theorem bind {plan : Plan α} {next : α → Plan β} (h : Decides plan p)
    (hnext : ∀ a, Decides (next a) q) : Decides (plan >>= next) (p ∧ q) := by
  intro start
  rw [StateT.run_bind]
  rcases h start with ⟨hp, ⟨a, middle⟩, hrun⟩ | ⟨hp, error, hrun, herror⟩
  · rw [hrun]
    rcases hnext a middle with ⟨hq, hresult⟩ | ⟨hq, hfailure⟩
    · exact .inl ⟨⟨hp, hq⟩, hresult⟩
    · exact .inr ⟨fun hboth => hq hboth.2, hfailure⟩
  · rw [hrun]
    exact .inr ⟨fun hboth => hp hboth.1, error, rfl, herror⟩

/-- Taking identities does not fail. -/
theorem fresh_bind {step : Fresh α} {next : α → Plan β} (hnext : ∀ a, Decides (next a) q) :
    Decides (Plan.fresh step >>= next) q := by
  intro start
  exact hnext (step.run start).1 (step.run start).2

/-- Where nothing can fail any more, the first step decides. -/
theorem bind_true {plan : Plan α} {next : α → Plan β} (h : Decides plan p)
    (hnext : ∀ a, Decides (next a) True) : Decides (plan >>= next) p :=
  (h.bind hnext).congr (iff_of_eq (and_true p))

end Plan.Decides

namespace Read

open Plan (Decides)

/-- The scalar fields are those that a name is looked up among. -/
theorem exists_scalarField?_iff {node : Node} {name : String} :
    (∃ field, scalarField? node name = some field) ↔ node.HasScalar name := by
  simp only [scalarField?, Option.filter_eq_some_iff]
  constructor
  · rintro ⟨field, hfield, hscalar⟩
    obtain ⟨scalar, hscalar⟩ := Option.isSome_iff_exists.mp hscalar
    exact ⟨field, scalar, hfield, FilterReader.kind_of_scalar? hscalar⟩
  · rintro ⟨field, scalar, hfield, hkind⟩
    exact ⟨field, hfield, by simp [Field.scalar?, hkind]⟩

section Leaves

variable (node : Node) (v related edge : Variable) (link : Link) (path : String)

/-- Sort keys are accepted if each is a scalar of the node. -/
theorem decides_sortKeys (index : Nat) (sort : List SortKey) :
    Decides (sortKeys node v path index sort) (∀ key ∈ sort, node.HasScalar key.field) := by
  induction sort generalizing index with
  | nil => exact (Decides.pure _).congr (iff_of_true trivial (List.forall_mem_nil _))
  | cons key rest ih =>
    rw [sortKeys, List.forall_mem_cons, ← exists_scalarField?_iff]
    exact (Decides.found (by trivial) _).bind fun _ => (ih (index + 1)).bind_true fun _ => .pure _

/-- Sort keys of a connection are accepted if each fits its side of the link. -/
theorem decides_connectionSortKeys (index : Nat) (sort : List ConnectionSortKey) :
    Decides (connectionSortKeys link related edge path index sort)
      (∀ key ∈ sort, key.Fits link) := by
  induction sort generalizing index with
  | nil => exact (Decides.pure _).congr (iff_of_true trivial (List.forall_mem_nil _))
  | cons key rest ih =>
    obtain ⟨s, field, direction⟩ := key
    rw [connectionSortKeys, List.forall_mem_cons]
    cases s with
    | node =>
      rw [ConnectionSortKey.Fits, ← exists_scalarField?_iff]
      exact (Decides.found (by trivial) _).bind fun _ =>
        (ih (index + 1)).bind_true fun _ => .pure _
    | edge =>
      exact (Decides.found (by trivial) _).bind fun _ =>
        (ih (index + 1)).bind_true fun _ => .pure _

/-- Selected fields are accepted if each is a scalar of the node. -/
theorem decides_fieldEntries (names : List String) :
    Decides (fieldEntries node v path names) (∀ name ∈ names, node.HasScalar name) := by
  induction names with
  | nil => exact (Decides.pure _).congr (iff_of_true trivial (List.forall_mem_nil _))
  | cons name rest ih =>
    rw [fieldEntries, List.forall_mem_cons, ← exists_scalarField?_iff]
    refine (Decides.found (by trivial) _).bind fun field => ih.bind_true fun entries => ?_
    split <;> exact .pure _

/-- Selected properties of edges are accepted if the relationship has each. -/
theorem decides_edgeEntries (names : List String) :
    Decides (edgeEntries link edge path names)
      (∀ name ∈ names, link.relationship.HasProperty name) := by
  induction names with
  | nil => exact (Decides.pure _).congr (iff_of_true trivial (List.forall_mem_nil _))
  | cons name rest ih =>
    rw [edgeEntries, List.forall_mem_cons]
    exact (Decides.found (by trivial) _).bind fun _ => ih.bind_true fun _ => .pure _

end Leaves

/-- A clause that is missing cannot be refused. -/
theorem decides_optionalClause {clause : Json → Plan Statement} {p : Json → Prop}
    (h : ∀ value, Decides (clause value) (p value)) (filter : Option Json) :
    Decides (optionalClause clause filter) (∀ value ∈ filter, p value) := by
  cases filter with
  | none => exact (Decides.pure _).congr (iff_of_true trivial nofun)
  | some value => exact ((h value).bind_true fun _ => .pure _).congr (by simp)

/-- A relationship of the node is found, with its target. -/
theorem selectedLink_eq_pure {setting : Setting} {node target : Node} {name : String}
    {field : Field} {relationship : Relationship} (path : String)
    (hfield : node.field? name = some field) (hkind : field.kind = .relationship relationship)
    (htarget : setting.schema.node? relationship.target = some target) :
    selectedLink setting node name path = pure ⟨field.name, relationship, target⟩ := by
  simp [selectedLink, hfield, Field.relationship?, hkind, Schema.node, htarget, Plan.found,
    Plan.checked]

/-- A name that is no relationship of the node is refused as a selection. -/
theorem selectedLink_eq_throw (setting : Setting) {node : Node} {name : String} (path : String)
    (h : ∀ field, node.field? name = some field →
      ∀ relationship, field.kind ≠ .relationship relationship) :
    selectedLink setting node name path = throw (.unknownSelection path node.name name) := by
  have hmissing : ((node.field? name).bind fun field =>
      field.relationship?.map fun relationship => (field, relationship)) = none := by
    simp only [Option.bind_eq_none_iff, Option.map_eq_none_iff]
    intro field hfield
    cases hkind : field.kind with
    | scalar _ => simp [Field.relationship?, hkind]
    | relationship relationship => exact absurd hkind (h field hfield relationship)
  rw [selectedLink, hmissing]
  rfl

section Links

variable {setting : Setting} (hconsistent : setting.schema.Consistent)

include hconsistent

/-- A filter is accepted if it filters the element. -/
theorem decides_filterClause (element : Element)
    (helement : setting.schema.Supports element.fields) (target : Variable) (path : String)
    (value : Json) :
    Decides (filterClause setting element target path value)
      (value.FiltersElement setting.schema setting.maxFilterDepth element) := by
  have hspares := (FilterReader.SparesSchema.filter_and_connection hconsistent
    setting.maxFilterDepth (setting.maxFilterDepth + 1)).1 element helement
  rw [Json.filtersElement_iff (.located (path ++ ".where"))]
  exact (Decides.checked (hspares _ value)).bind_true fun _ => .fresh_bind fun _ => .pure _

/-- A filter on a connection is accepted if it filters the connection. -/
theorem decides_connectionClause {link : Link} (hlink : link.Supported setting.schema)
    (related edge : Variable) (path : String) (value : Json) :
    Decides (connectionClause setting link related edge path value)
      (value.FiltersConnection setting.schema setting.maxFilterDepth link) := by
  have hspares := (FilterReader.SparesSchema.filter_and_connection hconsistent
    setting.maxFilterDepth (setting.maxFilterDepth + 1)).2 link hlink
  rw [Json.filtersConnection_iff (.located (path ++ ".where"))]
  exact (Decides.checked (hspares _ value)).bind_true fun _ => .fresh_bind fun _ => .pure _

/-- A selection follows a relationship field, whose target is there, and goes on from its link. -/
theorem decides_selectedLink {α : Type} {node : Node}
    (hnode : setting.schema.Supports node.fields) {name path : String} {next : Link → Plan α}
    {holds : Link → Prop} {q : Prop}
    (hnext : ∀ link : Link, link.Supported setting.schema → Decides (next link) (holds link ∧ q)) :
    Decides (selectedLink setting node name path >>= next)
      (node.LinksTo setting.schema name holds ∧ q) := by
  by_cases hnamed : ∃ field relationship,
      node.field? name = some field ∧ field.kind = .relationship relationship
  · obtain ⟨field, relationship, hfield, hkind⟩ := hnamed
    have hmem : field ∈ node.fields := List.mem_of_find?_eq_some hfield
    -- Consistency gives the target, so that the schema cannot be at fault here.
    obtain ⟨⟨target, htarget⟩, -⟩ := hnode field hmem relationship hkind
    rw [selectedLink_eq_pure path hfield hkind htarget, pure_bind,
      Node.linksTo_iff hfield hkind htarget]
    exact hnext _ (hconsistent.supported hnode hmem hkind htarget)
  · intro start
    refine .inr ⟨fun h => ?_, .unknownSelection path node.name name, ?_, trivial⟩
    · obtain ⟨field, relationship, hfield, hkind, -⟩ := h.1
      exact hnamed ⟨field, relationship, hfield, hkind⟩
    · rw [selectedLink_eq_throw setting path fun field hfield relationship hkind =>
        hnamed ⟨field, relationship, hfield, hkind⟩]
      rfl

end Links

mutual
/-- Planning a request succeeds if the request fits. -/
theorem decides_request (setting : Setting) (hconsistent : setting.schema.Consistent)
    {node : Node} (hnode : setting.schema.Supports node.fields) (v : Variable) (path : String)
    (wanted : Request) :
    Decides (request setting node v path wanted)
      (wanted.Fits setting.schema setting.maxFilterDepth node) := by
  match wanted with
  | ⟨filter, sort, offset, limit, wanted⟩ =>
    rw [request, Request.Fits]
    have hfilter := decides_filterClause hconsistent node.element hnode v path
    have hselection := decides_selection setting hconsistent hnode v path wanted
    refine (decides_optionalClause hfilter filter).bind fun filters => ?_
    refine (decides_sortKeys node v path 0 sort).bind fun keys => ?_
    exact hselection.bind_true fun _ => .pure _
termination_by structural wanted

/-- A selection is accepted exactly if it fits the node. -/
theorem decides_selection (setting : Setting) (hconsistent : setting.schema.Consistent)
    {node : Node} (hnode : setting.schema.Supports node.fields) (v : Variable) (path : String)
    (wanted : Selection) :
    Decides (selection setting node v path wanted)
      (wanted.Fits setting.schema setting.maxFilterDepth node) := by
  match wanted with
  | ⟨fields, related, connected⟩ =>
    rw [selection, Selection.Fits]
    have hrelated := decides_relationships setting hconsistent hnode v path related
    have hconnected := decides_connections setting hconsistent hnode v path connected
    refine (decides_fieldEntries node v path fields).bind fun entries => ?_
    refine hrelated.bind fun calls => ?_
    exact hconnected.bind_true fun _ => .pure _
termination_by structural wanted

/-- Selections of related nodes are accepted exactly if all of them fit the node. -/
theorem decides_relationships (setting : Setting) (hconsistent : setting.schema.Consistent)
    {node : Node} (hnode : setting.schema.Supports node.fields) (v : Variable) (path : String)
    (selections : List RelationshipSelection) :
    Decides (relationships setting node v path selections)
        (RelationshipSelection.AllFit setting.schema setting.maxFilterDepth selections node) := by
  match selections with
  | [] => exact .pure _
  | ⟨field, key, wanted⟩ :: rest =>
    rw [relationships, RelationshipSelection.AllFit]
    have hrest := decides_relationships setting hconsistent hnode v path rest
    refine decides_selectedLink hconsistent hnode fun link hlink => ?_
    refine .fresh_bind fun related => .fresh_bind fun edge => ?_
    refine (decides_request setting hconsistent hlink.target related _ wanted).bind fun result => ?_
    exact .fresh_bind fun value => hrest.bind_true fun _ => .pure _
termination_by structural selections

/-- Selections of connections are accepted exactly if all of them fit the node. -/
theorem decides_connections (setting : Setting) (hconsistent : setting.schema.Consistent)
    {node : Node} (hnode : setting.schema.Supports node.fields) (v : Variable) (path : String)
    (selections : List ConnectionSelection) :
    Decides (connections setting node v path selections)
        (ConnectionSelection.AllFit setting.schema setting.maxFilterDepth selections node) := by
  match selections with
  | [] => exact .pure _
  | ⟨field, key, filter, sort, edgeFields, wanted⟩ :: rest =>
    rw [connections, ConnectionSelection.AllFit]
    have hrest := decides_connections setting hconsistent hnode v path rest
    refine decides_selectedLink hconsistent hnode fun link hlink => ?_
    refine .fresh_bind fun related => .fresh_bind fun edge => ?_
    have hfilter := decides_connectionClause hconsistent hlink related edge
      (path ++ "." ++ field ++ "Connection")
    simp only [and_assoc]
    refine (decides_optionalClause hfilter filter).bind fun filters => ?_
    refine (decides_selection setting hconsistent hlink.target related _ wanted).bind
      fun result => ?_
    refine (decides_connectionSortKeys related edge link _ 0 sort).bind fun keys => ?_
    refine (decides_edgeEntries edge link _ edgeFields).bind fun properties => ?_
    refine .fresh_bind fun edgeMap => .fresh_bind fun edges => .fresh_bind fun value => ?_
    exact hrest.bind_true fun _ => .pure _
termination_by structural selections
end

section Query

variable {schema : Schema} {name : String} {wanted : Request} {settings : Settings}

/-- What keeps a request from a statement keeps it from an answer. -/
theorem query_of_statement_error {error : ReadError}
    (h : statement schema name wanted settings = .error error) :
    query schema name wanted settings = .error error := by
  rw [query, h]
  rfl

/-- A request that has a statement is answered, as the statement can be rendered. -/
theorem exists_query_of_statement {result : Statement}
    (h : statement schema name wanted settings = .ok result) :
    ∃ built, query schema name wanted settings = .ok built := by
  obtain ⟨built, hbuilt⟩ := (wellScoped_of_statement h).build_ok settings.toRenderOptions
  refine ⟨built, ?_⟩
  rw [query, h]
  show (result.build settings.toRenderOptions).mapError ReadError.build = .ok built
  rw [hbuilt]
  rfl

variable (wanted) (settings)

/-- The statement of a request for a registered node is made from its plan. -/
theorem statement_of_node?_eq_some {node : Node} (h : schema.node? name = some node) :
    let this := Variable.namedNode 0 settings.variablePrefix node.labels
    statement schema name wanted settings =
      (request ⟨schema, settings.maxFilterDepth⟩ node this name wanted).run 1 >>= fun planned =>
        pure (.matching false ⟨.of this, []⟩
          (planned.1.1 ++ [.returning false [.aliased planned.1.2 this]])) := by
  rw [statement, Schema.node, h]
  rfl

/-- A request for a node that the schema does not have is refused before it is looked at. -/
theorem query_of_node?_eq_none (h : schema.node? name = none) :
    query schema name wanted settings = .error (.schema (.unknownNode name)) := by
  apply query_of_statement_error
  rw [statement, Schema.node, h]
  rfl

/-- A request for a registered node is answered if it fits, and else refused by its own fault. -/
theorem query_of_node?_eq_some (hconsistent : schema.Consistent) {node : Node}
    (h : schema.node? name = some node) :
    wanted.Fits schema settings.maxFilterDepth node ∧
        (∃ built, query schema name wanted settings = .ok built) ∨
      ¬ wanted.Fits schema settings.maxFilterDepth node ∧
        ∃ error, query schema name wanted settings = .error error ∧ error.BlamesRequest := by
  have hsupports := hconsistent node (Schema.mem_of_node? h)
  have hdecides := decides_request ⟨schema, settings.maxFilterDepth⟩ hconsistent hsupports
    (.namedNode 0 settings.variablePrefix node.labels) name wanted 1
  have hstatement := statement_of_node?_eq_some wanted settings h
  dsimp only at hstatement
  rcases hdecides with ⟨hfits, planned, hrun⟩ | ⟨hfits, error, hrun, herror⟩
  · rw [hrun] at hstatement
    exact .inl ⟨hfits, exists_query_of_statement hstatement⟩
  · rw [hrun] at hstatement
    exact .inr ⟨hfits, error, query_of_statement_error hstatement, herror⟩

end Query

/-- A request is answered exactly if it fits the schema. A node that is not registered is missed
only if it is the one that the request starts from. -/
theorem query_answers_iff_fits {definition : SchemaDefinition} {schema : Schema}
    (hschema : definition.resolve = .ok schema) (name : String) (wanted : Request)
    (settings : Settings) :
    ((∃ result, query schema name wanted settings = .ok result) ↔
      ∃ node, schema.node? name = some node ∧
        wanted.Fits schema settings.maxFilterDepth node) ∧
    (∀ cause, query schema name wanted settings = .error (.schema cause) ↔
      schema.node? name = none ∧ cause = .unknownNode name) ∧
    ∀ cause, query schema name wanted settings ≠ .error (.filter (.schema cause)) := by
  cases hnode : schema.node? name with
  | none =>
    rw [query_of_node?_eq_none wanted settings hnode]
    simp [eq_comm]
  | some node =>
    -- Where the node exists, all errors are the fault of the request.
    have hconsistent := SchemaDefinition.consistent_of_resolve hschema
    rcases query_of_node?_eq_some wanted settings hconsistent hnode with
      ⟨hfits, result, hquery⟩ | ⟨hfits, error, hquery, herror⟩
    · rw [hquery]
      simp [hfits]
    · rw [hquery]
      refine ⟨by simp [hfits], fun cause => ?_, fun cause heq => ?_⟩
      · refine iff_of_false (fun heq => ?_) (by simp)
        obtain rfl := Except.error.inj heq
        exact herror
      · obtain rfl := Except.error.inj heq
        exact herror cause rfl

/-- Films and the people in them, as they are declared. -/
def filmDefinition : SchemaDefinition where
  name := none
  nodes :=
    [⟨"Film", none,
        [⟨"title", some .string, false, none, none, none⟩,
          ⟨"year", some .int, false, some "released", none, none⟩,
          ⟨"cast", none, false, none, none,
            some ⟨"ACTED_IN", .incoming, "Person", true,
              [⟨"role", some .string, false, none, none, none⟩]⟩⟩]⟩,
      ⟨"Person", none, [⟨"name", some .string, false, none, none, none⟩]⟩]

/-- The request for films fits the schema that is declared. Asked of a node that is not there, it is
refused. -/
theorem filmRequest_fits :
    filmDefinition.resolve = .ok filmSchema ∧
      filmRequest.Fits filmSchema ({} : Settings).maxFilterDepth filmNode ∧
      query filmSchema "Studio" filmRequest {} = .error (.schema (.unknownNode "Studio")) := by
  have hresolve : filmDefinition.resolve = .ok filmSchema := rfl
  refine ⟨hresolve, ?_, ?_⟩
  · have hok : (query filmSchema "Film" filmRequest {}).isOk = true := by decide +kernel
    cases hquery : query filmSchema "Film" filmRequest {} with
    | error error => simp [hquery, Except.isOk, Except.toBool] at hok
    | ok result =>
      obtain ⟨node, hnode, hfits⟩ :=
        (query_answers_iff_fits hresolve "Film" filmRequest {}).1.mp ⟨result, hquery⟩
      obtain rfl : filmNode = node := Option.some.inj hnode
      exact hfits
  · exact ((query_answers_iff_fits hresolve "Studio" filmRequest {}).2.1 _).mpr ⟨rfl, rfl⟩

end Read

end GraphRead
