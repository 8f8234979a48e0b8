import GraphRead.Proofs.Read.Values

/-!
# How requests are answered

Planning a read looks fields up, takes identities and may fail on the way. What it
returns when it succeeds is described here without any of this, as a relation
between a request, the clauses that answer it and the map that they make: one rule
for requests, one for selections, and two for each kind of subquery.
-/

namespace GraphRead

namespace Read

/-- The condition that is made from a filter, if there is one. -/
inductive Conditions {β : Type} (read : Json → FilterResult β)
    (compile : β → Fresh (Option Predicate)) : Option Json → List Statement → Prop where
  | none : Conditions read compile none []
  | some {value : Json} {filter : β} (next : Nat) (hread : read value = .ok filter) :
    Conditions read compile (some value)
      [.condition (.predicate ((compile filter).run next).1)]

/-- Sorting by a scalar field of a node. -/
def SortsBy (node : Node) (v : Variable) (sort : SortKey) (key : Expr × SortDirection) : Prop :=
  ∃ field, scalarField? node sort.field = some field ∧
    key = (.property v [field.property], sort.direction)

/-- The field of a name on a side of a connection. -/
def sideField? (link : Link) (name : String) : Side → Option Field
  | .node => scalarField? link.target name
  | .edge => link.relationship.property? name

/-- The variable that stands for a side. -/
def sideVariable (related edge : Variable) : Side → Variable
  | .node => related
  | .edge => edge

/-- Sorting by a field of one of the sides of a connection. -/
def ConnectionSortsBy (link : Link) (related edge : Variable) (sort : ConnectionSortKey)
    (key : Expr × SortDirection) : Prop :=
  ∃ field, sideField? link sort.field sort.side = some field ∧
    key = (.property (sideVariable related edge sort.side) [field.property], sort.direction)

/-- The entry of a selected field. -/
def FieldEntry (node : Node) (v : Variable) (name : String) (entry : MapEntry) : Prop :=
  ∃ field, scalarField? node name = some field ∧
    entry = if field.property = field.name then .stored field.name
      else .computed field.name (.property v [field.property])

/-- The entry of a selected property of a relationship. -/
def EdgeEntry (link : Link) (edge : Variable) (name : String) (entry : String × Expr) : Prop :=
  ∃ property, link.relationship.property? name = some property ∧
    entry = (name, .property edge [property.property])

mutual
/-- Clauses on a variable and a map answer a request. -/
inductive AnswersRequest (setting : Setting) :
    Node → Variable → Request → List Statement → Expr → Prop where
  | intro {node : Node} {v : Variable} {filter : Option Json} {sort : List SortKey}
    {offset limit : Option UInt64} {wanted : Selection} {filters calls : List Statement}
    {keys : List (Expr × SortDirection)} {projection : Expr} {path : KeyPath}
    (hfilter : Conditions
      (Filter.read setting.schema setting.maxFilterDepth node.element path)
      (fun f => f.predicate v) filter filters)
    (hsort : List.Forall₂ (SortsBy node v) sort keys)
    (hwanted : AnswersSelection setting node v wanted calls projection) :
    AnswersRequest setting node v ⟨filter, sort, offset, limit, wanted⟩
      (filters ++ pageClause keys offset limit ++ calls) projection

/-- Subqueries on a variable and a map answer a selection. -/
inductive AnswersSelection (setting : Setting) :
    Node → Variable → Selection → List Statement → Expr → Prop where
  | intro {node : Node} {v : Variable} {fields : List String}
    {related : List RelationshipSelection} {connected : List ConnectionSelection}
    {relatedCalls connectedCalls : List Statement}
    {entries relatedEntries connectedEntries : List MapEntry}
    (hfields : List.Forall₂ (FieldEntry node v) fields entries)
    (hrelated : AnswersRelated setting node v related relatedCalls relatedEntries)
    (hconnected : AnswersConnected setting node v connected connectedCalls connectedEntries) :
    AnswersSelection setting node v ⟨fields, related, connected⟩ (relatedCalls ++ connectedCalls)
      (.project v (entries ++ relatedEntries ++ connectedEntries))

/-- Subqueries and the entries of their results answer selections of related nodes. -/
inductive AnswersRelated (setting : Setting) :
    Node → Variable → List RelationshipSelection → List Statement → List MapEntry → Prop where
  | nil {node : Node} {v : Variable} : AnswersRelated setting node v [] [] []
  | cons {node : Node} {v : Variable} {field : String} {key : Option String} {wanted : Request}
    {rest : List RelationshipSelection} {link : Link} {clauses calls : List Statement}
    {projection : Expr} {entries : List MapEntry} {relatedId edgeId resultId : Nat}
    (hlink : node.link? setting.schema field = some link)
    (hwanted : AnswersRequest setting link.target (.node relatedId link.target.labels) wanted
      clauses projection)
    (hrest : AnswersRelated setting node v rest calls entries) :
    AnswersRelated setting node v (⟨field, key, wanted⟩ :: rest)
      (subquery v
        (link.pattern v (some (.relationship edgeId link.relationship.type))
          (.node relatedId link.target.labels))
        (clauses ++ relatedResult link (.node relatedId link.target.labels) (.value resultId)
          projection) :: calls)
      (.computed (relationshipKey field key) (.var (.value resultId)) :: entries)

/-- Subqueries and the entries of their results answer selections of connections. -/
inductive AnswersConnected (setting : Setting) :
    Node → Variable → List ConnectionSelection → List Statement → List MapEntry → Prop where
  | nil {node : Node} {v : Variable} : AnswersConnected setting node v [] [] []
  | cons {node : Node} {v : Variable} {field : String} {key : Option String}
    {filter : Option Json} {sort : List ConnectionSortKey} {edgeFields : List String}
    {wanted : Selection} {rest : List ConnectionSelection} {link : Link}
    {filters clauses calls : List Statement} {keys : List (Expr × SortDirection)}
    {properties : List (String × Expr)} {projection : Expr} {entries : List MapEntry}
    {path : KeyPath} {relatedId edgeId mapId edgesId resultId : Nat}
    (hlink : node.link? setting.schema field = some link)
    (hfilter : Conditions
      (ConnectionFilter.read setting.schema setting.maxFilterDepth link path)
      (fun f => f.predicate (.node relatedId link.target.labels)
        (.relationship edgeId link.relationship.type)) filter filters)
    (hwanted : AnswersSelection setting link.target (.node relatedId link.target.labels) wanted
      clauses projection)
    (hsort : List.Forall₂ (ConnectionSortsBy link (.node relatedId link.target.labels)
      (.relationship edgeId link.relationship.type)) sort keys)
    (hproperties : List.Forall₂
      (EdgeEntry link (.relationship edgeId link.relationship.type)) edgeFields properties)
    (hrest : AnswersConnected setting node v rest calls entries) :
    AnswersConnected setting node v (⟨field, key, filter, sort, edgeFields, wanted⟩ :: rest)
      (subquery v
        (link.pattern v (some (.relationship edgeId link.relationship.type))
          (.node relatedId link.target.labels))
        (filters ++ clauses ++ pageClause keys none none
          ++ connectionResult (.value mapId) (.value edgesId) (.value resultId)
            (properties ++ [("node", projection)])) :: calls)
      (.computed (connectionKey field key) (.var (.value resultId)) :: entries)
end

section Lookups

variable {node : Node} {v related edge : Variable} {link : Link} {path : String} {next last : Nat}

/-- A plan that begins by looking something up. -/
theorem bind_found_eq_ok {α β : Type} {error : ReadError} {value : Option α} {f : α → Plan β}
    {b : β} (h : (Plan.found error value >>= f).run next = .ok (b, last)) :
    ∃ a, value = some a ∧ (f a).run next = .ok (b, last) := by
  obtain ⟨a, middle, hfound, h⟩ := Plan.bind_eq_ok h
  obtain ⟨hvalue, rfl⟩ := Plan.found_eq_ok hfound
  exact ⟨a, hvalue, h⟩

/-- Planned sort keys sort by what was asked for, one by one. -/
theorem sortsBy_of_sortKeys {index : Nat} {sort : List SortKey}
    {keys : List (Expr × SortDirection)}
    (h : (sortKeys node v path index sort).run next = .ok (keys, last)) :
    List.Forall₂ (SortsBy node v) sort keys := by
  induction sort generalizing index keys next last with
  | nil =>
    obtain ⟨rfl, -⟩ := Plan.pure_eq_ok h
    exact .nil
  | cons key rest ih =>
    obtain ⟨field, hfield, h⟩ := bind_found_eq_ok h
    obtain ⟨others, _, hothers, h⟩ := Plan.bind_eq_ok h
    obtain ⟨rfl, -⟩ := Plan.pure_eq_ok h
    exact .cons ⟨field, hfield, rfl⟩ (ih hothers)

/-- Planned sort keys of a connection sort by what was asked for, one by one. -/
theorem sortsBy_of_connectionSortKeys {index : Nat} {sort : List ConnectionSortKey}
    {keys : List (Expr × SortDirection)}
    (h : (connectionSortKeys link related edge path index sort).run next = .ok (keys, last)) :
    List.Forall₂ (ConnectionSortsBy link related edge) sort keys := by
  induction sort generalizing index keys next last with
  | nil =>
    obtain ⟨rfl, -⟩ := Plan.pure_eq_ok h
    exact .nil
  | cons key rest ih =>
    obtain ⟨side, name, direction⟩ := key
    cases side with
    | node =>
      obtain ⟨field, hfield, h⟩ := bind_found_eq_ok h
      obtain ⟨others, _, hothers, h⟩ := Plan.bind_eq_ok h
      obtain ⟨rfl, -⟩ := Plan.pure_eq_ok h
      exact .cons ⟨field, hfield, rfl⟩ (ih hothers)
    | edge =>
      obtain ⟨field, hfield, h⟩ := bind_found_eq_ok h
      obtain ⟨others, _, hothers, h⟩ := Plan.bind_eq_ok h
      obtain ⟨rfl, -⟩ := Plan.pure_eq_ok h
      exact .cons ⟨field, hfield, rfl⟩ (ih hothers)

/-- Planned entries read the selected fields, one by one. -/
theorem fieldEntry_of_fieldEntries {names : List String} {entries : List MapEntry}
    (h : (fieldEntries node v path names).run next = .ok (entries, last)) :
    List.Forall₂ (FieldEntry node v) names entries := by
  induction names generalizing entries next last with
  | nil =>
    obtain ⟨rfl, -⟩ := Plan.pure_eq_ok h
    exact .nil
  | cons name rest ih =>
    obtain ⟨field, hfield, h⟩ := bind_found_eq_ok h
    obtain ⟨others, _, hothers, h⟩ := Plan.bind_eq_ok h
    split at h
    next heq =>
      obtain ⟨rfl, -⟩ := Plan.pure_eq_ok h
      exact .cons ⟨field, hfield, (if_pos heq).symm⟩ (ih hothers)
    next hne =>
      obtain ⟨rfl, -⟩ := Plan.pure_eq_ok h
      exact .cons ⟨field, hfield, (if_neg hne).symm⟩ (ih hothers)

/-- Planned entries read the selected properties of edges, one by one. -/
theorem edgeEntry_of_edgeEntries {names : List String} {entries : List (String × Expr)}
    (h : (edgeEntries link edge path names).run next = .ok (entries, last)) :
    List.Forall₂ (EdgeEntry link edge) names entries := by
  induction names generalizing entries next last with
  | nil =>
    obtain ⟨rfl, -⟩ := Plan.pure_eq_ok h
    exact .nil
  | cons name rest ih =>
    obtain ⟨property, hproperty, h⟩ := bind_found_eq_ok h
    obtain ⟨others, _, hothers, h⟩ := Plan.bind_eq_ok h
    obtain ⟨rfl, -⟩ := Plan.pure_eq_ok h
    exact .cons ⟨property, hproperty, rfl⟩ (ih hothers)

/-- A clause that is made from a filter is its condition. -/
theorem conditions_of_optionalClause {β : Type} {read : Json → FilterResult β}
    {compile : β → Fresh (Option Predicate)} {filter : Option Json} {clauses : List Statement}
    (h : (optionalClause (fun value => do
        let filter ← Plan.checked .filter (read value)
        let predicate ← Plan.fresh (compile filter)
        return .condition (.predicate predicate)) filter).run next = .ok (clauses, last)) :
    Conditions read compile filter clauses := by
  cases filter with
  | none =>
    obtain ⟨rfl, -⟩ := Plan.pure_eq_ok h
    exact .none
  | some value =>
    obtain ⟨clause, _, hclause, h⟩ := Plan.bind_eq_ok h
    obtain ⟨rfl, -⟩ := Plan.pure_eq_ok h
    obtain ⟨filter, _, hreadRun, hclause⟩ := Plan.bind_eq_ok hclause
    obtain ⟨hread, rfl⟩ := Plan.checked_eq_ok hreadRun
    replace hclause := Plan.bind_fresh_eq_ok hclause
    obtain ⟨rfl, -⟩ := Plan.pure_eq_ok hclause
    exact .some next hread

end Lookups

mutual
/-- What planning returns for a request answers it. -/
theorem answersRequest (setting : Setting) (node : Node) (v : Variable) (path : String)
    (wanted : Request) {next last : Nat} {clauses : List Statement} {projection : Expr}
    (h : (request setting node v path wanted).run next = .ok ((clauses, projection), last)) :
    AnswersRequest setting node v wanted clauses projection := by
  match wanted with
  | ⟨filter, sort, offset, limit, wanted⟩ =>
    rw [request] at h
    obtain ⟨filters, _, hfilters, h⟩ := Plan.bind_eq_ok h
    obtain ⟨keys, _, hkeys, h⟩ := Plan.bind_eq_ok h
    obtain ⟨⟨calls, result⟩, _, hcalls, h⟩ := Plan.bind_eq_ok h
    obtain ⟨heq, -⟩ := Plan.pure_eq_ok h
    obtain ⟨rfl, rfl⟩ := Prod.mk.inj heq
    exact .intro (conditions_of_optionalClause hfilters) (sortsBy_of_sortKeys hkeys)
      (answersSelection setting node v path wanted hcalls)
termination_by structural wanted

/-- A planned selection answers what was selected. -/
theorem answersSelection (setting : Setting) (node : Node) (v : Variable) (path : String)
    (wanted : Selection) {next last : Nat} {calls : List Statement} {projection : Expr}
    (h : (selection setting node v path wanted).run next = .ok ((calls, projection), last)) :
    AnswersSelection setting node v wanted calls projection := by
  match wanted with
  | ⟨fields, related, connected⟩ =>
    rw [selection] at h
    obtain ⟨entries, _, hentries, h⟩ := Plan.bind_eq_ok h
    obtain ⟨⟨relatedCalls, relatedEntries⟩, _, hrelated, h⟩ := Plan.bind_eq_ok h
    obtain ⟨⟨connectedCalls, connectedEntries⟩, _, hconnected, h⟩ := Plan.bind_eq_ok h
    obtain ⟨heq, -⟩ := Plan.pure_eq_ok h
    obtain ⟨rfl, rfl⟩ := Prod.mk.inj heq
    have hrelatedAnswer := answersRelated setting node v path related hrelated
    have hconnectedAnswer := answersConnected setting node v path connected hconnected
    exact .intro (fieldEntry_of_fieldEntries hentries) hrelatedAnswer hconnectedAnswer
termination_by structural wanted

/-- Planned subqueries answer the selections of related nodes. -/
theorem answersRelated (setting : Setting) (node : Node) (v : Variable) (path : String)
    (selections : List RelationshipSelection) {next last : Nat} {calls : List Statement}
    {entries : List MapEntry}
    (h : (relationships setting node v path selections).run next = .ok ((calls, entries), last)) :
    AnswersRelated setting node v selections calls entries := by
  match selections with
  | [] =>
    obtain ⟨heq, -⟩ := Plan.pure_eq_ok h
    obtain ⟨rfl, rfl⟩ := Prod.mk.inj heq
    exact .nil
  | ⟨field, key, wanted⟩ :: rest =>
    rw [relationships] at h
    obtain ⟨link, _, hlinkRun, h⟩ := Plan.bind_eq_ok h
    obtain ⟨hlink, rfl⟩ := link?_of_selectedLink hlinkRun
    replace h := Plan.bind_fresh_eq_ok h
    replace h := Plan.bind_fresh_eq_ok h
    obtain ⟨⟨clauses, projection⟩, _, hclauses, h⟩ := Plan.bind_eq_ok h
    replace h := Plan.bind_fresh_eq_ok h
    obtain ⟨⟨others, otherEntries⟩, _, hothers, h⟩ := Plan.bind_eq_ok h
    obtain ⟨heq, -⟩ := Plan.pure_eq_ok h
    obtain ⟨rfl, rfl⟩ := Prod.mk.inj heq
    exact .cons hlink (answersRequest setting link.target _ _ wanted hclauses)
      (answersRelated setting node v path rest hothers)
termination_by structural selections

/-- Planned subqueries answer the selections of connections. -/
theorem answersConnected (setting : Setting) (node : Node) (v : Variable) (path : String)
    (selections : List ConnectionSelection) {next last : Nat} {calls : List Statement}
    {entries : List MapEntry}
    (h : (connections setting node v path selections).run next = .ok ((calls, entries), last)) :
    AnswersConnected setting node v selections calls entries := by
  match selections with
  | [] =>
    obtain ⟨heq, -⟩ := Plan.pure_eq_ok h
    obtain ⟨rfl, rfl⟩ := Prod.mk.inj heq
    exact .nil
  | ⟨field, key, filter, sort, edgeFields, wanted⟩ :: rest =>
    -- The steps of the plan in order. Three values are new before the rest is planned.
    rw [connections] at h
    obtain ⟨link, _, hlinkRun, h⟩ := Plan.bind_eq_ok h
    obtain ⟨hlink, rfl⟩ := link?_of_selectedLink hlinkRun
    replace h := Plan.bind_fresh_eq_ok h
    replace h := Plan.bind_fresh_eq_ok h
    obtain ⟨filters, _, hfilters, h⟩ := Plan.bind_eq_ok h
    obtain ⟨⟨clauses, projection⟩, _, hclauses, h⟩ := Plan.bind_eq_ok h
    obtain ⟨keys, _, hkeys, h⟩ := Plan.bind_eq_ok h
    obtain ⟨properties, _, hproperties, h⟩ := Plan.bind_eq_ok h
    replace h := Plan.bind_fresh_eq_ok h
    replace h := Plan.bind_fresh_eq_ok h
    replace h := Plan.bind_fresh_eq_ok h
    obtain ⟨⟨others, otherEntries⟩, _, hothers, h⟩ := Plan.bind_eq_ok h
    obtain ⟨heq, -⟩ := Plan.pure_eq_ok h
    obtain ⟨rfl, rfl⟩ := Prod.mk.inj heq
    have hwanted := answersSelection setting link.target _ _ wanted hclauses
    have hrest := answersConnected setting node v path rest hothers
    exact .cons hlink (conditions_of_optionalClause hfilters) hwanted
      (sortsBy_of_connectionSortKeys hkeys) (edgeEntry_of_edgeEntries hproperties) hrest
termination_by structural selections
end

/-- The statement of a request matches a node under its fixed name and answers the request. -/
theorem statement_eq_ok {schema : Schema} {name : String} {wanted : Request} {settings : Settings}
    {result : Statement} (h : statement schema name wanted settings = .ok result) :
    ∃ node clauses projection, schema.node? name = some node ∧
      AnswersRequest ⟨schema, settings.maxFilterDepth⟩ node
        (.namedNode 0 settings.variablePrefix node.labels) wanted clauses projection ∧
      result = .matching false ⟨.of (.namedNode 0 settings.variablePrefix node.labels), []⟩
        (clauses ++ [.returning false
          [.aliased projection (.namedNode 0 settings.variablePrefix node.labels)]]) := by
  obtain ⟨node, hnode, h⟩ := FilterReader.bind_eq_ok h
  obtain ⟨⟨⟨clauses, projection⟩, last⟩, hrequest, h⟩ := FilterReader.bind_eq_ok h
  exact ⟨node, clauses, projection, Schema.node?_of_node (Plan.eq_ok_of_mapError hnode),
    answersRequest _ node _ name wanted hrequest, (Except.ok.inj h).symm⟩

end Read

end GraphRead
