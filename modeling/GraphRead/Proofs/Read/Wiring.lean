import GraphRead.Proofs.Read.Scoping

/-!
# How results are wired

A selection is answered by a map made from the variable of its level. Under every
key for related nodes stands the variable that a subquery of that level returns,
and the subquery starts from the variable of the level and follows the very field
that was selected. This is said here of the statement as it is, level by level
and with positions, and it is proved of every request that is answered: no two
siblings are exchanged, and no level takes a result of another.
-/

namespace GraphRead

namespace MapEntry

/-- The key of an entry. -/
def key : MapEntry → String
  | .stored key => key
  | .computed key _ => key

/-- The value under the key of an entry of a map made from a variable. -/
def value (v : Variable) : MapEntry → Expr
  | .stored key => .property v [key]
  | .computed _ value => value

end MapEntry

/-- Whether a clause is a subquery. -/
def Statement.isSubquery : Statement → Bool
  | .calling _ _ _ _ => true
  | _ => false

/-- The subqueries among clauses. -/
def Statement.subqueries (clauses : List Statement) : List Statement := clauses.filter isSubquery

/-- The key of the result for related nodes. -/
def RelationshipSelection.resultKey (s : RelationshipSelection) : String := s.key.getD s.field

/-- The key of the result for a connection. -/
def ConnectionSelection.resultKey (s : ConnectionSelection) : String :=
  s.key.getD (s.field ++ "Connection")

/-- The keys of the map that answers a selection. -/
def Selection.resultKeys (wanted : Selection) : List String :=
  wanted.fields ++ wanted.relationships.map RelationshipSelection.resultKey
    ++ wanted.connections.map ConnectionSelection.resultKey

/-- The pattern from a known node over a relationship of a link. -/
def Link.route (link : Link) (v edge related : Variable) : Pattern where
  start := ⟨some v, [], []⟩
  hops := [(⟨some edge, some link.relationship.type, link.relationship.direction⟩,
    ⟨some related, link.target.labels, []⟩)]

namespace Read

open Statement (subqueries)

/-- The value of a selected field is the property under which the field is stored. -/
def ReadsStored (node : Node) (v : Variable) (name : String) (value : Expr) : Prop :=
  ∃ field, scalarField? node name = some field ∧ value = .property v [field.property]

/-- The nodes that a subquery has found, as a list or as the first of them. -/
def gathered (link : Link) (related : Variable) : Expr :=
  if link.relationship.isList then .apply "collect" [.var related]
  else .apply "head" [.apply "collect" [.var related]]

mutual
/-- A map answers a selection on a variable by means of the subqueries of its level. The keys are
those that are asked for, the first values are stored properties, and the others are the results of
the subqueries, in order. -/
inductive WiredLevel (schema : Schema) :
    Node → Variable → Selection → List Statement → Expr → Prop where
  | intro {node : Node} {v : Variable} {wanted : Selection} {calls : List Statement}
    {entries : List MapEntry} {stored : List Expr} {results : List Variable}
    (keys : entries.map MapEntry.key = wanted.resultKeys)
    (values : entries.map (MapEntry.value v) = stored ++ results.map Expr.var)
    (fields : List.Forall₂ (ReadsStored node v) wanted.fields stored)
    (distinct : (v :: results).Nodup)
    (count : calls.length = wanted.relationships.length + wanted.connections.length)
    (related : ∀ (i : Nat) (s : RelationshipSelection), wanted.relationships[i]? = some s →
      WiredRelated schema node v s calls[i]? results[i]?)
    (connected : ∀ (i : Nat) (s : ConnectionSelection), wanted.connections[i]? = some s →
      WiredConnected schema node v s calls[wanted.relationships.length + i]?
        results[wanted.relationships.length + i]?) :
    WiredLevel schema node v wanted calls (.project v entries)

/-- A subquery for related nodes imports only the variable of its level, follows the selected
field, answers the selection there, and returns what it gathers as its only result. -/
inductive WiredRelated (schema : Schema) :
    Node → Variable → RelationshipSelection → Option Statement → Option Variable → Prop where
  | intro {node : Node} {v related edge result : Variable} {s : RelationshipSelection}
    {link : Link} {before body : List Statement} {projection : Expr}
    (followed : node.link? schema s.field = some link)
    (distinct : [v, related, edge, result].Nodup)
    (clauses : body = before ++ [.passing false [.aliased projection related] [],
      .returning false [.aliased (gathered link related) result]])
    (returned : Statement.returnedAll body = [result])
    (inner : WiredLevel schema link.target related s.request.selection (subqueries body)
      projection) :
    WiredRelated schema node v s
      (some (.calling (.matching false (link.route v edge related) body) [v] none []))
      (some result)

/-- A subquery for a connection is like one for related nodes, but it gathers maps that hold the
selected properties of the relationship and then the node, and counts them. -/
inductive WiredConnected (schema : Schema) :
    Node → Variable → ConnectionSelection → Option Statement → Option Variable → Prop where
  | intro {node : Node} {v related edge edgeMap edges result : Variable} {s : ConnectionSelection}
    {link : Link} {before body : List Statement} {properties : List (String × Expr)}
    {projection : Expr}
    (followed : node.link? schema s.field = some link)
    (distinct : [v, related, edge, edgeMap, edges, result].Nodup)
    (selected : List.Forall₂ (EdgeEntry link edge) s.edgeFields properties)
    (clauses : body = before ++
      [.passing false [.aliased (.map (properties ++ [("node", projection)])) edgeMap] [],
        .passing false [.aliased (.apply "collect" [.var edgeMap]) edges] [],
        .returning false [.aliased (.map [("edges", .var edges),
          ("totalCount", .apply "size" [.var edges])]) result]])
    (returned : Statement.returnedAll body = [result])
    (inner : WiredLevel schema link.target related s.node (subqueries body) projection) :
    WiredConnected schema node v s
      (some (.calling (.matching false (link.route v edge related) body) [v] none []))
      (some result)
end

/-! ### Clauses that are no subqueries -/

/-- The subqueries of clauses in a row are those of the first and then those of the others. -/
theorem subqueries_append (first second : List Statement) :
    subqueries (first ++ second) = subqueries first ++ subqueries second :=
  List.filter_append ..

/-- Clauses that neither call nor return anything. -/
def Auxiliary (clauses : List Statement) : Prop :=
  subqueries clauses = [] ∧ Statement.returnedAll clauses = []

/-- The condition of a filter is no subquery. -/
theorem auxiliary_of_conditions {β : Type} {read : Json → FilterResult β}
    {compile : β → Fresh (Option Predicate)} {filter : Option Json} {clauses : List Statement}
    (h : Conditions read compile filter clauses) : Auxiliary clauses := by
  cases h with
  | none => exact ⟨rfl, rfl⟩
  | some => exact ⟨rfl, rfl⟩

/-- The clauses of a page are no subqueries. -/
theorem auxiliary_pageClause (keys : List (Expr × SortDirection)) (offset limit : Option UInt64) :
    Auxiliary (pageClause keys offset limit) := by
  cases keys <;> cases offset <;> cases limit <;> exact ⟨rfl, rfl⟩

/-! ### Subqueries and their results -/

/-- Subqueries answer selections one by one, and entries hold their results. The results are new
variables, with identities that increase from `lo` up to `hi`. -/
structure Supplies {α : Type} (resultKey : α → String)
    (answers : α → Option Statement → Option Variable → Prop) (lo hi : Nat) (selections : List α)
    (calls : List Statement) (entries : List MapEntry) (results : List Variable) : Prop where
  keys : entries.map MapEntry.key = selections.map resultKey
  values : ∀ v, entries.map (MapEntry.value v) = results.map Expr.var
  each : ∀ (i : Nat) (s : α), selections[i]? = some s → answers s calls[i]? results[i]?
  count : calls.length = selections.length
  supplied : results.length = selections.length
  subqueries : subqueries calls = calls
  returned : Statement.returnedAll calls = []
  ordered : results.Pairwise fun first second => first.identity < second.identity
  range : ∀ result ∈ results, lo ≤ result.identity ∧ result.identity < hi

namespace Supplies

variable {α : Type} {resultKey : α → String}
  {answers : α → Option Statement → Option Variable → Prop} {lo middle hi : Nat}
  {selections : List α} {calls : List Statement} {entries : List MapEntry}
  {results : List Variable}

/-- Nothing is supplied for no selections. -/
theorem nil : Supplies resultKey answers lo hi [] [] [] [] where
  keys := rfl
  values _ := rfl
  each _ _ h := by simp at h
  count := rfl
  supplied := rfl
  subqueries := rfl
  returned := rfl
  ordered := .nil
  range := List.forall_mem_nil _

/-- One more subquery in front, whose result is older than those of the others. -/
theorem cons {s : α} {result parent : Variable} {pattern : Pattern} {clauses : List Statement}
    (hs : answers s (some (subquery parent pattern clauses)) (some result))
    (hlo : lo ≤ result.identity) (hmiddle : result.identity < middle) (hle : middle ≤ hi)
    (h : Supplies resultKey answers middle hi selections calls entries results) :
    Supplies resultKey answers lo hi (s :: selections) (subquery parent pattern clauses :: calls)
      (.computed (resultKey s) (.var result) :: entries) (result :: results) where
  keys := by rw [List.map_cons, List.map_cons, h.keys, MapEntry.key]
  values v := by rw [List.map_cons, List.map_cons, h.values v, MapEntry.value]
  each i other hother := by
    cases i with
    | zero =>
      obtain rfl : s = other := by simpa using hother
      exact hs
    | succ i => exact h.each i other (by simpa using hother)
  count := by rw [List.length_cons, List.length_cons, h.count]
  supplied := by rw [List.length_cons, List.length_cons, h.supplied]
  subqueries := congrArg (subquery parent pattern clauses :: ·) h.subqueries
  returned := by simp [Statement.returnedAll, subquery, Statement.returned, h.returned]
  ordered := by
    refine List.pairwise_cons.mpr ⟨fun other hother => ?_, h.ordered⟩
    have hafter := (h.range other hother).1
    omega
  range := by
    refine List.forall_mem_cons.mpr ⟨⟨hlo, by omega⟩, fun other hother => ?_⟩
    have hafter := h.range other hother
    omega

end Supplies

/-- Variables of increasing identities are different. -/
theorem nodup_of_ordered {vs : List Variable}
    (h : (vs.map Variable.identity).Pairwise (· < ·)) : vs.Nodup :=
  .of_map _ (h.imp Nat.ne_of_lt)

/-- A scalar that is found has the name it was looked up by. -/
theorem name_of_scalarField? {node : Node} {name : String} {field : Field}
    (h : scalarField? node name = some field) : field.name = name := by
  have hfield : node.field? name = some field := (Option.filter_eq_some_iff.mp h).1
  simpa using List.find?_some hfield

/-- The entries of selected fields have their names as keys and read what is stored. -/
theorem keys_of_fieldEntries {node : Node} {v : Variable} {names : List String}
    {entries : List MapEntry} (h : List.Forall₂ (FieldEntry node v) names entries) :
    entries.map MapEntry.key = names ∧
      List.Forall₂ (ReadsStored node v) names (entries.map (MapEntry.value v)) := by
  induction h with
  | nil => exact ⟨rfl, .nil⟩
  | @cons name entry _ _ hentry _ ih =>
    obtain ⟨field, hfield, rfl⟩ := hentry
    have hname := name_of_scalarField? hfield
    have hread : MapEntry.key (if field.property = field.name then .stored field.name
          else .computed field.name (.property v [field.property])) = name ∧
        MapEntry.value v (if field.property = field.name then .stored field.name
          else .computed field.name (.property v [field.property])) =
            .property v [field.property] := by
      split
      next hsame => exact ⟨hname, by rw [MapEntry.value, hsame]⟩
      next => exact ⟨hname, rfl⟩
    rw [List.map_cons, List.map_cons, hread.1, hread.2, ih.1]
    exact ⟨rfl, .cons ⟨field, hfield, rfl⟩ ih.2⟩

/-- A level is wired if its fields are stored and its subqueries supply the other results. -/
theorem wiredLevel_of_supplies {schema : Schema} {node : Node} {v : Variable}
    {fields : List String} {related : List RelationshipSelection}
    {connected : List ConnectionSelection} {entries relatedEntries connectedEntries : List MapEntry}
    {relatedCalls connectedCalls : List Statement} {relatedResults connectedResults : List Variable}
    {lo middle hi : Nat} (hv : v.identity < lo) (hle : lo ≤ middle)
    (hfields : List.Forall₂ (FieldEntry node v) fields entries)
    (hrelated : Supplies RelationshipSelection.resultKey (WiredRelated schema node v) lo middle
      related relatedCalls relatedEntries relatedResults)
    (hconnected : Supplies ConnectionSelection.resultKey (WiredConnected schema node v) middle hi
      connected connectedCalls connectedEntries connectedResults) :
    WiredLevel schema node v ⟨fields, related, connected⟩ (relatedCalls ++ connectedCalls)
      (.project v (entries ++ relatedEntries ++ connectedEntries)) := by
  obtain ⟨hkeys, hstored⟩ := keys_of_fieldEntries hfields
  have hafter : ∀ result ∈ relatedResults ++ connectedResults, v.identity < result.identity := by
    refine List.forall_mem_append.mpr ⟨fun result hresult => ?_, fun result hresult => ?_⟩
    · have hrange := hrelated.range result hresult
      omega
    · have hrange := hconnected.range result hresult
      omega
  -- The results of connections are numbered after those of related nodes.
  have hordered : (relatedResults ++ connectedResults).Pairwise
      fun first second => first.identity < second.identity := by
    refine List.pairwise_append.mpr ⟨hrelated.ordered, hconnected.ordered, ?_⟩
    intro first hfirst second hsecond
    have hbefore := hrelated.range first hfirst
    have hbehind := hconnected.range second hsecond
    omega
  refine @WiredLevel.intro schema node v _ _ _ _ (relatedResults ++ connectedResults) ?_ ?_ hstored
    ?_ ?_ ?_ ?_
  · rw [List.map_append, List.map_append, hkeys, hrelated.keys, hconnected.keys]
    rfl
  · rw [List.map_append, List.map_append, hrelated.values, hconnected.values, List.append_assoc,
      List.map_append]
  · exact nodup_of_ordered (List.pairwise_map.mpr (List.pairwise_cons.mpr ⟨hafter, hordered⟩))
  · rw [List.length_append, hrelated.count, hconnected.count]
  · intro i s hs
    have hi : i < related.length := (List.getElem?_eq_some_iff.mp hs).1
    rw [List.getElem?_append_left (by rw [hrelated.count]; exact hi),
      List.getElem?_append_left (by rw [hrelated.supplied]; exact hi)]
    exact hrelated.each i s hs
  · intro i s hs
    have hbehind {β : Type} {first second : List β} (h : first.length = related.length) :
        (first ++ second)[related.length + i]? = second[i]? := by
      rw [← h, List.getElem?_append_right (Nat.le_add_right ..), Nat.add_sub_cancel_left]
    rw [hbehind hrelated.count, hbehind hrelated.supplied]
    exact hconnected.each i s hs

mutual
/-- Planning a request wires the level of its variable. -/
theorem wiredLevel_of_request (setting : Setting) (node : Node) (v : Variable) (path : String)
    (wanted : Request) {next last : Nat} {clauses : List Statement} {projection : Expr}
    (hv : v.identity < next)
    (h : (request setting node v path wanted).run next = .ok ((clauses, projection), last)) :
    WiredLevel setting.schema node v wanted.selection (subqueries clauses) projection ∧
        Statement.returnedAll clauses = [] := by
  match wanted with
  | ⟨filter, sort, offset, limit, wanted⟩ =>
    rw [request] at h
    obtain ⟨filters, _, hfilters, h⟩ := Plan.bind_eq_ok h
    obtain ⟨keys, _, hkeys, h⟩ := Plan.bind_eq_ok h
    obtain ⟨⟨calls, result⟩, _, hcalls, h⟩ := Plan.bind_eq_ok h
    obtain ⟨heq, -⟩ := Plan.pure_eq_ok h
    obtain ⟨rfl, rfl⟩ := Prod.mk.inj heq
    have hle := (binds_filterClause hfilters).le
    obtain ⟨-, rfl⟩ := bindings_sortKeys hkeys
    have hfilter := auxiliary_of_conditions (conditions_of_optionalClause hfilters)
    have hpage := auxiliary_pageClause keys offset limit
    obtain ⟨hlevel, hsubqueries, hreturned⟩ :=
      wiredLevel_of_selection setting node v path wanted (by omega) hcalls
    rw [subqueries_append, subqueries_append, hfilter.1, hpage.1, hsubqueries,
      Statement.returnedAll_append, Statement.returnedAll_append, hfilter.2, hpage.2, hreturned]
    exact ⟨hlevel, rfl⟩
termination_by structural wanted

/-- Planning a selection wires the level of its variable. -/
theorem wiredLevel_of_selection (setting : Setting) (node : Node) (v : Variable) (path : String)
    (wanted : Selection) {next last : Nat} {calls : List Statement} {projection : Expr}
    (hv : v.identity < next)
    (h : (selection setting node v path wanted).run next = .ok ((calls, projection), last)) :
    WiredLevel setting.schema node v wanted calls projection ∧ subqueries calls = calls ∧
        Statement.returnedAll calls = [] := by
  match wanted with
  | ⟨fields, related, connected⟩ =>
    rw [selection] at h
    obtain ⟨entries, _, hentries, h⟩ := Plan.bind_eq_ok h
    obtain ⟨⟨relatedCalls, relatedEntries⟩, _, hrelated, h⟩ := Plan.bind_eq_ok h
    obtain ⟨⟨connectedCalls, connectedEntries⟩, _, hconnected, h⟩ := Plan.bind_eq_ok h
    obtain ⟨heq, -⟩ := Plan.pure_eq_ok h
    obtain ⟨rfl, rfl⟩ := Prod.mk.inj heq
    obtain ⟨-, rfl⟩ := bindings_fieldEntries hentries
    have hle := (binds_relationships setting node v path related hrelated).1.le
    obtain ⟨relatedResults, hrelated⟩ :=
      supplies_of_relationships setting node v path related hv hrelated
    obtain ⟨connectedResults, hconnected⟩ :=
      supplies_of_connections setting node v path connected (by omega) hconnected
    rw [subqueries_append, hrelated.subqueries, hconnected.subqueries,
      Statement.returnedAll_append, hrelated.returned, hconnected.returned]
    exact ⟨wiredLevel_of_supplies hv hle (fieldEntry_of_fieldEntries hentries) hrelated hconnected,
      rfl, rfl⟩
termination_by structural wanted

/-- Planning selections of related nodes supplies their results. -/
theorem supplies_of_relationships (setting : Setting) (node : Node) (v : Variable)
    (path : String) (selections : List RelationshipSelection) {next last : Nat}
    {calls : List Statement} {entries : List MapEntry} (hv : v.identity < next)
    (h : (relationships setting node v path selections).run next = .ok ((calls, entries), last)) :
    ∃ results, Supplies RelationshipSelection.resultKey (WiredRelated setting.schema node v) next
        last selections calls entries results := by
  match selections with
  | [] =>
    obtain ⟨heq, -⟩ := Plan.pure_eq_ok h
    obtain ⟨rfl, rfl⟩ := Prod.mk.inj heq
    exact ⟨[], .nil⟩
  | ⟨field, key, wanted⟩ :: rest =>
    rw [relationships] at h
    obtain ⟨link, _, hlinkRun, h⟩ := Plan.bind_eq_ok h
    obtain ⟨hlink, rfl⟩ := link?_of_selectedLink hlinkRun
    replace h := Plan.bind_fresh_eq_ok h
    replace h := Plan.bind_fresh_eq_ok h
    obtain ⟨⟨clauses, projection⟩, middle, hclauses, h⟩ := Plan.bind_eq_ok h
    replace h := Plan.bind_fresh_eq_ok h
    obtain ⟨⟨others, otherEntries⟩, final, hothers, h⟩ := Plan.bind_eq_ok h
    obtain ⟨heq, rfl⟩ := Plan.pure_eq_ok h
    obtain ⟨rfl, rfl⟩ := Prod.mk.inj heq
    -- Two identities are taken before the inner request, and one after it.
    have hinner : next + 2 ≤ middle := (binds_request setting link.target _ _ wanted hclauses).1.le
    have hrest : middle + 1 ≤ final := (binds_relationships setting node v path rest hothers).1.le
    obtain ⟨hlevel, hreturned⟩ := wiredLevel_of_request setting link.target (.node next _) _ wanted
      (show next < next + 2 by omega) hclauses
    have hbelow : v.identity < middle + 1 := by omega
    obtain ⟨results, hresults⟩ :=
      supplies_of_relationships setting node v path rest hbelow hothers
    refine ⟨.value middle :: results, .cons ?_ (show next ≤ middle by omega) (Nat.lt_succ_self _)
      hrest hresults⟩
    have hdistinct : [v, .node next link.target.labels,
        .relationship (next + 1) link.relationship.type, .value middle].Nodup := by
      refine nodup_of_ordered (show [v.identity, next, next + 1, middle].Pairwise (· < ·) from ?_)
      simp
      omega
    refine .intro hlink hdistinct rfl ?_ ?_
    · rw [Statement.returnedAll_append, hreturned]
      rfl
    · rw [subqueries_append]
      show WiredLevel _ _ _ _ (subqueries clauses ++ []) projection
      rw [List.append_nil]
      exact hlevel
termination_by structural selections

/-- Planning selections of connections supplies their results. -/
theorem supplies_of_connections (setting : Setting) (node : Node) (v : Variable)
    (path : String) (selections : List ConnectionSelection) {next last : Nat}
    {calls : List Statement} {entries : List MapEntry} (hv : v.identity < next)
    (h : (connections setting node v path selections).run next = .ok ((calls, entries), last)) :
    ∃ results, Supplies ConnectionSelection.resultKey (WiredConnected setting.schema node v) next
        last selections calls entries results := by
  match selections with
  | [] =>
    obtain ⟨heq, -⟩ := Plan.pure_eq_ok h
    obtain ⟨rfl, rfl⟩ := Prod.mk.inj heq
    exact ⟨[], .nil⟩
  | ⟨field, key, filter, sort, edgeFields, wanted⟩ :: rest =>
    rw [connections] at h
    obtain ⟨link, _, hlinkRun, h⟩ := Plan.bind_eq_ok h
    obtain ⟨hlink, rfl⟩ := link?_of_selectedLink hlinkRun
    replace h := Plan.bind_fresh_eq_ok h
    replace h := Plan.bind_fresh_eq_ok h
    obtain ⟨filters, start, hfilters, h⟩ := Plan.bind_eq_ok h
    obtain ⟨⟨clauses, projection⟩, middle, hclauses, h⟩ := Plan.bind_eq_ok h
    obtain ⟨keys, _, hkeys, h⟩ := Plan.bind_eq_ok h
    obtain ⟨-, rfl⟩ := bindings_connectionSortKeys hkeys
    obtain ⟨properties, _, hproperties, h⟩ := Plan.bind_eq_ok h
    obtain ⟨-, rfl⟩ := bindings_edgeEntries hproperties
    replace h := Plan.bind_fresh_eq_ok h
    replace h := Plan.bind_fresh_eq_ok h
    replace h := Plan.bind_fresh_eq_ok h
    obtain ⟨⟨others, otherEntries⟩, final, hothers, h⟩ := Plan.bind_eq_ok h
    obtain ⟨heq, rfl⟩ := Plan.pure_eq_ok h
    obtain ⟨rfl, rfl⟩ := Prod.mk.inj heq
    -- Two identities are taken before the body, and three after it.
    have hstart : next + 2 ≤ start := (binds_connectionClause hfilters).le
    have hinner : start ≤ middle := (binds_selection setting link.target _ _ wanted hclauses).1.le
    have hrest : middle + 3 ≤ final := (binds_connections setting node v path rest hothers).1.le
    have hfilter := auxiliary_of_conditions (conditions_of_optionalClause hfilters)
    have hpage := auxiliary_pageClause keys none none
    obtain ⟨hlevel, hsubqueries, hreturned⟩ := wiredLevel_of_selection setting link.target
      (.node next _) _ wanted (show next < start by omega) hclauses
    have hbelow : v.identity < middle + 3 := by omega
    obtain ⟨results, hresults⟩ :=
      supplies_of_connections setting node v path rest hbelow hothers
    refine ⟨.value (middle + 2) :: results, .cons ?_ (show next ≤ middle + 2 by omega)
      (Nat.lt_succ_self _) hrest hresults⟩
    have hdistinct : [v, .node next link.target.labels,
        .relationship (next + 1) link.relationship.type, .value middle, .value (middle + 1),
        .value (middle + 2)].Nodup := by
      refine nodup_of_ordered (show [v.identity, next, next + 1, middle, middle + 1,
        middle + 2].Pairwise (· < ·) from ?_)
      simp
      omega
    refine .intro hlink hdistinct (edgeEntry_of_edgeEntries hproperties) rfl ?_ ?_
    · rw [Statement.returnedAll_append, Statement.returnedAll_append,
        Statement.returnedAll_append, hfilter.2, hreturned, hpage.2]
      rfl
    · rw [subqueries_append, subqueries_append, subqueries_append, hfilter.1, hsubqueries, hpage.1]
      show WiredLevel _ _ _ _ ([] ++ clauses ++ [] ++ []) projection
      rw [List.nil_append, List.append_nil, List.append_nil]
      exact hlevel
termination_by structural selections
end

/-- The results of an answered request are wired at every level. The statement matches the nodes of
the kind, and returns a map that is made from them by the subqueries that stand before it. -/
theorem query_wired (schema : Schema) (name : String) (wanted : Request) (settings : Settings)
    {result : Query} (h : query schema name wanted settings = .ok result) :
    ∃ (node : Node) (this : Variable) (clauses : List Statement) (projection : Expr),
      schema.node? name = some node ∧
      this = .namedNode 0 settings.variablePrefix node.labels ∧
      (Statement.matching false ⟨⟨some this, node.labels, []⟩, []⟩
        (clauses ++ [.returning false [.aliased projection this]])).build
          settings.toRenderOptions = .ok result ∧
      Statement.returnedAll clauses = [] ∧
      WiredLevel schema node this wanted.selection (subqueries clauses) projection := by
  obtain ⟨statement, hstatement, h⟩ := FilterReader.bind_eq_ok h
  obtain ⟨node, hnode, hstatement⟩ := FilterReader.bind_eq_ok hstatement
  obtain ⟨⟨⟨clauses, projection⟩, last⟩, hrequest, hstatement⟩ :=
    FilterReader.bind_eq_ok hstatement
  obtain rfl := Except.ok.inj hstatement
  obtain ⟨hlevel, hreturned⟩ := wiredLevel_of_request _ node _ name wanted Nat.zero_lt_one hrequest
  exact ⟨node, _, clauses, projection, Schema.node?_of_node (Plan.eq_ok_of_mapError hnode), rfl,
    Plan.eq_ok_of_mapError h, hreturned, hlevel⟩

/-- A request that selects one field three times. -/
def castRequest : Request where
  filter := none
  sort := []
  offset := none
  limit := none
  selection :=
    ⟨["title"],
      [⟨"cast", none, ⟨none, [], none, some 1, ⟨["name"], [], []⟩⟩⟩,
        ⟨"cast", some "crew", ⟨none, [⟨"name", .ascending⟩], none, none, ⟨["name"], [], []⟩⟩⟩],
      [⟨"cast", none, none, [], ["role"], ⟨["name"], [], []⟩⟩]⟩

/-- Each of the three selections has a subquery of its own and a key for its result. -/
theorem castRequest_wired :
    ∃ result clauses entries, query filmSchema "Film" castRequest {} = .ok result ∧
      WiredLevel filmSchema filmNode (.namedNode 0 "this" ["Film"]) castRequest.selection
        (subqueries clauses) (.project (.namedNode 0 "this" ["Film"]) entries) ∧
      (subqueries clauses).length = 3 ∧
      entries.map MapEntry.key = ["title", "cast", "crew", "castConnection"] := by
  have hok : (query filmSchema "Film" castRequest {}).isOk = true := by decide +kernel
  obtain ⟨result, hquery⟩ := Plan.exists_of_isOk hok
  obtain ⟨node, this, clauses, projection, hnode, rfl, -, -, hlevel⟩ :=
    query_wired filmSchema "Film" castRequest {} hquery
  obtain rfl : filmNode = node := Option.some.inj hnode
  obtain ⟨entries, rfl, hkeys, hcount⟩ : ∃ entries,
      projection = .project (.namedNode 0 "this" ["Film"]) entries ∧
      entries.map MapEntry.key = castRequest.selection.resultKeys ∧
      (subqueries clauses).length = 3 := by
    cases hlevel with
    | intro keys _ _ _ count => exact ⟨_, rfl, keys, count⟩
  exact ⟨result, clauses, entries, hquery, hlevel, hcount, hkeys⟩

end Read

end GraphRead
