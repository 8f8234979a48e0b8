import GraphRead.Proofs.Filter.Binding
import GraphRead.Proofs.Rendering.Numbering
import GraphRead.Read.Plan

/-!
# The values of a request

The values of a request are listed by recursion on it: the leaves of its filter,
the numbers of its page, and then the values of its selections. This file proves
that the query of a request binds exactly these values in this order, each under
a name of its own, and that the query of a single filter numbers them from zero
on.
-/

namespace GraphRead

open Event

/-- The link of a relationship field of a node, if it leads to a registered node. -/
def Node.link? (schema : Schema) (node : Node) (name : String) : Option Link := do
  let field ← node.field? name
  let relationship ← field.relationship?
  let target ← schema.node? relationship.target
  return ⟨field.name, relationship, target⟩

/-- The leaves of a filter that may be missing. -/
def filterValues (schema : Schema) (place : Place) : Option Json → List Json
  | none => []
  | some filter => filter.leaves schema (.nested place)

/-- A number of rows that may be missing, as a value. -/
def rowValues (count : Option UInt64) : List Json :=
  (count.map fun count => Json.ofNat count.toNat).toList

mutual
/-- The values of a request for nodes of a kind: those of its filter, of its page, and of its
selection. -/
def Request.values (schema : Schema) (node : Node) : Request → List Json
  | ⟨filter, _, offset, limit, selection⟩ =>
    filterValues schema (.element node.element) filter ++ rowValues offset ++ rowValues limit
      ++ selection.values schema node
termination_by structural request => request

/-- The values of a selection: those for related nodes before those for connections. -/
def Selection.values (schema : Schema) (node : Node) : Selection → List Json
  | ⟨_, related, connected⟩ =>
    RelationshipSelection.valuesOfAll schema node related
      ++ ConnectionSelection.valuesOfAll schema node connected
termination_by structural selection => selection

/-- The values of selections of related nodes. -/
def RelationshipSelection.valuesOfAll (schema : Schema) (node : Node) :
    List RelationshipSelection → List Json
  | [] => []
  | ⟨field, _, request⟩ :: rest =>
    (match node.link? schema field with
      | some link => request.values schema link.target
      | none => []) ++ RelationshipSelection.valuesOfAll schema node rest
termination_by structural selections => selections

/-- The values of selections of connections: those of the filter, and then those of the selection
of the node. -/
def ConnectionSelection.valuesOfAll (schema : Schema) (node : Node) :
    List ConnectionSelection → List Json
  | [] => []
  | ⟨field, _, filter, _, _, selection⟩ :: rest =>
    (match node.link? schema field with
      | some link =>
        filterValues schema (.connection link) filter ++ selection.values schema link.target
      | none => []) ++ ConnectionSelection.valuesOfAll schema node rest
termination_by structural selections => selections
end

namespace Plan

variable {α β ε : Type} {next last : Nat}

/-- A successful plan in two steps. -/
theorem bind_eq_ok {m : Plan α} {f : α → Plan β} {b : β}
    (h : (m >>= f).run next = .ok (b, last)) :
    ∃ a middle, m.run next = .ok (a, middle) ∧ (f a).run middle = .ok (b, last) := by
  rw [StateT.run_bind] at h
  obtain ⟨⟨a, middle⟩, hfirst, hrest⟩ := FilterReader.bind_eq_ok h
  exact ⟨a, middle, hfirst, hrest⟩

/-- Only errors are wrapped. -/
theorem eq_ok_of_mapError {wrap : ε → ReadError} {result : Except ε α} {a : α}
    (h : result.mapError wrap = .ok a) : result = .ok a := by
  cases result with
  | error error => simp [Except.mapError] at h
  | ok value => exact congrArg Except.ok (Except.ok.inj h)

/-- What is no failure is a result. -/
theorem exists_of_isOk {result : Except ε α} (h : result.isOk = true) : ∃ a, result = .ok a := by
  cases result with
  | error error => simp [Except.isOk, Except.toBool] at h
  | ok value => exact ⟨value, rfl⟩

/-- A plan that only returns hands out no identities. -/
theorem pure_eq_ok {a b : α} (h : (pure a : Plan α).run next = .ok (b, last)) :
    a = b ∧ next = last := by
  have heq : (a, next) = (b, last) := Except.ok.inj h
  exact Prod.mk.inj heq

/-- A computation is run as it is by a plan. -/
theorem fresh_eq_ok {step : Fresh α} {a : α} (h : (fresh step).run next = .ok (a, last)) :
    step.run next = (a, last) := Except.ok.inj h

/-- A plan that begins with a computation of new identities. -/
theorem bind_fresh_eq_ok {step : Fresh α} {f : α → Plan β} {b : β}
    (h : (fresh step >>= f).run next = .ok (b, last)) :
    (f (step.run next).1).run (step.run next).2 = .ok (b, last) := by
  obtain ⟨a, middle, hstep, h⟩ := bind_eq_ok h
  rwa [fresh_eq_ok hstep]

/-- Checking a result hands out no identities. -/
theorem checked_eq_ok {wrap : ε → ReadError} {result : Except ε α} {a : α}
    (h : (checked wrap result).run next = .ok (a, last)) : result = .ok a ∧ next = last := by
  cases result with
  | error error => exact nomatch h
  | ok value =>
    obtain ⟨rfl, rfl⟩ := pure_eq_ok h
    exact ⟨rfl, rfl⟩

/-- Looking something up hands out no identities. -/
theorem found_eq_ok {error : ReadError} {value : Option α} {a : α}
    (h : (found error value).run next = .ok (a, last)) : value = some a ∧ next = last := by
  cases value with
  | none => exact nomatch h
  | some value =>
    obtain ⟨rfl, rfl⟩ := pure_eq_ok h
    exact ⟨rfl, rfl⟩

/-- A plan that looks something up for the head of a list and goes on with the rest. -/
theorem found_cons_eq_ok {γ : Type} {error : ReadError} {value : Option α} {rest : Plan β}
    {f : α → β → Plan γ} {c : γ}
    (h : (do
      let a ← found error value
      let b ← rest
      f a b : Plan γ).run next = .ok (c, last)) :
    ∃ a b middle, rest.run next = .ok (b, middle) ∧ (f a b).run middle = .ok (c, last) := by
  obtain ⟨a, _, hfound, h⟩ := bind_eq_ok h
  obtain ⟨-, rfl⟩ := found_eq_ok hfound
  obtain ⟨b, middle, hrest, h⟩ := bind_eq_ok h
  exact ⟨a, b, middle, hrest, h⟩

end Plan

section Clauses

/-- The events of clauses in a row are those of the first and then those of the others. -/
theorem Statement.eventsAll_append (first second : List Statement) :
    Statement.eventsAll (first ++ second) =
      Statement.eventsAll first ++ Statement.eventsAll second := by
  induction first with
  | nil => rfl
  | cons s rest ih => simp [Statement.eventsAll, ih]

/-- The events of entries in a row are those of the first and then those of the others. -/
theorem MapEntry.eventsAll_append (first second : List MapEntry) :
    MapEntry.eventsAll (first ++ second) =
      MapEntry.eventsAll first ++ MapEntry.eventsAll second := by
  induction first with
  | nil => rfl
  | cons entry rest ih => cases entry <;> simp [MapEntry.eventsAll, ih]

/-- The events of a longer map are those of the first entries and then those of the others. -/
theorem Expr.eventsEntries_append (first second : List (String × Expr)) :
    Expr.eventsEntries (first ++ second) =
      Expr.eventsEntries first ++ Expr.eventsEntries second := by
  induction first with
  | nil => rfl
  | cons entry rest ih => simp [Expr.eventsEntries, ih]

/-- A projection to an expression that binds nothing binds nothing. -/
theorem bindings_projection {e : Expr} (h : bindings e.events = []) (clause : ReadingClause)
    (newName : Variable) :
    bindings (projectionEvents clause [.aliased e newName]
      (Item.eventsAll clause [.aliased e newName])) = [] := by
  have halias : bindings (Item.aliasEvents (.aliased e newName)) = [] := by
    unfold Item.aliasEvents
    split
    next => rfl
    next => rfl
    next => split <;> simp
    next => simp
  simp [projectionEvents, Item.eventsAll, Item.events, h, halias]

namespace Read

/-- Collecting related nodes binds nothing. -/
theorem bindings_relatedResult (link : Link) (related result : Variable) {projection : Expr}
    (h : bindings projection.events = []) :
    bindings (Statement.eventsAll (relatedResult link related result projection)) = [] := by
  have hcollected : bindings (collected link related).events = [] := by
    unfold collected
    split <;> rfl
  simp [relatedResult, Statement.eventsAll, Statement.events, bindings_projection h,
    bindings_projection hcollected]

/-- Collecting the edges of a connection binds nothing. -/
theorem bindings_connectionResult (edgeMap edges result : Variable)
    {entries : List (String × Expr)} (h : bindings (Expr.eventsEntries entries) = []) :
    bindings (Statement.eventsAll (connectionResult edgeMap edges result entries)) = [] := by
  have hmap : bindings (Expr.map entries).events = [] := by rw [Expr.events, h]
  have hcollect : bindings (Expr.apply "collect" [.var edgeMap]).events = [] := rfl
  have hresult : bindings (Expr.map [("edges", .var edges),
      ("totalCount", .apply "size" [.var edges])]).events = [] := rfl
  simp [connectionResult, Statement.eventsAll, Statement.events, bindings_projection hmap,
    bindings_projection hcollect, bindings_projection hresult]

/-- A subquery binds what its clauses bind. -/
theorem binds_subquery {parent : Variable} {pattern : Pattern} {clauses : List Statement}
    {lo hi : Nat} {values : List Json} (hpattern : bindings pattern.events = [])
    (h : Binds (fun _ => True) lo hi (Statement.eventsAll clauses) values) :
    Binds (fun _ => True) lo hi (subquery parent pattern clauses).events values := by
  refine ((Binds.openChild none [parent]).append h).congr ?_
  simp [subquery, Statement.events, Statement.eventsAll, hpattern]

/-- The clause of a page binds the numbers of the page. -/
theorem binds_pageClause {keys : List (Expr × SortDirection)}
    (hkeys : bindings (Statement.keyEvents keys) = []) (offset limit : Option UInt64)
    (next : Nat) :
    Binds (fun _ => True) next next (Statement.eventsAll (pageClause keys offset limit))
      (rowValues offset ++ rowValues limit) := by
  have hpage (count : Option UInt64) (clause : UInt64 → Statement)
      (hclause : ∀ n, (clause n).events = [.page n]) :
      Binds (fun _ => True) next next (Statement.eventsAll (count.map clause).toList)
        (rowValues count) := by
    cases count with
    | none => exact .silent rfl (Nat.le_refl next)
    | some n =>
      refine (Binds.page n).congr ?_
      simp [Statement.eventsAll, hclause]
  have horder : Binds (fun _ => True) next next (Statement.eventsAll (orderClause keys)) [] := by
    refine .silent ?_ (Nat.le_refl next)
    unfold orderClause
    split
    next => rfl
    next => simpa [Statement.eventsAll, Statement.events] using hkeys
  have hclauses := (horder.append (hpage offset .skipping fun _ => by rw [Statement.events])).append
    (hpage limit .limiting fun _ => by rw [Statement.events])
  refine hclauses.congr (congrArg bindings ?_)
  rw [← Statement.eventsAll_append, ← Statement.eventsAll_append, pageClause]
  split
  next hempty => rw [List.isEmpty_iff.mp hempty]
  next => simp [Statement.eventsAll, Statement.events]

variable {setting : Setting} {node : Node} {v related edge : Variable} {link : Link}
  {path : String} {next last : Nat}

/-- Keys that are properties bind nothing. -/
theorem bindings_sortKeys {index : Nat} {sort : List SortKey}
    {keys : List (Expr × SortDirection)}
    (h : (sortKeys node v path index sort).run next = .ok (keys, last)) :
    bindings (Statement.keyEvents keys) = [] ∧ next = last := by
  induction sort generalizing index keys next last with
  | nil =>
    obtain ⟨rfl, rfl⟩ := Plan.pure_eq_ok h
    exact ⟨rfl, rfl⟩
  | cons key rest ih =>
    obtain ⟨_, others, _, hothers, h⟩ := Plan.found_cons_eq_ok h
    obtain ⟨hsilent, rfl⟩ := ih hothers
    obtain ⟨rfl, rfl⟩ := Plan.pure_eq_ok h
    exact ⟨by simp [Statement.keyEvents, Expr.events, hsilent], rfl⟩

/-- Sort keys of a connection bind nothing. -/
theorem bindings_connectionSortKeys {index : Nat} {sort : List ConnectionSortKey}
    {keys : List (Expr × SortDirection)}
    (h : (connectionSortKeys link related edge path index sort).run next = .ok (keys, last)) :
    bindings (Statement.keyEvents keys) = [] ∧ next = last := by
  induction sort generalizing index keys next last with
  | nil =>
    obtain ⟨rfl, rfl⟩ := Plan.pure_eq_ok h
    exact ⟨rfl, rfl⟩
  | cons key rest ih =>
    obtain ⟨_, others, _, hothers, h⟩ := Plan.found_cons_eq_ok h
    obtain ⟨hsilent, rfl⟩ := ih hothers
    obtain ⟨rfl, rfl⟩ := Plan.pure_eq_ok h
    exact ⟨by simp [Statement.keyEvents, Expr.events, hsilent], rfl⟩

/-- Selected fields bind nothing. -/
theorem bindings_fieldEntries {names : List String} {entries : List MapEntry}
    (h : (fieldEntries node v path names).run next = .ok (entries, last)) :
    bindings (MapEntry.eventsAll entries) = [] ∧ next = last := by
  induction names generalizing entries next last with
  | nil =>
    obtain ⟨rfl, rfl⟩ := Plan.pure_eq_ok h
    exact ⟨rfl, rfl⟩
  | cons name rest ih =>
    obtain ⟨_, others, _, hothers, h⟩ := Plan.found_cons_eq_ok h
    obtain ⟨hsilent, rfl⟩ := ih hothers
    split at h
    · obtain ⟨rfl, rfl⟩ := Plan.pure_eq_ok h
      exact ⟨by simpa [MapEntry.eventsAll] using hsilent, rfl⟩
    · obtain ⟨rfl, rfl⟩ := Plan.pure_eq_ok h
      exact ⟨by simp [MapEntry.eventsAll, Expr.events, hsilent], rfl⟩

/-- Selected properties of edges bind nothing. -/
theorem bindings_edgeEntries {names : List String} {entries : List (String × Expr)}
    (h : (edgeEntries link edge path names).run next = .ok (entries, last)) :
    bindings (Expr.eventsEntries entries) = [] ∧ next = last := by
  induction names generalizing entries next last with
  | nil =>
    obtain ⟨rfl, rfl⟩ := Plan.pure_eq_ok h
    exact ⟨rfl, rfl⟩
  | cons name rest ih =>
    obtain ⟨_, others, _, hothers, h⟩ := Plan.found_cons_eq_ok h
    obtain ⟨hsilent, rfl⟩ := ih hothers
    obtain ⟨rfl, rfl⟩ := Plan.pure_eq_ok h
    exact ⟨by simp [Expr.eventsEntries, Expr.events, hsilent], rfl⟩

/-- A condition has the events of its predicate. -/
theorem eventsAll_condition (predicate : Option Predicate) :
    Statement.eventsAll [.condition (.predicate predicate)] =
      Predicate.eventsOptional predicate := by
  cases predicate <;>
    simp [Statement.condition, Condition.predicate?, Statement.eventsAll, Statement.events,
      Predicate.eventsAll, Predicate.eventsOptional]

/-- A clause whose predicate binds the leaves of the filter that it is made from. -/
theorem binds_conditionClause {β : Type} {place : Place} {read : Json → FilterResult β}
    {compile : β → Fresh (Option Predicate)}
    (hbinds : ∀ {value filter}, read value = .ok filter → ∀ next,
      Binds IsParam next ((compile filter).run next).2
        (Predicate.eventsOptional ((compile filter).run next).1)
        (value.leaves setting.schema (.nested place)))
    {filter : Option Json} {clauses : List Statement}
    (h : (optionalClause (fun value => do
        let filter ← Plan.checked .filter (read value)
        let predicate ← Plan.fresh (compile filter)
        return .condition (.predicate predicate)) filter).run next = .ok (clauses, last)) :
    Binds (fun _ => True) next last (Statement.eventsAll clauses)
      (filterValues setting.schema place filter) := by
  cases filter with
  | none =>
    obtain ⟨rfl, rfl⟩ := Plan.pure_eq_ok h
    exact .silent rfl (Nat.le_refl next)
  | some value =>
    obtain ⟨clause, _, hclause, h⟩ := Plan.bind_eq_ok h
    obtain ⟨rfl, rfl⟩ := Plan.pure_eq_ok h
    obtain ⟨filter, _, hreadRun, hclause⟩ := Plan.bind_eq_ok hclause
    obtain ⟨hread, rfl⟩ := Plan.checked_eq_ok hreadRun
    obtain ⟨predicate, _, hpredicate, hclause⟩ := Plan.bind_eq_ok hclause
    obtain ⟨rfl, rfl⟩ := Plan.pure_eq_ok hclause
    have hvalue := hbinds hread next
    rw [Plan.fresh_eq_ok hpredicate] at hvalue
    rw [eventsAll_condition]
    exact hvalue.any

/-- The clause of a filter binds the leaves of the filter. -/
theorem binds_filterClause {element : Element} {filter : Option Json} {clauses : List Statement}
    (h : (optionalClause (filterClause setting element v path) filter).run next =
      .ok (clauses, last)) :
    Binds (fun _ => True) next last (Statement.eventsAll clauses)
      (filterValues setting.schema (.element element) filter) := by
  refine binds_conditionClause (fun {value filter} hread next => ?_) h
  rw [← Filter.values_of_read hread]
  exact filter.binds_predicate v next

/-- The clause of a connection filter binds the leaves of the filter. -/
theorem binds_connectionClause {filter : Option Json} {clauses : List Statement}
    (h : (optionalClause (connectionClause setting link related edge path) filter).run next =
      .ok (clauses, last)) :
    Binds (fun _ => True) next last (Statement.eventsAll clauses)
      (filterValues setting.schema (.connection link) filter) := by
  refine binds_conditionClause (fun {value filter} hread next => ?_) h
  rw [← ConnectionFilter.values_of_read hread]
  exact filter.binds_predicate related edge next

/-- The link of a selection is the one that the schema gives. -/
theorem link?_of_selectedLink {name : String}
    (h : (selectedLink setting node name path).run next = .ok (link, last)) :
    node.link? setting.schema name = some link ∧ next = last := by
  obtain ⟨⟨field, relationship⟩, _, hfoundRun, h⟩ := Plan.bind_eq_ok h
  obtain ⟨hfound, rfl⟩ := Plan.found_eq_ok hfoundRun
  obtain ⟨target, _, htargetRun, h⟩ := Plan.bind_eq_ok h
  obtain ⟨htarget, rfl⟩ := Plan.checked_eq_ok htargetRun
  obtain ⟨rfl, rfl⟩ := Plan.pure_eq_ok h
  simp only [Option.bind_eq_some_iff, Option.map_eq_some_iff, Prod.mk.injEq] at hfound
  obtain ⟨_, hfield, relationship, hrelationship, rfl, rfl⟩ := hfound
  simp [Node.link?, hfield, hrelationship, Schema.node?_of_node htarget]

mutual
/-- The clauses of a request bind the values of the request, and its projection binds nothing. -/
theorem binds_request (setting : Setting) (node : Node) (v : Variable) (path : String)
    (wanted : Request) {next last : Nat} {clauses : List Statement} {projection : Expr}
    (h : (request setting node v path wanted).run next = .ok ((clauses, projection), last)) :
    Binds (fun _ => True) next last (Statement.eventsAll clauses)
          (wanted.values setting.schema node) ∧
        bindings projection.events = [] := by
  match wanted with
  | ⟨filter, sort, offset, limit, wanted⟩ =>
    rw [request] at h
    obtain ⟨filters, _, hfilters, h⟩ := Plan.bind_eq_ok h
    obtain ⟨keys, _, hkeysRun, h⟩ := Plan.bind_eq_ok h
    obtain ⟨⟨calls, result⟩, _, hcalls, h⟩ := Plan.bind_eq_ok h
    obtain ⟨heq, rfl⟩ := Plan.pure_eq_ok h
    obtain ⟨rfl, rfl⟩ := Prod.mk.inj heq
    obtain ⟨hkeys, rfl⟩ := bindings_sortKeys hkeysRun
    obtain ⟨hcalls, hprojection⟩ := binds_selection setting node v path wanted hcalls
    refine ⟨?_, hprojection⟩
    rw [Statement.eventsAll_append, Statement.eventsAll_append, Request.values,
      List.append_assoc (filterValues ..)]
    exact ((binds_filterClause hfilters).append (binds_pageClause hkeys offset limit _)).append
      hcalls
termination_by structural wanted

/-- The subqueries of a selection bind its values, and its projection binds nothing. -/
theorem binds_selection (setting : Setting) (node : Node) (v : Variable) (path : String)
    (wanted : Selection) {next last : Nat} {calls : List Statement} {projection : Expr}
    (h : (selection setting node v path wanted).run next = .ok ((calls, projection), last)) :
    Binds (fun _ => True) next last (Statement.eventsAll calls)
          (wanted.values setting.schema node) ∧
        bindings projection.events = [] := by
  match wanted with
  | ⟨fields, related, connected⟩ =>
    rw [selection] at h
    obtain ⟨entries, _, hentriesRun, h⟩ := Plan.bind_eq_ok h
    obtain ⟨⟨relatedCalls, relatedEntries⟩, _, hrelated, h⟩ := Plan.bind_eq_ok h
    obtain ⟨⟨connectedCalls, connectedEntries⟩, _, hconnected, h⟩ := Plan.bind_eq_ok h
    obtain ⟨heq, rfl⟩ := Plan.pure_eq_ok h
    obtain ⟨rfl, rfl⟩ := Prod.mk.inj heq
    obtain ⟨hentries, rfl⟩ := bindings_fieldEntries hentriesRun
    obtain ⟨hrelated, hrelatedEntries⟩ := binds_relationships setting node v path related hrelated
    obtain ⟨hconnected, hconnectedEntries⟩ :=
      binds_connections setting node v path connected hconnected
    rw [Statement.eventsAll_append, Selection.values]
    refine ⟨hrelated.append hconnected, ?_⟩
    simp [Expr.events, MapEntry.eventsAll_append, hentries, hrelatedEntries, hconnectedEntries]
termination_by structural wanted

/-- The subqueries for related nodes bind the values of their requests. -/
theorem binds_relationships (setting : Setting) (node : Node) (v : Variable) (path : String)
    (selections : List RelationshipSelection) {next last : Nat} {calls : List Statement}
    {entries : List MapEntry}
    (h : (relationships setting node v path selections).run next = .ok ((calls, entries), last)) :
    Binds (fun _ => True) next last (Statement.eventsAll calls)
          (RelationshipSelection.valuesOfAll setting.schema node selections) ∧
        bindings (MapEntry.eventsAll entries) = [] := by
  match selections with
  | [] =>
    obtain ⟨heq, rfl⟩ := Plan.pure_eq_ok h
    obtain ⟨rfl, rfl⟩ := Prod.mk.inj heq
    exact ⟨.silent rfl (Nat.le_refl next), rfl⟩
  | ⟨field, key, wanted⟩ :: rest =>
    rw [relationships] at h
    obtain ⟨link, _, hlinkRun, h⟩ := Plan.bind_eq_ok h
    obtain ⟨hlink, rfl⟩ := link?_of_selectedLink hlinkRun
    replace h := Plan.bind_fresh_eq_ok h
    replace h := Plan.bind_fresh_eq_ok h
    obtain ⟨⟨clauses, projection⟩, _, hclauses, h⟩ := Plan.bind_eq_ok h
    replace h := Plan.bind_fresh_eq_ok h
    obtain ⟨⟨others, otherEntries⟩, _, hothers, h⟩ := Plan.bind_eq_ok h
    obtain ⟨heq, rfl⟩ := Plan.pure_eq_ok h
    obtain ⟨rfl, rfl⟩ := Prod.mk.inj heq
    obtain ⟨hclauses, hprojection⟩ := binds_request setting link.target _ _ wanted hclauses
    obtain ⟨hothers, hentries⟩ := binds_relationships setting node v path rest hothers
    refine ⟨?_, by simpa [MapEntry.eventsAll, Expr.events] using hentries⟩
    rw [Statement.eventsAll, RelationshipSelection.valuesOfAll, hlink]
    refine Binds.append (binds_subquery (link.bindings_pattern ..) ?_) hothers
    refine (hclauses.weaken (Nat.le_add_right next 2) (Nat.le_succ _)).congr ?_
    rw [Statement.eventsAll_append, bindings_append,
      bindings_relatedResult _ _ _ hprojection, List.append_nil]
termination_by structural selections

/-- The subqueries for connections bind the values of their filters and selections. -/
theorem binds_connections (setting : Setting) (node : Node) (v : Variable) (path : String)
    (selections : List ConnectionSelection) {next last : Nat} {calls : List Statement}
    {entries : List MapEntry}
    (h : (connections setting node v path selections).run next = .ok ((calls, entries), last)) :
    Binds (fun _ => True) next last (Statement.eventsAll calls)
          (ConnectionSelection.valuesOfAll setting.schema node selections) ∧
        bindings (MapEntry.eventsAll entries) = [] := by
  match selections with
  | [] =>
    obtain ⟨heq, rfl⟩ := Plan.pure_eq_ok h
    obtain ⟨rfl, rfl⟩ := Prod.mk.inj heq
    exact ⟨.silent rfl (Nat.le_refl next), rfl⟩
  | ⟨field, key, filter, sort, edgeFields, wanted⟩ :: rest =>
    rw [connections] at h
    obtain ⟨link, _, hlinkRun, h⟩ := Plan.bind_eq_ok h
    obtain ⟨hlink, rfl⟩ := link?_of_selectedLink hlinkRun
    replace h := Plan.bind_fresh_eq_ok h
    replace h := Plan.bind_fresh_eq_ok h
    obtain ⟨filters, _, hfilters, h⟩ := Plan.bind_eq_ok h
    obtain ⟨⟨clauses, projection⟩, _, hclauses, h⟩ := Plan.bind_eq_ok h
    obtain ⟨keys, _, hkeysRun, h⟩ := Plan.bind_eq_ok h
    obtain ⟨hkeys, rfl⟩ := bindings_connectionSortKeys hkeysRun
    obtain ⟨properties, _, hpropertiesRun, h⟩ := Plan.bind_eq_ok h
    obtain ⟨hproperties, rfl⟩ := bindings_edgeEntries hpropertiesRun
    replace h := Plan.bind_fresh_eq_ok h
    replace h := Plan.bind_fresh_eq_ok h
    replace h := Plan.bind_fresh_eq_ok h
    obtain ⟨⟨others, otherEntries⟩, _, hothers, h⟩ := Plan.bind_eq_ok h
    obtain ⟨heq, rfl⟩ := Plan.pure_eq_ok h
    obtain ⟨rfl, rfl⟩ := Prod.mk.inj heq
    obtain ⟨hclauses, hprojection⟩ := binds_selection setting link.target _ _ wanted hclauses
    obtain ⟨hothers, hentries⟩ := binds_connections setting node v path rest hothers
    have hmap : bindings (Expr.eventsEntries (properties ++ [("node", projection)])) = [] := by
      simp [Expr.eventsEntries_append, Expr.eventsEntries, hproperties, hprojection]
    refine ⟨?_, by simpa [MapEntry.eventsAll, Expr.events] using hentries⟩
    rw [Statement.eventsAll, ConnectionSelection.valuesOfAll, hlink]
    refine Binds.append (binds_subquery (link.bindings_pattern ..) ?_) hothers
    have hbody := ((binds_connectionClause hfilters).append hclauses).append
      (binds_pageClause hkeys none none _)
    have hnone : rowValues none ++ rowValues none = [] := rfl
    rw [← Statement.eventsAll_append, ← Statement.eventsAll_append, hnone,
      List.append_nil] at hbody
    -- Two identities are taken before the body, and three after it.
    refine (hbody.weaken (Nat.le_add_right next 2) (Nat.le_add_right _ 3)).congr ?_
    rw [Statement.eventsAll_append, bindings_append,
      bindings_connectionResult _ _ _ hmap, List.append_nil]
termination_by structural selections
end

/-- The statement of a request binds the values of the request. -/
theorem binds_statement {schema : Schema} {name : String} {wanted : Request} {settings : Settings}
    {result : Statement} (h : statement schema name wanted settings = .ok result) :
    ∃ node hi, schema.node? name = some node ∧
      Binds (fun _ => True) 1 hi result.events (wanted.values schema node) := by
  obtain ⟨node, hnode, h⟩ := FilterReader.bind_eq_ok h
  obtain ⟨⟨⟨clauses, projection⟩, hi⟩, hrequest, h⟩ := FilterReader.bind_eq_ok h
  obtain rfl := Except.ok.inj h
  obtain ⟨hclauses, hprojection⟩ := binds_request _ node _ name wanted hrequest
  refine ⟨node, hi, Schema.node?_of_node (Plan.eq_ok_of_mapError hnode), hclauses.congr ?_⟩
  simp [Statement.events, Statement.eventsAll, Statement.eventsAll_append,
    bindings_projection hprojection, Pattern.events, Pattern.hopEvents, NodePattern.events,
    NodePattern.of]

/-- The query of a request binds the values of the request under different names. -/
theorem values_of_query {schema : Schema} {name : String} {wanted : Request}
    {settings : Settings} {result : Query} (h : query schema name wanted settings = .ok result) :
    ∃ node, schema.node? name = some node ∧
      result.params.map Prod.snd = wanted.values schema node ∧
      (result.params.map Prod.fst).Nodup := by
  obtain ⟨statement, hstatement, h⟩ := FilterReader.bind_eq_ok h
  obtain ⟨node, hi, hnode, hbinds⟩ := binds_statement hstatement
  have hbuild := Plan.eq_ok_of_mapError h
  obtain ⟨names, after, hrun⟩ := Statement.runAll_of_build hbuild
  obtain ⟨text, htext, -⟩ := Statement.build_ok hrun
  obtain rfl := Except.ok.inj (hbuild.symm.trans htext)
  exact ⟨node, hnode, hbinds.table hrun⟩

end Read

end Clauses

/-- The query of a single filter binds the leaves of the filter, numbered from zero on. -/
theorem numbered_of_wherePredicate {schema : Schema} {limit next : Nat} {element : Element}
    {target : Variable} {value : Json} {predicate : Predicate} {options : RenderOptions}
    {query : Query}
    (hpredicate : wherePredicate schema limit element target next value = .ok (some predicate))
    (hbuild : predicate.build options = .ok (some query)) (hoptions : options.Separate) :
    query.params.map Prod.snd = value.leaves schema (.nested (.element element)) ∧
      query.params.map Prod.fst =
        (List.range query.params.length).map (Names.numbered options.paramPrefix) := by
  obtain ⟨filter, hread, h⟩ := FilterReader.bind_eq_ok hpredicate
  have hbinds := filter.binds_predicate target next
  rw [Except.ok.inj h, Filter.values_of_read hread] at hbinds
  obtain ⟨names, after, hrun, hparams⟩ := Predicate.runAll_of_build hbuild
  rw [hparams]
  exact ⟨(hbinds.table hrun).1, hbinds.numbered hoptions hrun⟩

/-- No value of a request is lost, repeated or moved: the table of its query lists the values of
the request in order, under different names. The table of a single filter does so too, and if the
prefixes keep names apart, its names are the prefix of parameters with the numbers from zero on. -/
theorem Read.params_list_values (schema : Schema) :
    (∀ {name : String} {wanted : Request} {settings : Settings} {result : Query},
      Read.query schema name wanted settings = .ok result →
      ∃ node, schema.node? name = some node ∧
        result.params.map Prod.snd = wanted.values schema node ∧
        (result.params.map Prod.fst).Nodup) ∧
    (∀ {limit next : Nat} {element : Element} {target : Variable} {value : Json}
      {predicate : Predicate} {options : RenderOptions} {result : Query},
      wherePredicate schema limit element target next value = .ok (some predicate) →
      predicate.build options = .ok (some result) → options.Separate →
      result.params.map Prod.snd = value.leaves schema (.nested (.element element)) ∧
        result.params.map Prod.fst =
          (List.range result.params.length).map fun i => options.paramPrefix ++ toString i) :=
  ⟨Read.values_of_query, numbered_of_wherePredicate⟩

/-- A film with its cast. -/
def filmNode : Node where
  name := "Film"
  labels := ["Film"]
  fields :=
    [⟨"title", none, .scalar ⟨.string, false, none⟩⟩,
      ⟨"year", some "released", .scalar ⟨.int, false, none⟩⟩,
      ⟨"cast", none, .relationship ⟨"ACTED_IN", .incoming, "Person", true,
        [⟨"role", none, .scalar ⟨.string, false, none⟩⟩]⟩⟩]

/-- Films and the people in them. -/
def filmSchema : Schema :=
  ⟨[filmNode, ⟨"Person", ["Person"], [⟨"name", none, .scalar ⟨.string, false, none⟩⟩]⟩]⟩

/-- A filter with a list, a null, a repeated pattern and aggregates. -/
def filmFilter : Json :=
  .object
    [("title_IN", .array [.string "Heat"]), ("year", .null),
      ("cast_ALL", .object [("OR", .array [.object [("name", .string "Al")], .object []])]),
      ("castAggregate",
        .object [("count_GT", .ofNat 2), ("node", .object [("name_SHORTEST_LT", .null)])])]

/-- A request with a page, and with values in both kinds of selections. -/
def filmRequest : Request where
  filter := some filmFilter
  sort := [⟨"year", .descending⟩]
  offset := some 5
  limit := some 3
  selection :=
    ⟨["title"],
      [⟨"cast", none,
        ⟨some (.object [("name_NOT", .string "Bob")]), [], none, some 1, ⟨["name"], [], []⟩⟩⟩],
      [⟨"cast", none, some (.object [("edge", .object [("role", .string "cop")])]), [], ["role"],
        ⟨["name"], [], []⟩⟩]⟩

/-- The values of the request for films are bound from the outside in. The filter alone has its
parameters numbered without a gap. -/
theorem Read.filmRequest_values :
    (∃ result, Read.query filmSchema "Film" filmRequest {} = .ok result ∧
      result.params.map Prod.snd =
        [.array [.string "Heat"], .string "Al", .ofNat 2, .null, .ofNat 5, .ofNat 3,
          .string "Bob", .ofNat 1, .string "cop"]) ∧
    ∃ predicate result,
      wherePredicate filmSchema 32 filmNode.element (.namedNode 0 "this" ["Film"]) 1 filmFilter =
        .ok (some predicate) ∧
      predicate.build {} = .ok (some result) ∧
      result.params.map Prod.fst = ["param0", "param1", "param2", "param3"] := by
  constructor
  · have hok : (Read.query filmSchema "Film" filmRequest {}).isOk = true := by decide +kernel
    cases hquery : Read.query filmSchema "Film" filmRequest {} with
    | error error => simp [hquery, Except.isOk, Except.toBool] at hok
    | ok result =>
      obtain ⟨node, hnode, hvalues, -⟩ := (Read.params_list_values filmSchema).1 hquery
      obtain rfl : filmNode = node := Option.some.inj hnode
      exact ⟨result, rfl, hvalues.trans (by decide +kernel)⟩
  · have hjoin {ε α : Type} {e : Except ε (Option α)} {a : α} (h : e.toOption.join = some a) :
        e = .ok (some a) := by
      cases e with
      | error error => simp [Except.toOption] at h
      | ok found => simpa [Except.toOption] using h
    have hok : ((wherePredicate filmSchema 32 filmNode.element (.namedNode 0 "this" ["Film"]) 1
        filmFilter).toOption.join.bind fun predicate =>
          (predicate.build {}).toOption.join).isSome = true := by decide +kernel
    obtain ⟨result, hresult⟩ := Option.isSome_iff_exists.mp hok
    obtain ⟨predicate, hpredicate, hbuild⟩ := Option.bind_eq_some_iff.mp hresult
    have hoptions : RenderOptions.Separate {} := by constructor <;> decide
    obtain ⟨hvalues, hnames⟩ :=
      (Read.params_list_values filmSchema).2 (hjoin hpredicate) (hjoin hbuild) hoptions
    have hlength : result.params.length = 4 := by
      rw [← List.length_map (f := Prod.snd), hvalues]
      decide +kernel
    refine ⟨predicate, result, hjoin hpredicate, hjoin hbuild, hnames.trans ?_⟩
    rw [hlength]
    decide

end GraphRead
