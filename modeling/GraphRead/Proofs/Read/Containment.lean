import GraphRead.Proofs.Read.Scoping
import GraphRead.Proofs.Rendering.Containment

/-!
# Queries of requests are contained

Names of the schema and of the request reach a query only in places where they
are quoted, and values only as parameters. A query of valid settings therefore
closes all its quotations, and outside of them it consists of the words and
brackets that are written for it.
-/

namespace GraphRead

open Text (Contained)

/-- The variables that an event names are good ones, and it fixes no other name. -/
def Event.NamesOnly (good : Variable → Prop) : Event → Prop
  | .name v => good v
  | .openChild base imports => base = none ∧ ∀ v ∈ imports, good v
  | _ => True

/-- An expression brings only contained words and the names of good variables into a query. -/
structure Expr.Clean (good : Variable → Prop) (e : Expr) : Prop where
  harmless : e.Harmless
  named : ∀ event ∈ e.events, event.NamesOnly good

/-- An entry of a map is stored, or its value is clean. -/
def MapEntry.Clean (good : Variable → Prop) : MapEntry → Prop
  | .stored _ => True
  | .computed _ e => e.Clean good

/-- A predicate brings only contained words and the names of good variables into a query. -/
structure Predicate.Clean (good : Variable → Prop) (p : Predicate) : Prop where
  harmless : p.Harmless
  named : ∀ event ∈ p.events, event.NamesOnly good

/-- An item brings only contained words and the names of good variables into a query. -/
structure Item.Clean (good : Variable → Prop) (item : Item) : Prop where
  harmless : item.Harmless
  named : ∀ clause, ∀ event ∈ item.events clause, event.NamesOnly good

/-- A statement brings only contained words and the names of good variables into a query. -/
structure Statement.Clean (good : Variable → Prop) (s : Statement) : Prop where
  harmless : s.Harmless
  named : ∀ event ∈ s.events, event.NamesOnly good

/-- All variables whose names are chosen while rendering are good ones. -/
def AllowsFree (good : Variable → Prop) : Prop := ∀ v : Variable, v.name = none → good v

variable {good : Variable → Prop}

namespace Event

variable {vs : List Variable}

/-- Declaring variables names none. -/
theorem named_map_declare : ∀ event ∈ vs.map Event.declare, event.NamesOnly good := by
  rw [List.forall_mem_map]
  exact fun v hv => trivial

/-- Requiring variables names none. -/
theorem named_map_require (clause : ReadingClause) :
    ∀ event ∈ vs.map (Event.require clause), event.NamesOnly good := by
  rw [List.forall_mem_map]
  exact fun v hv => trivial

/-- Naming good variables names good ones only. -/
theorem named_map_name (h : ∀ v ∈ vs, good v) : ∀ event ∈ vs.map Event.name, event.NamesOnly good :=
  List.forall_mem_map.mpr h

end Event

namespace Expr

variable {v : Variable}

/-- A good variable is clean. -/
theorem clean_var (h : good v) : (Expr.var v).Clean good :=
  ⟨trivial, List.forall_mem_singleton.mpr h⟩

/-- A property of a good variable is clean, whatever it is called, since it is quoted. -/
theorem clean_property (h : good v) (path : List String) : (Expr.property v path).Clean good :=
  ⟨trivial, List.forall_mem_singleton.mpr h⟩

/-- A parameter is clean, whatever its content. -/
theorem clean_param (p : Param) : (Expr.param p).Clean good :=
  ⟨trivial, List.forall_mem_singleton.mpr trivial⟩

/-- A function with a contained name is clean, applied to a clean expression. -/
theorem clean_apply {e : Expr} {function : String} (hfunction : Contained function)
    (h : e.Clean good) : (Expr.apply function [e]).Clean good := by
  refine ⟨⟨hfunction, h.harmless, trivial⟩, ?_⟩
  simpa [Expr.events, Expr.eventsAll] using h.named

/-- A map of clean expressions is clean, whatever its keys. -/
theorem clean_map {entries : List (String × Expr)} (h : ∀ entry ∈ entries, entry.2.Clean good) :
    (Expr.map entries).Clean good := by
  suffices hentries : Expr.EntriesHarmless entries ∧
      ∀ event ∈ Expr.eventsEntries entries, event.NamesOnly good from ⟨hentries.1, hentries.2⟩
  induction entries with
  | nil => simp [Expr.EntriesHarmless, Expr.eventsEntries]
  | cons entry rest ih =>
    obtain ⟨hentry, hrest⟩ := List.forall_mem_cons.mp h
    obtain ⟨hharmless, hnamed⟩ := ih hrest
    exact ⟨⟨hentry.harmless, hharmless⟩, List.forall_mem_append.mpr ⟨hentry.named, hnamed⟩⟩

/-- A projection of a good variable is clean, if its entries are. -/
theorem clean_project {entries : List MapEntry} (hv : good v)
    (h : ∀ entry ∈ entries, entry.Clean good) : (Expr.project v entries).Clean good := by
  suffices hentries : MapEntry.AllHarmless entries ∧
      ∀ event ∈ MapEntry.eventsAll entries, event.NamesOnly good from
    ⟨hentries.1, List.forall_mem_cons.mpr ⟨hv, hentries.2⟩⟩
  induction entries with
  | nil => simp [MapEntry.AllHarmless, MapEntry.eventsAll]
  | cons entry rest ih =>
    obtain ⟨hentry, hrest⟩ := List.forall_mem_cons.mp h
    obtain ⟨hharmless, hnamed⟩ := ih hrest
    cases entry with
    | stored key => exact ⟨hharmless, hnamed⟩
    | computed key e =>
      exact ⟨⟨hentry.harmless, hharmless⟩, List.forall_mem_append.mpr ⟨hentry.named, hnamed⟩⟩

end Expr

/-- The expression of an aggregate is clean. The functions that it applies are fixed. -/
theorem Aggregate.clean_expr (aggregate : Aggregate) {related edge : Variable}
    (hrelated : good related) (hedge : good edge) : (aggregate.expr related edge).Clean good := by
  obtain _ | ⟨side, property, function⟩ := aggregate
  · exact Expr.clean_apply (by decide) (Expr.clean_var hrelated)
  · have hstored : (Expr.property (Read.sideVariable related edge side) [property]).Clean good := by
      cases side with
      | node => exact Expr.clean_property hrelated _
      | edge => exact Expr.clean_property hedge _
    cases function with
    | average | sum | min | max => exact Expr.clean_apply (by decide) hstored
    | shortestLength | longestLength | averageLength =>
      exact Expr.clean_apply (by decide) (Expr.clean_apply (by decide) hstored)

/-- A clean expression under a good name is clean. -/
theorem Item.clean_aliased {e : Expr} {newName : Variable} (he : e.Clean good) (h : good newName) :
    (Item.aliased e newName).Clean good := by
  have halias : ∀ event ∈ Item.aliasEvents (.aliased e newName), event.NamesOnly good := by
    intro event hevent
    have hname : event = .name newName := by
      unfold Item.aliasEvents at hevent
      split at hevent <;> simp_all
    exact hname ▸ h
  refine ⟨he.harmless, fun clause => ?_⟩
  rw [Item.events]
  exact List.forall_mem_append.mpr ⟨List.forall_mem_append.mpr
    ⟨Event.named_map_require clause, he.named⟩, halias⟩

/-- Clean items in a row are harmless and name good variables only. -/
theorem Item.allClean {items : List Item} (h : ∀ item ∈ items, item.Clean good)
    (clause : ReadingClause) : Item.AllHarmless items ∧
      ∀ event ∈ projectionEvents clause items (Item.eventsAll clause items),
        event.NamesOnly good := by
  have hall : Item.AllHarmless items ∧
      ∀ event ∈ Item.eventsAll clause items, event.NamesOnly good := by
    induction items with
    | nil => simp [Item.AllHarmless, Item.eventsAll]
    | cons item rest ih =>
      obtain ⟨hitem, hrest⟩ := List.forall_mem_cons.mp h
      obtain ⟨hharmless, hnamed⟩ := ih hrest
      exact ⟨⟨hitem.harmless, hharmless⟩,
        List.forall_mem_append.mpr ⟨hitem.named clause, hnamed⟩⟩
  refine ⟨hall.1, ?_⟩
  unfold projectionEvents
  split
  · exact List.forall_mem_singleton.mpr trivial
  · exact hall.2

/-- Clean predicates in a row are harmless and name good variables only. -/
theorem Predicate.allClean {parts : List Predicate} (h : ∀ p ∈ parts, p.Clean good) :
    Predicate.AllHarmless parts ∧ ∀ event ∈ Predicate.eventsAll parts, event.NamesOnly good := by
  induction parts with
  | nil => simp [Predicate.AllHarmless, Predicate.eventsAll]
  | cons p rest ih =>
    obtain ⟨hp, hrest⟩ := List.forall_mem_cons.mp h
    obtain ⟨hharmless, hnamed⟩ := ih hrest
    exact ⟨⟨hp.harmless, hharmless⟩, List.forall_mem_append.mpr ⟨hp.named, hnamed⟩⟩

namespace Statement

variable {clauses : List Statement} {items : List Item} {pattern : Pattern}

/-- Clean clauses in a row are harmless and name good variables only. -/
theorem allClean (h : ∀ s ∈ clauses, s.Clean good) :
    AllHarmless clauses ∧ ∀ event ∈ eventsAll clauses, event.NamesOnly good := by
  induction clauses with
  | nil => simp [AllHarmless, eventsAll]
  | cons s rest ih =>
    obtain ⟨hs, hrest⟩ := List.forall_mem_cons.mp h
    obtain ⟨hharmless, hnamed⟩ := ih hrest
    exact ⟨⟨hs.harmless, hharmless⟩, List.forall_mem_append.mpr ⟨hs.named, hnamed⟩⟩

/-- Matching a pattern with good variables is clean, if the clauses after it are. -/
theorem clean_matching (optional : Bool) (hpattern : ∀ event ∈ pattern.events, event.NamesOnly good)
    (h : ∀ s ∈ clauses, s.Clean good) : (matching optional pattern clauses).Clean good := by
  obtain ⟨hharmless, hnamed⟩ := allClean h
  refine ⟨hharmless, ?_⟩
  rw [Statement.events, List.forall_mem_append, List.forall_mem_append]
  exact ⟨⟨Event.named_map_declare, hpattern⟩, hnamed⟩

/-- Filtering by clean predicates is clean. -/
theorem clean_filtering {parts : List Predicate} (h : ∀ p ∈ parts, p.Clean good) :
    (filtering parts).Clean good := ⟨(Predicate.allClean h).1, (Predicate.allClean h).2⟩

/-- Returning clean items is clean. -/
theorem clean_returning (distinct : Bool) (h : ∀ item ∈ items, item.Clean good) :
    (returning distinct items).Clean good :=
  ⟨(Item.allClean h .returning).1, (Item.allClean h .returning).2⟩

/-- Passing clean items on is clean, if the clauses after it are. -/
theorem clean_passing (distinct : Bool) (hitems : ∀ item ∈ items, item.Clean good)
    (h : ∀ s ∈ clauses, s.Clean good) : (passing distinct items clauses).Clean good := by
  obtain ⟨hharmless, hnamed⟩ := Item.allClean hitems .passing
  refine ⟨⟨hharmless, (allClean h).1⟩, ?_⟩
  rw [Statement.events]
  exact List.forall_mem_append.mpr ⟨List.forall_mem_append.mpr
    ⟨hnamed, List.forall_mem_singleton.mpr trivial⟩, (allClean h).2⟩

/-- Ordering by clean expressions is clean. -/
theorem clean_ordering {keys : List (Expr × SortDirection)} (h : ∀ key ∈ keys, key.1.Clean good) :
    (ordering keys).Clean good := by
  suffices hkeys : KeysHarmless keys ∧ ∀ event ∈ keyEvents keys, event.NamesOnly good from
    ⟨hkeys.1, hkeys.2⟩
  induction keys with
  | nil => simp [KeysHarmless, keyEvents]
  | cons key rest ih =>
    obtain ⟨hkey, hrest⟩ := List.forall_mem_cons.mp h
    obtain ⟨hharmless, hnamed⟩ := ih hrest
    exact ⟨⟨hkey.harmless, hharmless⟩, List.forall_mem_append.mpr ⟨hkey.named, hnamed⟩⟩

/-- A subquery fixes no name of its own but takes its stem from what it imports. -/
theorem clean_subquery {v : Variable} (hv : good v)
    (hpattern : ∀ event ∈ pattern.events, event.NamesOnly good) (h : ∀ s ∈ clauses, s.Clean good) :
    (Read.subquery v pattern clauses).Clean good := by
  have hbody := clean_matching false hpattern h
  have himports : ∀ u ∈ [v], good u := List.forall_mem_singleton.mpr hv
  have hopen : (Event.openChild none [v]).NamesOnly good := ⟨rfl, himports⟩
  refine ⟨⟨hbody.harmless, trivial⟩, ?_⟩
  rw [Read.subquery, Statement.events]
  simp only [List.forall_mem_append, List.forall_mem_cons]
  exact ⟨⟨⟨⟨Event.named_map_require _, Event.named_map_name himports⟩, ⟨hopen, hbody.named⟩,
    trivial, List.forall_mem_nil _⟩, Event.named_map_declare⟩, List.forall_mem_nil _⟩

end Statement

/-- A pattern over a link names its source and new variables. -/
theorem Link.LeadsFrom.named {link : Link} {source : Variable} {pattern : Pattern}
    {new : List Variable} (h : link.LeadsFrom source pattern new)
    (hfree : AllowsFree good) (hsource : good source) :
    (∀ event ∈ pattern.events, event.NamesOnly good) ∧ ∀ v ∈ new, good v := by
  cases h with
  | related relatedId =>
    have hrelated : good (.node relatedId link.target.labels) := hfree _ rfl
    have hnew : ∀ v ∈ [Variable.node relatedId link.target.labels], good v :=
      List.forall_mem_singleton.mpr hrelated
    exact ⟨Event.named_map_name (List.forall_mem_cons.mpr ⟨hsource, hnew⟩), hnew⟩
  | connected relatedId edgeId =>
    have hrelated : good (.node relatedId link.target.labels) := hfree _ rfl
    have hedge : good (.relationship edgeId link.relationship.type) := hfree _ rfl
    have hnew : ∀ v ∈ [.relationship edgeId link.relationship.type,
        Variable.node relatedId link.target.labels], good v :=
      List.forall_mem_cons.mpr ⟨hedge, List.forall_mem_singleton.mpr hrelated⟩
    exact ⟨Event.named_map_name (List.forall_mem_cons.mpr ⟨hsource, hnew⟩), hnew⟩

namespace Predicate

/-- Comparing clean expressions is clean. -/
theorem clean_compare {left : Expr} {right : Option Expr} (comparison : Comparison)
    (hleft : left.Clean good) (hright : ∀ e ∈ right, e.Clean good) :
    (compare comparison left right).Clean good := by
  have hoptional : Expr.OptionalHarmless right ∧
      ∀ event ∈ Expr.eventsOptional right, event.NamesOnly good := by
    cases right with
    | none => exact ⟨trivial, List.forall_mem_nil _⟩
    | some e => exact ⟨(hright e rfl).harmless, (hright e rfl).named⟩
  refine ⟨⟨hleft.harmless, hoptional.1⟩, List.forall_mem_append.mpr ⟨hleft.named, ?_⟩⟩
  split
  · exact List.forall_mem_nil _
  · exact hoptional.2

/-- Comparing two clean expressions is clean. -/
theorem clean_binary {left right : Expr} (comparison : Comparison) (hleft : left.Clean good)
    (hright : right.Clean good) : (binary comparison left right).Clean good := by
  refine clean_compare comparison hleft fun e he => ?_
  obtain rfl := Option.some.inj he
  exact hright

/-- Asking whether a clean statement has results is clean. -/
theorem clean_exist {body : Statement} (h : body.Clean good) : (exist body).Clean good := by
  refine ⟨h.harmless, ?_⟩
  rw [events, List.cons_append, List.forall_mem_cons, List.forall_mem_append]
  exact ⟨trivial, h.named, List.forall_mem_singleton.mpr trivial⟩

end Predicate

/-- The predicates of filters are clean if their variables are good ones. -/
theorem Predicate.OfFilter.clean {vs : List Variable} {p : Predicate} (h : OfFilter vs p)
    (hfree : AllowsFree good) (hvs : ∀ v ∈ vs, good v) : p.Clean good := by
  induction h with
  | stored hv property comparison right =>
    refine clean_compare comparison (Expr.clean_property (hvs _ hv) _) fun e he => ?_
    obtain ⟨p, -, rfl⟩ := Option.map_eq_some_iff.mp he
    exact Expr.clean_param p
  | included hv property p =>
    exact clean_binary .within (Expr.clean_param p) (Expr.clean_property (hvs _ hv) _)
  | result hv comparison p =>
    exact clean_binary comparison (Expr.clean_var (hvs _ hv)) (Expr.clean_param p)
  | all _ _ ih =>
    obtain ⟨hharmless, hnamed⟩ := allClean fun p hp => ih p hp hvs
    exact ⟨hharmless, hnamed⟩
  | any _ _ ih =>
    obtain ⟨hharmless, hnamed⟩ := allClean fun p hp => ih p hp hvs
    exact ⟨hharmless, hnamed⟩
  | not _ ih => exact ⟨(ih hvs).harmless, (ih hvs).named⟩
  | anyMatch hsource hpattern =>
    exact clean_exist (Statement.clean_matching false (hpattern.named hfree (hvs _ hsource)).1
      (List.forall_mem_nil _))
  | someMatch hsource hpattern hinner ih =>
    obtain ⟨hevents, hnew⟩ := hpattern.named hfree (hvs _ hsource)
    refine clean_exist (Statement.clean_matching false hevents (List.forall_mem_singleton.mpr ?_))
    exact Statement.clean_filtering fun p hp => ih p (Option.mem_toList.mp hp) hnew
  | @oneMatch vs new link source pattern inner hsource hpattern hinner valueId ih =>
    obtain ⟨hevents, hnew⟩ := hpattern.named hfree (hvs _ hsource)
    have hone : Contained (Literal.write (.ofNat 1)) := by decide
    have hfilter : OptionalHarmless inner ∧
        ∀ event ∈ eventsOptional inner, event.NamesOnly good := by
      cases inner with
      | none => exact ⟨trivial, List.forall_mem_nil _⟩
      | some p => exact ⟨(ih p rfl hnew).harmless, (ih p rfl hnew).named⟩
    refine ⟨⟨⟨hfilter.1, hone⟩, trivial⟩, ?_⟩
    rw [events, Expr.events, eventsOptional, List.append_nil]
    rw [List.forall_mem_cons, List.forall_mem_append, List.forall_mem_append]
    exact ⟨hfree (.value valueId) rfl, ⟨hevents, hfilter.2⟩, List.forall_mem_nil _⟩
  | @aggregates vs link source relatedId edgeId items condition hsource hsome hitems _ ih =>
    have hpattern : link.LeadsFrom source _ _ := .connected relatedId edgeId
    have hevents := (hpattern.named hfree (hvs _ hsource)).1
    have hitem : ∀ item ∈ items, item.Clean good := by
      intro item hmem
      obtain ⟨aggregate, resultId, rfl⟩ := hitems item hmem
      exact Item.clean_aliased (aggregate.clean_expr (hfree _ rfl) (hfree _ rfl)) (hfree _ rfl)
    -- The condition reads the results of the aggregates only, whose names are not fixed.
    have hresults : ∀ v ∈ items.filterMap Item.introduced?, good v := by
      intro v hv
      obtain ⟨item, hmem, hintroduced⟩ := List.mem_filterMap.mp hv
      obtain ⟨aggregate, resultId, rfl⟩ := hitems item hmem
      exact Option.some.inj hintroduced ▸ hfree (.value resultId) rfl
    have hcondition := Statement.clean_filtering (List.forall_mem_singleton.mpr (ih hresults))
    refine clean_exist (Statement.clean_matching false hevents (List.forall_mem_singleton.mpr ?_))
    exact Statement.clean_passing false hitem (List.forall_mem_singleton.mpr hcondition)

namespace Read

section Clauses

variable {vs : List Variable}

/-- A condition that is made from a filter is clean. -/
theorem Conditions.clean {β : Type} {read : Json → FilterResult β}
    {compile : β → Fresh (Option Predicate)}
    (hfree : AllowsFree good) (hvs : ∀ v ∈ vs, good v)
    (hcompile : ∀ filter next, ∀ p ∈ ((compile filter).run next).1, p.OfFilter vs)
    {filter : Option Json} {clauses : List Statement} (h : Conditions read compile filter clauses) :
    ∀ s ∈ clauses, s.Clean good := by
  cases h with
  | none => exact List.forall_mem_nil _
  | some next hread =>
    refine List.forall_mem_singleton.mpr (Statement.clean_filtering fun p hp => ?_)
    exact (hcompile _ next p (Option.mem_toList.mp hp)).clean hfree hvs

/-- The clauses of a page are clean, if the sort keys are on good variables. -/
theorem clean_pageClause {keys : List (Expr × SortDirection)} (hvs : ∀ v ∈ vs, good v)
    (hkeys : KeysOn vs keys) (offset limit : Option UInt64) :
    ∀ s ∈ pageClause keys offset limit, s.Clean good := by
  have horder : ∀ s ∈ orderClause keys, s.Clean good := by
    unfold orderClause
    split
    next => exact List.forall_mem_nil _
    next =>
      refine List.forall_mem_singleton.mpr (Statement.clean_ordering fun key hkey => ?_)
      obtain ⟨v, hv, path, heq⟩ := hkeys key hkey
      exact heq ▸ Expr.clean_property (hvs v hv) path
  have hskip : ∀ s ∈ (offset.map Statement.skipping).toList, s.Clean good := by
    cases offset with
    | none => exact List.forall_mem_nil _
    | some count =>
      exact List.forall_mem_singleton.mpr ⟨trivial, List.forall_mem_singleton.mpr trivial⟩
  have hlimit : ∀ s ∈ (limit.map Statement.limiting).toList, s.Clean good := by
    cases limit with
    | none => exact List.forall_mem_nil _
    | some count =>
      exact List.forall_mem_singleton.mpr ⟨trivial, List.forall_mem_singleton.mpr trivial⟩
  have hclauses := Statement.allClean (List.forall_mem_append.mpr
    ⟨List.forall_mem_append.mpr ⟨horder, hskip⟩, hlimit⟩)
  rw [pageClause]
  split
  next => exact List.forall_mem_nil _
  next => exact List.forall_mem_singleton.mpr ⟨hclauses.1, hclauses.2⟩

/-- Collecting a clean projection of related nodes is clean. -/
theorem clean_relatedResult (link : Link) {related result : Variable} {projection : Expr}
    (hrelated : good related) (hresult : good result) (h : projection.Clean good) :
    ∀ s ∈ relatedResult link related result projection, s.Clean good := by
  have hcollected : (collected link related).Clean good := by
    have hall : (Expr.apply "collect" [.var related]).Clean good :=
      Expr.clean_apply (by decide) (Expr.clean_var hrelated)
    unfold collected
    split
    · exact hall
    · exact Expr.clean_apply (by decide) hall
  have hpassed : ∀ item ∈ [Item.aliased projection related], item.Clean good :=
    List.forall_mem_singleton.mpr (Item.clean_aliased h hrelated)
  have hreturned : ∀ item ∈ [Item.aliased (collected link related) result], item.Clean good :=
    List.forall_mem_singleton.mpr (Item.clean_aliased hcollected hresult)
  rw [relatedResult, List.forall_mem_cons, List.forall_mem_singleton]
  exact ⟨Statement.clean_passing false hpassed (List.forall_mem_nil _),
    Statement.clean_returning false hreturned⟩

/-- Collecting the edges of a connection is clean, if their map is. -/
theorem clean_connectionResult {edgeMap edges result : Variable} {entries : List (String × Expr)}
    (hedgeMap : good edgeMap) (hedges : good edges) (hresult : good result)
    (h : (Expr.map entries).Clean good) :
    ∀ s ∈ connectionResult edgeMap edges result entries, s.Clean good := by
  have hcollect : (Expr.apply "collect" [.var edgeMap]).Clean good :=
    Expr.clean_apply (by decide) (Expr.clean_var hedgeMap)
  have hmap : (Expr.map
      [("edges", .var edges), ("totalCount", .apply "size" [.var edges])]).Clean good := by
    refine Expr.clean_map (List.forall_mem_cons.mpr ⟨Expr.clean_var hedges, ?_⟩)
    exact List.forall_mem_singleton.mpr (Expr.clean_apply (by decide) (Expr.clean_var hedges))
  have hpassing {e : Expr} {v : Variable} (he : e.Clean good) (hv : good v) :
      (Statement.passing false [.aliased e v] []).Clean good :=
    Statement.clean_passing false (List.forall_mem_singleton.mpr (Item.clean_aliased he hv))
      (List.forall_mem_nil _)
  have hreturned := Statement.clean_returning false
    (List.forall_mem_singleton.mpr (Item.clean_aliased hmap hresult))
  exact List.forall_mem_cons.mpr ⟨hpassing h hedgeMap, List.forall_mem_cons.mpr
    ⟨hpassing hcollect hedges, List.forall_mem_singleton.mpr hreturned⟩⟩

/-- Entries that read fields of a good variable are clean. -/
theorem clean_of_fieldEntry {node : Node} {v : Variable} (hv : good v) {names : List String}
    {entries : List MapEntry} (h : List.Forall₂ (FieldEntry node v) names entries) :
    ∀ entry ∈ entries, entry.Clean good := by
  intro entry hentry
  obtain ⟨key, rfl⟩ | ⟨key, path, rfl⟩ := property_of_fieldEntry h entry hentry
  · trivial
  · exact Expr.clean_property hv path

/-- Properties of a relationship with a good name are clean. -/
theorem clean_of_edgeEntry {link : Link} {edge : Variable} (hedge : good edge)
    {names : List String} {entries : List (String × Expr)}
    (h : List.Forall₂ (EdgeEntry link edge) names entries) :
    ∀ entry ∈ entries, entry.2.Clean good := by
  intro entry hentry
  obtain ⟨path, heq⟩ := property_of_edgeEntry h entry hentry
  rw [heq]
  exact Expr.clean_property hedge path

end Clauses

mutual
/-- What answers a request is clean. -/
theorem AnswersRequest.clean {setting : Setting} {node : Node} {v : Variable} {wanted : Request}
    {clauses : List Statement} {projection : Expr} (hfree : AllowsFree good) (hv : good v)
    (h : AnswersRequest setting node v wanted clauses projection) :
    (∀ s ∈ clauses, s.Clean good) ∧ projection.Clean good := by
  match h with
  | .intro hfilter hsort hwanted =>
    obtain ⟨hcalls, hprojection⟩ := hwanted.clean hfree hv
    have hvs : ∀ u ∈ [v], good u := List.forall_mem_singleton.mpr hv
    have hfilters := hfilter.clean hfree hvs fun filter next => filter.ofFilter_predicate v next
    have hpage := clean_pageClause hvs (keysOn_of_sortsBy hsort)
    refine ⟨?_, hprojection⟩
    rw [List.forall_mem_append, List.forall_mem_append]
    exact ⟨⟨hfilters, hpage _ _⟩, hcalls⟩
termination_by structural h

/-- The answer to a selection is clean, if its variable is good. -/
theorem AnswersSelection.clean {setting : Setting} {node : Node} {v : Variable}
    {wanted : Selection} {calls : List Statement} {projection : Expr} (hfree : AllowsFree good)
    (hv : good v) (h : AnswersSelection setting node v wanted calls projection) :
    (∀ s ∈ calls, s.Clean good) ∧ projection.Clean good := by
  match h with
  | .intro hfields hrelated hconnected =>
    obtain ⟨hrelatedCalls, hrelatedEntries⟩ := hrelated.clean hfree hv
    obtain ⟨hconnectedCalls, hconnectedEntries⟩ := hconnected.clean hfree hv
    have hentries := clean_of_fieldEntry hv hfields
    refine ⟨List.forall_mem_append.mpr ⟨hrelatedCalls, hconnectedCalls⟩, ?_⟩
    refine Expr.clean_project hv ?_
    rw [List.forall_mem_append, List.forall_mem_append]
    exact ⟨⟨hentries, hrelatedEntries⟩, hconnectedEntries⟩
termination_by structural h

/-- The answers to selections of related nodes are clean, if their variable is good. -/
theorem AnswersRelated.clean {setting : Setting} {node : Node} {v : Variable}
    {selections : List RelationshipSelection} {calls : List Statement} {entries : List MapEntry}
    (hfree : AllowsFree good) (hv : good v)
    (h : AnswersRelated setting node v selections calls entries) :
    (∀ s ∈ calls, s.Clean good) ∧ ∀ entry ∈ entries, entry.Clean good := by
  match h with
  | .nil => exact ⟨List.forall_mem_nil _, List.forall_mem_nil _⟩
  | .cons hlink hwanted hrest =>
    obtain ⟨hclauses, hprojection⟩ := hwanted.clean hfree (hfree _ rfl)
    obtain ⟨hcalls, hentries⟩ := hrest.clean hfree hv
    rw [List.forall_mem_cons, List.forall_mem_cons]
    -- All variables of the subquery but its source are free, so that they have good names.
    refine ⟨⟨Statement.clean_subquery hv ?_ ?_, hcalls⟩, Expr.clean_var (hfree _ rfl), hentries⟩
    · exact (Link.LeadsFrom.named (.connected _ _) hfree hv).1
    · rw [List.forall_mem_append]
      exact ⟨hclauses, clean_relatedResult _ (hfree _ rfl) (hfree _ rfl) hprojection⟩
termination_by structural h

/-- The answers to selections of connections are clean, if their variable is good. -/
theorem AnswersConnected.clean {setting : Setting} {node : Node} {v : Variable}
    {selections : List ConnectionSelection} {calls : List Statement} {entries : List MapEntry}
    (hfree : AllowsFree good) (hv : good v)
    (h : AnswersConnected setting node v selections calls entries) :
    (∀ s ∈ calls, s.Clean good) ∧ ∀ entry ∈ entries, entry.Clean good := by
  match h with
  | .nil => exact ⟨List.forall_mem_nil _, List.forall_mem_nil _⟩
  | .cons hlink hfilter hwanted hsort hproperties hrest =>
    obtain ⟨hclauses, hprojection⟩ := hwanted.clean hfree (hfree _ rfl)
    obtain ⟨hcalls, hentries⟩ := hrest.clean hfree hv
    have hnew {link : Link} {relatedId edgeId : Nat} : ∀ u ∈ [.relationship edgeId
        link.relationship.type, .node relatedId link.target.labels], good u :=
      (Link.LeadsFrom.named (.connected relatedId edgeId) hfree hv).2
    have hfilters := hfilter.clean hfree hnew fun filter next => filter.ofFilter_predicate _ _ next
    have hpage := clean_pageClause hnew (keysOn_of_connectionSortsBy hsort) none none
    have hproperties := clean_of_edgeEntry (hfree _ rfl) hproperties
    rw [List.forall_mem_cons, List.forall_mem_cons]
    refine ⟨⟨Statement.clean_subquery hv ?_ ?_, hcalls⟩, Expr.clean_var (hfree _ rfl), hentries⟩
    · exact (Link.LeadsFrom.named (.connected _ _) hfree hv).1
    · rw [List.forall_mem_append, List.forall_mem_append, List.forall_mem_append]
      refine ⟨⟨⟨hfilters, hclauses⟩, hpage⟩, ?_⟩
      refine clean_connectionResult (hfree _ rfl) (hfree _ rfl) (hfree _ rfl) (Expr.clean_map ?_)
      rw [List.forall_mem_append, List.forall_mem_singleton]
      exact ⟨hproperties, hprojection⟩
termination_by structural h
end

/-- The statement of a request is clean if its root and all variables without fixed names are good
ones. -/
theorem clean_of_root {schema : Schema} {name : String} {wanted : Request} {settings : Settings}
    (hfree : AllowsFree good) (hroot : ∀ node ∈ schema.node? name,
      good (.namedNode 0 settings.variablePrefix node.labels)) {result : Statement}
    (h : statement schema name wanted settings = .ok result) : result.Clean good := by
  obtain ⟨node, clauses, projection, hnode, hanswers, rfl⟩ := statement_eq_ok h
  have hthis := hroot node hnode
  obtain ⟨hclauses, hprojection⟩ := hanswers.clean hfree hthis
  have hreturned := Statement.clean_returning false
    (List.forall_mem_singleton.mpr (Item.clean_aliased hprojection hthis))
  refine Statement.clean_matching false (List.forall_mem_singleton.mpr hthis) ?_
  exact List.forall_mem_append.mpr ⟨hclauses, List.forall_mem_singleton.mpr hreturned⟩

/-- The statement of a request has plain names if the prefix of variables, which names its root, is
plain. -/
theorem clean_of_statement {schema : Schema} {name : String} {wanted : Request}
    {settings : Settings} (hroot : Identifier.isPlain settings.variablePrefix = true)
    {result : Statement} (h : statement schema name wanted settings = .ok result) :
    result.Clean Variable.Plain := by
  have hfree : AllowsFree Variable.Plain := by
    intro v hv name hname
    simp [hv] at hname
  exact clean_of_root hfree (fun _ _ _ hname => Option.some.inj hname ▸ hroot) h

end Read

/-- The names that a clean statement fixes are plain if those of good variables are. -/
theorem Statement.Clean.plain {s : Statement} (h : s.Clean Variable.Plain) :
    ∀ event ∈ s.events, event.Plain := by
  intro event hevent
  have hnamed := h.named event hevent
  cases event with
  | name v => exact hnamed
  | openChild base imports =>
    obtain ⟨rfl, himports⟩ := hnamed
    exact ⟨fun _ hname => (nomatch hname), himports⟩
  | _ => trivial

/-- A name that the settings allow is plain. -/
theorem Settings.isPlain_of_checkPrefix {field value : String}
    (h : checkPrefix field value = .ok ()) : Identifier.isPlain value = true := by
  unfold checkPrefix at h
  split at h
  · simp at h
  · simp_all

/-- The prefixes of valid settings have been checked. -/
theorem Settings.checks_of_validate {settings : Settings} (h : settings.validate = .ok ()) :
    checkPrefix "param_prefix" settings.paramPrefix = .ok () ∧
      checkPrefix "variable_prefix" settings.variablePrefix = .ok () ∧
      checkPrefix "value_prefix" settings.valuePrefix = .ok () := by
  unfold validate at h
  dsimp only at h
  split at h
  · obtain ⟨_, hparam, h⟩ := FilterReader.bind_eq_ok h
    obtain ⟨_, hvariable, hvalue⟩ := FilterReader.bind_eq_ok h
    exact ⟨hparam, hvariable, hvalue⟩
  · simp at h

/-- Valid settings have plain prefixes. -/
theorem Settings.plain_of_validate {settings : Settings} (h : settings.validate = .ok ()) :
    settings.toRenderOptions.Plain := by
  obtain ⟨hparam, hvariable, hvalue⟩ := checks_of_validate h
  exact ⟨isPlain_of_checkPrefix hparam, isPlain_of_checkPrefix hvariable,
    isPlain_of_checkPrefix hvalue⟩

namespace Read

/-- Names cannot break out of a query. For valid settings, the text of a query closes all its
quotations, and what stands outside of them has matching brackets and is made of the characters
that queries are written with. -/
theorem query_contained {schema : Schema} {name : String} {wanted : Request} {settings : Settings}
    (hsettings : settings.validate = .ok ()) {result : Query}
    (h : query schema name wanted settings = .ok result) :
    Text.endsQuoted false result.text.toList = false ∧
      Text.brackets [] (Text.unquoted false result.text.toList) = some [] ∧
      ∀ c ∈ Text.unquoted false result.text.toList, Text.isSyntactic c = true := by
  obtain ⟨s, hs, h⟩ := FilterReader.bind_eq_ok h
  have hoptions := Settings.plain_of_validate hsettings
  have hclean := clean_of_statement hoptions.ofVariable hs
  have hcontained := Statement.contained_of_build hoptions hclean.plain hclean.harmless
    (Plan.eq_ok_of_mapError h)
  exact ⟨hcontained.closed, hcontained.nested, List.all_eq_true.mp hcontained.syntactic⟩

/-- A schema whose names end quotations, open brackets and break lines. -/
def hostileSchema : Schema :=
  ⟨[⟨"Film", ["Film`) DETACH DELETE (n", "Ḟilm"],
    [⟨"title", some "ti\r\n`tle\x7b", .scalar ⟨.string, false, none⟩⟩,
      ⟨"cast", none, .relationship ⟨"`]->(", .undirected, "Film", false,
        [⟨"ro'le", some "`", .scalar ⟨.string, false, none⟩⟩]⟩⟩]⟩]⟩

/-- A request with aliases and values of the same kind. -/
def hostileRequest : Request where
  filter := some (.object [("title_NOT", .string "` OR true //")])
  sort := [⟨"title", .descending⟩]
  offset := none
  limit := some 3
  selection :=
    ⟨["title"],
      [⟨"cast", some "\n\x7d`", ⟨none, [], some 1, none, ⟨["title"], [], []⟩⟩⟩],
      [⟨"cast", some "``", some (.object [("edge", .object [("ro'le", .string "\"")])]),
        [⟨.edge, "ro'le", .ascending⟩], ["ro'le"], ⟨["title"], [], []⟩⟩]⟩

/-- The hostile request is accepted, and its text has all quotations and brackets closed. -/
theorem hostileRequest_contained :
    Settings.validate {} = .ok () ∧
      ∃ result, query hostileSchema "Film" hostileRequest {} = .ok result ∧
        Text.endsQuoted false result.text.toList = false ∧
        Text.brackets [] (Text.unquoted false result.text.toList) = some [] ∧
        ∀ c ∈ Text.unquoted false result.text.toList, Text.isSyntactic c = true := by
  have hsettings : Settings.validate {} = .ok () := by decide +kernel
  have hok : (query hostileSchema "Film" hostileRequest {}).isOk = true := by decide +kernel
  cases hquery : query hostileSchema "Film" hostileRequest {} with
  | error error => simp [hquery, Except.isOk, Except.toBool] at hok
  | ok result => exact ⟨hsettings, result, rfl, query_contained hsettings hquery⟩

end Read

end GraphRead
