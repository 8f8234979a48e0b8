import GraphRead.Filter.Predicate
import GraphRead.Proofs.Rendering.Parts
import Mathlib.Data.List.Basic

/-!
# The predicates of filters

Filters are compiled by several functions that call each other and take new
identities on the way. The predicates that come out are described here by one set
of rules, together with the variables that they read. What holds of all of them is
then proved by going through the rules.
-/

namespace GraphRead

/-- Filters in a row are compiled one by one. -/
theorem Filter.predicates_eq_mapM (target : Variable) (parts : List Filter) :
    Filter.predicates target parts = parts.mapM (Filter.predicate target) := by
  induction parts with
  | nil => rw [Filter.predicates, List.mapM_nil]
  | cons f rest ih => rw [Filter.predicates, List.mapM_cons, ih]

/-- Connection filters in a row are compiled one by one. -/
theorem ConnectionFilter.predicates_eq_mapM (related edge : Variable)
    (parts : List ConnectionFilter) :
    ConnectionFilter.predicates related edge parts =
      parts.mapM (ConnectionFilter.predicate related edge) := by
  induction parts with
  | nil => rw [ConnectionFilter.predicates, List.mapM_nil]
  | cons f rest ih => rw [ConnectionFilter.predicates, List.mapM_cons, ih]

/-- A pattern leads over a link from a node to new variables. -/
inductive Link.LeadsFrom (link : Link) (source : Variable) : Pattern → List Variable → Prop where
  | related (relatedId : Nat) :
    LeadsFrom link source (link.pattern source none (.node relatedId link.target.labels))
      [.node relatedId link.target.labels]
  | connected (relatedId edgeId : Nat) :
    LeadsFrom link source
      (link.pattern source (some (.relationship edgeId link.relationship.type))
        (.node relatedId link.target.labels))
      [.relationship edgeId link.relationship.type, .node relatedId link.target.labels]

/-- An item computes an aggregate over a connection under a new name. -/
def Item.OfAggregate (related edge : Variable) (item : Item) : Prop :=
  ∃ (aggregate : Aggregate) (resultId : Nat),
    item = .aliased (aggregate.expr related edge) (.value resultId)

/-- The expression of an aggregate makes no maps. -/
theorem Aggregate.forall_parts {good : Part → Prop}
    (hexpr : ∀ {e : Expr}, e.isMap = false → good (.expr e)) (related edge : Variable)
    (aggregate : Aggregate) : ∀ part ∈ (aggregate.expr related edge).parts, good part := by
  have hcons {e : Expr} {rest : List Part} (he : e.isMap = false)
      (hrest : ∀ part ∈ rest, good part) : ∀ part ∈ .expr e :: rest, good part :=
    List.forall_mem_cons.mpr ⟨hexpr he, hrest⟩
  cases aggregate with
  | count => exact hcons rfl (hcons rfl (List.forall_mem_nil _))
  | «over» side property function =>
    cases function with
    | average | sum | min | max => exact hcons rfl (hcons rfl (List.forall_mem_nil _))
    | shortestLength | longestLength | averageLength =>
      exact hcons rfl (hcons rfl (hcons rfl (List.forall_mem_nil _)))

/-- The predicates that filters give rise to, and the variables that they may read. -/
inductive Predicate.OfFilter : List Variable → Predicate → Prop where
  /-- A stored property compares to a parameter, or is tested for being there. -/
  | stored {vs : List Variable} {v : Variable} (hv : v ∈ vs) (property : String)
    (comparison : Comparison) (right : Option Param) :
    OfFilter vs (.compare comparison (.property v [property]) (right.map .param))
  /-- A parameter is among the values of a stored property. -/
  | included {vs : List Variable} {v : Variable} (hv : v ∈ vs) (property : String) (p : Param) :
    OfFilter vs (.binary .within (.param p) (.property v [property]))
  /-- The result of an aggregate compares to a parameter. -/
  | result {vs : List Variable} {v : Variable} (hv : v ∈ vs) (comparison : Comparison) (p : Param) :
    OfFilter vs (.binary comparison (.var v) (.param p))
  | all {vs : List Variable} {parts : List Predicate} (hsome : parts ≠ [])
    (hparts : ∀ p ∈ parts, OfFilter vs p) : OfFilter vs (.all parts)
  | any {vs : List Variable} {parts : List Predicate} (hsome : parts ≠ [])
    (hparts : ∀ p ∈ parts, OfFilter vs p) : OfFilter vs (.any parts)
  | not {vs : List Variable} {p : Predicate} (hp : OfFilter vs p) : OfFilter vs (.not p)
  | anyMatch {vs new : List Variable} {link : Link} {source : Variable} {pattern : Pattern}
    (hsource : source ∈ vs) (hpattern : link.LeadsFrom source pattern new) :
    OfFilter vs (.anyMatch pattern)
  | someMatch {vs new : List Variable} {link : Link} {source : Variable} {pattern : Pattern}
    {inner : Option Predicate} (hsource : source ∈ vs)
    (hpattern : link.LeadsFrom source pattern new) (hinner : ∀ p ∈ inner, OfFilter new p) :
    OfFilter vs (.someMatch pattern inner)
  /-- Exactly one match satisfies a condition. -/
  | oneMatch {vs new : List Variable} {link : Link} {source : Variable} {pattern : Pattern}
    {inner : Option Predicate} (hsource : source ∈ vs)
    (hpattern : link.LeadsFrom source pattern new) (hinner : ∀ p ∈ inner, OfFilter new p)
    (valueId : Nat) :
    OfFilter vs
      (.single (.value valueId) (.comprehend pattern inner (.literal (.ofNat 1))) none)
  /-- The aggregates of all matches satisfy a condition. -/
  | aggregates {vs : List Variable} {link : Link} {source : Variable} {relatedId edgeId : Nat}
    {items : List Item} {condition : Predicate} (hsource : source ∈ vs) (hsome : items ≠ [])
    (hitems : ∀ item ∈ items, item.OfAggregate (.node relatedId link.target.labels)
      (.relationship edgeId link.relationship.type))
    (hcondition : OfFilter (items.filterMap Item.introduced?) condition) :
    OfFilter vs
      (.exist (.matching false
        (link.pattern source (some (.relationship edgeId link.relationship.type))
          (.node relatedId link.target.labels))
        [.passing false items [.filtering [condition]]]))

/-- What holds of the parts that are there holds of their combination. -/
theorem Predicate.forall_mem_combine {holds : Predicate → Prop}
    {wrap : List Predicate → Predicate} {parts : List (Option Predicate)}
    (hwrap : ∀ first rest, (∀ p ∈ first :: rest, holds p) → holds (wrap (first :: rest)))
    (h : ∀ part ∈ parts, ∀ p ∈ part, holds p) : ∀ p ∈ combine wrap parts, holds p := by
  have hthere : ∀ p ∈ parts.filterMap id, holds p := by
    intro p hp
    obtain ⟨part, hpart, hsome⟩ := List.mem_filterMap.mp hp
    exact h part hpart p hsome
  unfold combine
  cases hlist : parts.filterMap id with
  | nil => simp
  | cons first rest =>
    rw [hlist] at hthere
    cases rest with
    | nil =>
      rintro p ⟨⟩
      exact hthere first (List.mem_singleton_self first)
    | cons second rest =>
      rintro p ⟨⟩
      exact hwrap first (second :: rest) hthere

namespace Predicate.OfFilter

variable {vs new : List Variable} {link : Link} {source : Variable} {pattern : Pattern}

/-- More variables may be read. -/
theorem mono {p : Predicate} (h : OfFilter vs p) {more : List Variable} (hsub : vs ⊆ more) :
    OfFilter more p := by
  induction h generalizing more with
  | stored hv property comparison right => exact .stored (hsub hv) property comparison right
  | included hv property p => exact .included (hsub hv) property p
  | result hv comparison p => exact .result (hsub hv) comparison p
  | all hsome _ ih => exact .all hsome fun p hp => ih p hp hsub
  | any hsome _ ih => exact .any hsome fun p hp => ih p hp hsub
  | not _ ih => exact .not (ih hsub)
  | anyMatch hsource hpattern => exact .anyMatch (hsub hsource) hpattern
  | someMatch hsource hpattern hinner => exact .someMatch (hsub hsource) hpattern hinner
  | oneMatch hsource hpattern hinner valueId =>
    exact .oneMatch (hsub hsource) hpattern hinner valueId
  | aggregates hsource hsome hitems hcondition =>
    exact .aggregates (hsub hsource) hsome hitems hcondition

/-- A conjunction of predicates of filters is one, however many there are. -/
theorem allOf {parts : List (Option Predicate)} (h : ∀ part ∈ parts, ∀ p ∈ part, OfFilter vs p) :
    ∀ p ∈ Predicate.allOf parts, OfFilter vs p :=
  forall_mem_combine (fun _ _ hparts => .all (List.cons_ne_nil _ _) hparts) h

/-- A disjunction of predicates of filters is one, however many there are. -/
theorem anyOf {parts : List (Option Predicate)} (h : ∀ part ∈ parts, ∀ p ∈ part, OfFilter vs p) :
    ∀ p ∈ Predicate.anyOf parts, OfFilter vs p :=
  forall_mem_combine (fun _ _ hparts => .any (List.cons_ne_nil _ _) hparts) h

/-- The negation of a predicate of a filter is one. -/
theorem negatedIf (negated : Bool) {part : Option Predicate}
    (h : ∀ p ∈ part, OfFilter vs p) :
    ∀ p ∈ (if negated then part.map .not else part), OfFilter vs p := by
  cases negated with
  | false => exact h
  | true =>
    intro p hp
    obtain ⟨inner, hinner, rfl⟩ := Option.map_eq_some_iff.mp hp
    exact .not (h inner hinner)

/-- Comparing a property with a parameter is a predicate of a filter. -/
theorem ofOperator {v : Variable} (hv : v ∈ vs) (property : String) (p : Param)
    (operator : Option FilterOperator) :
    OfFilter vs (Predicate.ofOperator (.property v [property]) (.param p) operator) := by
  have hstored (comparison : Comparison) :
      OfFilter vs (.binary comparison (.property v [property]) (.param p)) :=
    .stored hv property comparison (some p)
  cases operator with
  | none => exact hstored .equal
  | some operator =>
    cases operator with
    | differs | notOneOf | notContains | notStartsWith | notEndsWith => exact .not (hstored _)
    | includes => exact .included hv property p
    | notIncludes => exact .not (.included hv property p)
    | _ => exact hstored _

/-- A test on a property is a predicate of a filter. -/
theorem ofProperty {v : Variable} (hv : v ∈ vs) (property : String)
    (operator : Option FilterOperator) (value : Json) (next : Nat) :
    OfFilter vs ((Predicate.ofProperty v property operator value).run next).1 := by
  unfold Predicate.ofProperty
  cases value.isNull with
  | true =>
    cases operator.any FilterOperator.isNegated with
    | true => exact .stored hv property .isNotNull none
    | false => exact .stored hv property .isNull none
  | false => exact .ofOperator hv property ⟨next, value⟩ operator

/-- A quantifier over nothing further is a predicate of a filter. -/
theorem absence (hsource : source ∈ vs) (hpattern : link.LeadsFrom source pattern new)
    (quantifier : Quantifier) : OfFilter vs (Predicate.absence pattern quantifier) := by
  cases quantifier with
  | no => exact .anyMatch hsource hpattern
  | _ => exact .not (.anyMatch hsource hpattern)

/-- A quantified pattern is a predicate of a filter, if its condition reads only what the pattern
introduces. -/
theorem quantified (hsource : source ∈ vs) (hpattern : link.LeadsFrom source pattern new)
    {inner : Option Predicate} (hinner : ∀ p ∈ inner, OfFilter new p) (quantifier : Quantifier)
    (next : Nat) : OfFilter vs ((Predicate.quantified pattern inner quantifier).run next).1 := by
  cases quantifier with
  | any => exact .someMatch hsource hpattern hinner
  | no => exact .not (.someMatch hsource hpattern hinner)
  | one => exact .oneMatch hsource hpattern hinner next
  | every =>
    cases inner with
    | none => exact .anyMatch hsource hpattern
    | some inner =>
      have hdenied : ∀ p ∈ some (Predicate.not inner), OfFilter new p := by
        rintro p ⟨⟩
        exact .not (hinner inner rfl)
      refine .all (List.cons_ne_nil _ _) fun p hp => ?_
      rcases List.mem_pair.mp hp with rfl | rfl
      · exact .anyMatch hsource hpattern
      · exact .not (.someMatch hsource hpattern hdenied)

/-- The parts of the predicate of a filter are such predicates again, and expressions that make no
maps. -/
theorem forall_parts {good : Part → Prop}
    (hpredicate : ∀ {vs p}, OfFilter vs p → good (.predicate p))
    (hexpr : ∀ {e : Expr}, e.isMap = false → good (.expr e)) {p : Predicate} (h : OfFilter vs p) :
    ∀ part ∈ p.parts, good part := by
  -- The condition of a pattern stands behind it, or in a comprehension.
  have hinside {inner : Option Predicate} (hinner : ∀ p ∈ inner, ∀ part ∈ p.parts, good part) :
      (∀ part ∈ Predicate.partsOptional inner, good part) ∧
        ∀ part ∈ Predicate.partsAll inner.toList, good part := by
    cases inner with
    | none => exact ⟨List.forall_mem_nil _, List.forall_mem_nil _⟩
    | some p =>
      exact ⟨hinner p rfl, List.forall_mem_append.mpr ⟨hinner p rfl, List.forall_mem_nil _⟩⟩
  have hleaf {e : Expr} (he : e.isMap = false) : ∀ part ∈ [Part.expr e], good part :=
    List.forall_mem_singleton.mpr (hexpr he)
  induction h with
  | stored hv property comparison right =>
    refine List.forall_mem_cons.mpr ⟨hpredicate (.stored hv property comparison right), ?_⟩
    cases right with
    | none => exact hleaf rfl
    | some p => exact List.forall_mem_append.mpr ⟨hleaf rfl, hleaf rfl⟩
  | included hv property p =>
    exact List.forall_mem_cons.mpr ⟨hpredicate (.included hv property p),
      List.forall_mem_append.mpr ⟨hleaf rfl, hleaf rfl⟩⟩
  | result hv comparison p =>
    exact List.forall_mem_cons.mpr ⟨hpredicate (.result hv comparison p),
      List.forall_mem_append.mpr ⟨hleaf rfl, hleaf rfl⟩⟩
  | all hsome hparts ih =>
    refine List.forall_mem_cons.mpr ⟨hpredicate (.all hsome hparts), fun part hpart => ?_⟩
    obtain ⟨p, hp, hpart⟩ := Predicate.mem_partsAll.mp hpart
    exact ih p hp part hpart
  | any hsome hparts ih =>
    refine List.forall_mem_cons.mpr ⟨hpredicate (.any hsome hparts), fun part hpart => ?_⟩
    obtain ⟨p, hp, hpart⟩ := Predicate.mem_partsAll.mp hpart
    exact ih p hp part hpart
  | not hp ih => exact List.forall_mem_cons.mpr ⟨hpredicate (.not hp), ih⟩
  | anyMatch hsource hpattern =>
    exact List.forall_mem_cons.mpr ⟨hpredicate (.anyMatch hsource hpattern), List.forall_mem_nil _⟩
  | someMatch hsource hpattern hinner ih =>
    exact List.forall_mem_cons.mpr ⟨hpredicate (.someMatch hsource hpattern hinner),
      List.forall_mem_append.mpr ⟨(hinside ih).2, List.forall_mem_nil _⟩⟩
  | oneMatch hsource hpattern hinner valueId ih =>
    refine List.forall_mem_cons.mpr ⟨hpredicate (.oneMatch hsource hpattern hinner valueId),
      List.forall_mem_append.mpr ⟨List.forall_mem_cons.mpr ⟨hexpr rfl, ?_⟩, List.forall_mem_nil _⟩⟩
    exact List.forall_mem_append.mpr ⟨(hinside ih).1, hleaf rfl⟩
  | @aggregates _ _ _ _ _ items _ hsource hsome hitems hcondition ih =>
    have hcomputed : ∀ part ∈ Item.partsAll items, good part := by
      intro part hpart
      obtain ⟨item, hitem, hpart⟩ := Item.mem_partsAll.mp hpart
      obtain ⟨aggregate, resultId, rfl⟩ := hitems item hitem
      exact aggregate.forall_parts hexpr _ _ part hpart
    have hfiltered := (hinside fun _ hp => Option.some.inj hp ▸ ih).2
    refine List.forall_mem_cons.mpr
      ⟨hpredicate (.aggregates hsource hsome hitems hcondition), List.forall_mem_append.mpr
        ⟨List.forall_mem_append.mpr ⟨hcomputed, ?_⟩, List.forall_mem_nil _⟩⟩
    exact List.forall_mem_append.mpr ⟨hfiltered, List.forall_mem_nil _⟩

end Predicate.OfFilter

open Predicate (OfFilter)

/-- Aggregates under new names, and conditions on their results. There are aggregates if there are
conditions. -/
structure AggregateFilter.Computes (related edge : Variable) (items : List Item)
    (conditions : List (Option Predicate)) : Prop where
  computed : ∀ item ∈ items, item.OfAggregate related edge
  tested : ∀ part ∈ conditions, ∀ p ∈ part,
    items ≠ [] ∧ OfFilter (items.filterMap Item.introduced?) p

namespace AggregateFilter.Computes

variable {related edge : Variable} {items : List Item} {conditions : List (Option Predicate)}

/-- Conditions on results can be joined. -/
theorem join {wrap : List Predicate → Predicate} (h : Computes related edge items conditions)
    (hwrap : ∀ {vs parts}, parts ≠ [] → (∀ p ∈ parts, OfFilter vs p) → OfFilter vs (wrap parts)) :
    Computes related edge items [Predicate.combine wrap conditions] where
  computed := h.computed
  tested := by
    intro part hpart
    obtain rfl := List.mem_singleton.mp hpart
    refine Predicate.forall_mem_combine (fun first rest hparts => ?_) h.tested
    exact ⟨(hparts first List.mem_cons_self).1,
      hwrap (List.cons_ne_nil _ _) fun p hp => (hparts p hp).2⟩

/-- Aggregates and conditions can be put together. -/
theorem append {others : List Item} {more : List (Option Predicate)}
    (h : Computes related edge items conditions) (h' : Computes related edge others more) :
    Computes related edge (items ++ others) (conditions ++ more) where
  computed := by
    intro item hitem
    exact (List.mem_append.mp hitem).elim (h.computed item) (h'.computed item)
  tested := by
    intro part hpart p hp
    rw [List.filterMap_append]
    rcases List.mem_append.mp hpart with hpart | hpart
    · obtain ⟨hsome, hp⟩ := h.tested part hpart p hp
      exact ⟨List.append_ne_nil_of_left_ne_nil hsome _, hp.mono (List.subset_append_left ..)⟩
    · obtain ⟨hsome, hp⟩ := h'.tested part hpart p hp
      exact ⟨List.append_ne_nil_of_right_ne_nil _ hsome, hp.mono (List.subset_append_right ..)⟩

end AggregateFilter.Computes

mutual
/-- An aggregate filter computes aggregates and tests their results. -/
theorem AggregateFilter.computes (related edge : Variable) (f : AggregateFilter) (next : Nat) :
    Computes related edge ((f.predicate related edge).run next).1.1
        [((f.predicate related edge).run next).1.2] := by
  cases f with
  | all parts =>
    rw [AggregateFilter.predicate]
    exact (AggregateFilter.computes_all related edge parts next).join .all
  | any parts =>
    rw [AggregateFilter.predicate]
    exact (AggregateFilter.computes_all related edge parts next).join .any
  | test aggregate comparison value =>
    rw [AggregateFilter.predicate]
    constructor
    · intro item hitem
      exact ⟨aggregate, next, List.mem_singleton.mp hitem⟩
    · intro part hpart p hp
      obtain rfl := List.mem_singleton.mp hpart
      obtain rfl := Option.some.inj hp
      exact ⟨List.cons_ne_nil _ _, .result List.mem_cons_self comparison ⟨next + 1, value⟩⟩
termination_by structural f

/-- Aggregate filters in a row compute aggregates and state conditions on them. -/
theorem AggregateFilter.computes_all (related edge : Variable) (fs : List AggregateFilter)
    (next : Nat) :
    Computes related edge ((AggregateFilter.predicates related edge fs).run next).1.1
        ((AggregateFilter.predicates related edge fs).run next).1.2 := by
  cases fs with
  | nil => exact ⟨by rintro item ⟨⟩, by rintro part ⟨⟩⟩
  | cons f rest =>
    rw [AggregateFilter.predicates]
    exact (AggregateFilter.computes related edge f next).append
      (AggregateFilter.computes_all related edge rest _)
termination_by structural fs
end

/-- An aggregate filter gives rise to one test of all its aggregates. -/
theorem AggregateFilter.ofFilter_subquery (link : Link) {vs : List Variable} {source : Variable}
    (hsource : source ∈ vs) (f : AggregateFilter) (next : Nat) :
    ∀ p ∈ ((f.subquery link source).run next).1, OfFilter vs p := by
  have hcomputes := f.computes (.node next link.target.labels)
    (.relationship (next + 1) link.relationship.type) (next + 2)
  intro p hp
  obtain ⟨condition, hcondition, rfl⟩ := Option.map_eq_some_iff.mp hp
  obtain ⟨hsome, htests⟩ := hcomputes.tested _ List.mem_cons_self condition hcondition
  exact .aggregates hsource hsome hcomputes.computed htests

mutual
/-- The predicate of a filter reads the variable that it is on. -/
theorem Filter.ofFilter_predicate (target : Variable) (f : Filter) (next : Nat) :
    ∀ p ∈ ((f.predicate target).run next).1, OfFilter [target] p := by
  match f with
  | .all parts =>
    rw [Filter.predicate]
    exact .allOf (Filter.ofFilter_predicates target parts next)
  | .any parts =>
    rw [Filter.predicate]
    exact .anyOf (Filter.ofFilter_predicates target parts next)
  | .property property operator value =>
    rw [Filter.predicate]
    rintro p ⟨⟩
    exact .ofProperty List.mem_cons_self property operator value next
  | .related link quantifier none =>
    rw [Filter.predicate]
    rintro p ⟨⟩
    exact .absence List.mem_cons_self (.related next : link.LeadsFrom target _ _) quantifier
  | .related link quantifier (some inner) =>
    rw [Filter.predicate]
    rintro p ⟨⟩
    exact .quantified List.mem_cons_self (.related next)
      (Filter.ofFilter_predicate (.node next link.target.labels) inner (next + 1)) quantifier _
  | .connected link quantifier none =>
    rw [Filter.predicate]
    rintro p ⟨⟩
    exact .absence List.mem_cons_self (.connected next (next + 1) : link.LeadsFrom target _ _)
      quantifier
  | .connected link quantifier (some inner) =>
    rw [Filter.predicate]
    rintro p ⟨⟩
    exact .quantified List.mem_cons_self (.connected next (next + 1))
      (ConnectionFilter.ofFilter_predicate (.node next link.target.labels)
        (.relationship (next + 1) link.relationship.type) inner (next + 2)) quantifier _
  | .aggregated link inner =>
    rw [Filter.predicate]
    exact inner.ofFilter_subquery link List.mem_cons_self next
termination_by structural f

/-- Filters in a row give predicates that read their target only. -/
theorem Filter.ofFilter_predicates (target : Variable) (fs : List Filter) (next : Nat) :
    ∀ part ∈ ((Filter.predicates target fs).run next).1, ∀ p ∈ part, OfFilter [target] p := by
  cases fs with
  | nil => rintro part ⟨⟩
  | cons f rest =>
    rw [Filter.predicates]
    exact List.forall_mem_cons.mpr ⟨Filter.ofFilter_predicate target f next,
      Filter.ofFilter_predicates target rest _⟩
termination_by structural fs

/-- The predicate of a filter on a connection reads the two variables that it is on. -/
theorem ConnectionFilter.ofFilter_predicate (related edge : Variable) (f : ConnectionFilter)
    (next : Nat) : ∀ p ∈ ((f.predicate related edge).run next).1, OfFilter [edge, related] p := by
  cases f with
  | all parts =>
    rw [ConnectionFilter.predicate]
    exact .allOf (ConnectionFilter.ofFilter_predicates related edge parts next)
  | any parts =>
    rw [ConnectionFilter.predicate]
    exact .anyOf (ConnectionFilter.ofFilter_predicates related edge parts next)
  | node negated filter =>
    rw [ConnectionFilter.predicate]
    exact .negatedIf negated fun p hp =>
      (Filter.ofFilter_predicate related filter next p hp).mono (by simp)
  | edge negated filter =>
    rw [ConnectionFilter.predicate]
    exact .negatedIf negated fun p hp =>
      (Filter.ofFilter_predicate edge filter next p hp).mono (by simp)
termination_by structural f

/-- Connection filters in a row give predicates that read their two variables only. -/
theorem ConnectionFilter.ofFilter_predicates (related edge : Variable)
    (fs : List ConnectionFilter) (next : Nat) :
    ∀ part ∈ ((ConnectionFilter.predicates related edge fs).run next).1, ∀ p ∈ part,
        OfFilter [edge, related] p := by
  cases fs with
  | nil => rintro part ⟨⟩
  | cons f rest =>
    rw [ConnectionFilter.predicates]
    exact List.forall_mem_cons.mpr ⟨ConnectionFilter.ofFilter_predicate related edge f next,
      ConnectionFilter.ofFilter_predicates related edge rest _⟩
termination_by structural fs
end

end GraphRead
