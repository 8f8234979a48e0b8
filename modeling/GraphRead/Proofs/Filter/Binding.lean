import GraphRead.Filter.Predicate
import GraphRead.Proofs.Filter.Leaves
import GraphRead.Proofs.Rendering.Binding

/-!
# What predicates of filters bind

The predicate of a filter binds the values of the filter, each once and in order,
whatever quantifiers stand around them. The parameters have the identities that
were next when the predicate was made.
-/

namespace GraphRead

open Event

/-- The events of the pattern of a link bind nothing. -/
@[simp]
theorem Link.bindings_pattern (link : Link) (source : Variable) (edge : Option Variable)
    (related : Variable) : bindings (link.pattern source edge related).events = [] := by
  cases edge <;> rfl

namespace Predicate

variable {pattern : Pattern}

/-- The events of predicates in a row are those of each in order. -/
theorem eventsAll_eq_flatMap (parts : List Predicate) :
    eventsAll parts = parts.flatMap events := by
  induction parts with
  | nil => rfl
  | cons p rest ih => simp [eventsAll, ih]

/-- A combination has the events of the parts that are there. -/
theorem events_combine {wrap : List Predicate → Predicate}
    (hwrap : ∀ parts, (wrap parts).events = eventsAll parts) (parts : List (Option Predicate)) :
    eventsOptional (combine wrap parts) = parts.flatMap eventsOptional := by
  have hparts : (parts.filterMap id).flatMap events = parts.flatMap eventsOptional := by
    induction parts with
    | nil => rfl
    | cons part rest ih =>
      cases part with
      | none => exact ih
      | some p => exact congrArg (p.events ++ ·) ih
  rw [← hparts]
  unfold combine
  split
  next heq => rw [heq]; rfl
  next part heq => rw [heq, List.flatMap_singleton]; rfl
  next => rw [eventsOptional, hwrap, eventsAll_eq_flatMap]

/-- A conjunction has the events of its parts, whether or not it is needed to join them. -/
theorem events_allOf (parts : List (Option Predicate)) :
    eventsOptional (allOf parts) = parts.flatMap eventsOptional :=
  events_combine (fun _ => by rw [events]) parts

/-- A disjunction has the events of its parts, whether or not it is needed to join them. -/
theorem events_anyOf (parts : List (Option Predicate)) :
    eventsOptional (anyOf parts) = parts.flatMap eventsOptional :=
  events_combine (fun _ => by rw [events]) parts

/-- A negation has the events of what it denies. -/
theorem events_negatedIf (negated : Bool) (p : Option Predicate) :
    eventsOptional (if negated then p.map .not else p) = eventsOptional p := by
  cases negated <;> cases p <;> simp [eventsOptional, events]

/-- A test for any match binds nothing, if its pattern binds nothing. -/
theorem bindings_anyMatch (hpattern : bindings pattern.events = []) :
    bindings (anyMatch pattern).events = [] := by
  simp [anyMatch, events, Statement.events, Statement.eventsAll, hpattern]

/-- A test for some match binds what its condition binds. -/
theorem bindings_someMatch (hpattern : bindings pattern.events = []) (inner : Option Predicate) :
    bindings (someMatch pattern inner).events = bindings (eventsOptional inner) := by
  cases inner <;>
    simp [someMatch, events, Statement.events, Statement.eventsAll, eventsAll, eventsOptional,
      hpattern]

/-- A quantifier over nothing further binds nothing. -/
theorem bindings_absence (hpattern : bindings pattern.events = []) (quantifier : Quantifier) :
    bindings (absence pattern quantifier).events = [] := by
  cases quantifier <;> simp [absence, events, bindings_anyMatch hpattern]

/-- A quantifier binds what the condition under it binds, once. -/
theorem binds_quantified (hpattern : bindings pattern.events = []) {inner : Option Predicate}
    {quantifier : Quantifier} {lo next : Nat} {values : List Json}
    (h : Binds IsParam lo next (eventsOptional inner) values) :
    Binds IsParam lo ((quantified pattern inner quantifier).run next).2
      ((quantified pattern inner quantifier).run next).1.events values := by
  cases quantifier with
  | any => exact h.congr (bindings_someMatch hpattern inner)
  | no =>
    refine h.congr ?_
    show bindings (Predicate.not (someMatch pattern inner)).events = _
    rw [events, bindings_someMatch hpattern]
  | every =>
    cases inner with
    | none => exact h.congr (bindings_anyMatch hpattern)
    | some inner =>
      refine h.congr ?_
      show bindings (Predicate.all [anyMatch pattern,
        .not (someMatch pattern (some (.not inner)))]).events = _
      simp [events, eventsAll, bindings_anyMatch hpattern, bindings_someMatch hpattern,
        eventsOptional]
  | one =>
    refine (h.weaken (Nat.le_refl lo) (Nat.le_succ next)).congr ?_
    show bindings (Predicate.single (.value next)
      (.comprehend pattern inner (.literal (.ofNat 1))) none).events = _
    simp [events, Expr.events, eventsOptional, hpattern]

/-- A comparison binds its parameter and nothing else. -/
theorem bindings_ofOperator (target : Variable) (property : String) (p : Param)
    (operator : Option FilterOperator) :
    bindings (ofOperator (.property target [property]) (.param p) operator).events =
      [.param p] := by
  cases operator with
  | none => rfl
  | some operator => cases operator <;> rfl

/-- A test of a property binds its value unless that is null. -/
theorem binds_ofProperty (target : Variable) (property : String)
    (operator : Option FilterOperator) (value : Json) (next : Nat) :
    Binds IsParam next ((ofProperty target property operator value).run next).2
      ((ofProperty target property operator value).run next).1.events
      (if value.isNull then [] else [value]) := by
  unfold ofProperty
  cases hnull : value.isNull with
  | true =>
    cases hnegated : operator.any FilterOperator.isNegated with
    | true => exact .silent rfl (Nat.le_refl next)
    | false => exact .silent rfl (Nat.le_refl next)
  | false => exact (Binds.param value).congr (bindings_ofOperator ..)

end Predicate

open Predicate (eventsOptional)

/-- The events of items in a row are those of the first and then those of the others. -/
theorem Item.eventsAll_append (clause : ReadingClause) (first second : List Item) :
    Item.eventsAll clause (first ++ second) =
      Item.eventsAll clause first ++ Item.eventsAll clause second := by
  induction first with
  | nil => rfl
  | cons item rest ih => simp [Item.eventsAll, ih]

/-- The items of an aggregate bind nothing. -/
theorem Aggregate.bindings_item (aggregate : Aggregate) (related edge result : Variable) :
    bindings ((Item.aliased (aggregate.expr related edge) result).events .passing) = [] := by
  obtain _ | ⟨side, property, function⟩ := aggregate
  · rfl
  · cases side <;> cases function <;> rfl

mutual
/-- The condition of an aggregate filter binds the values of the filter, and the aggregates beside
it bind nothing. -/
theorem AggregateFilter.binds_predicate (related edge : Variable) (f : AggregateFilter)
    (next : Nat) :
    Binds IsParam next ((f.predicate related edge).run next).2
          (eventsOptional ((f.predicate related edge).run next).1.2) f.values ∧
        bindings (Item.eventsAll .passing ((f.predicate related edge).run next).1.1) = [] := by
  cases f with
  | all parts =>
    obtain ⟨hbinds, hitems⟩ := AggregateFilter.binds_predicates related edge parts next
    rw [AggregateFilter.predicate, AggregateFilter.values]
    exact ⟨hbinds.congr (congrArg bindings (Predicate.events_allOf _)), hitems⟩
  | any parts =>
    obtain ⟨hbinds, hitems⟩ := AggregateFilter.binds_predicates related edge parts next
    rw [AggregateFilter.predicate, AggregateFilter.values]
    exact ⟨hbinds.congr (congrArg bindings (Predicate.events_anyOf _)), hitems⟩
  | test aggregate comparison value =>
    rw [AggregateFilter.predicate, AggregateFilter.values]
    constructor
    · show Binds IsParam next (next + 2) (.name (.value next) ::
        if comparison.isUnary then [] else [.param ⟨next + 1, value⟩]) _
      cases comparison.isUnary with
      | true => exact Binds.silent (by simp) (Nat.le_add_right next 2)
      | false => exact ((Binds.param value).weaken (Nat.le_succ next) (Nat.le_refl _)).congr rfl
    · show bindings (Item.events .passing _ ++ []) = []
      rw [List.append_nil, Aggregate.bindings_item]
termination_by structural f

/-- The conditions of several aggregate filters bind the values of the filters. -/
theorem AggregateFilter.binds_predicates (related edge : Variable) (fs : List AggregateFilter)
    (next : Nat) :
    Binds IsParam next ((AggregateFilter.predicates related edge fs).run next).2
          (((AggregateFilter.predicates related edge fs).run next).1.2.flatMap eventsOptional)
          (AggregateFilter.valuesOfAll fs) ∧
        bindings (Item.eventsAll .passing
          ((AggregateFilter.predicates related edge fs).run next).1.1) = [] := by
  cases fs with
  | nil => exact ⟨.silent rfl (Nat.le_refl next), rfl⟩
  | cons f rest =>
    obtain ⟨hfirst, hitem⟩ := AggregateFilter.binds_predicate related edge f next
    obtain ⟨hrest, hitems⟩ := AggregateFilter.binds_predicates related edge rest
      ((f.predicate related edge).run next).2
    rw [AggregateFilter.predicates, AggregateFilter.valuesOfAll]
    refine ⟨hfirst.append hrest, ?_⟩
    show bindings (Item.eventsAll .passing (_ ++ _)) = []
    rw [Item.eventsAll_append, bindings_append]
    exact List.append_eq_nil_iff.mpr ⟨hitem, hitems⟩
termination_by structural fs
end

/-- The subquery of an aggregate filter binds the values of the filter. -/
theorem AggregateFilter.binds_subquery (link : Link) (source : Variable) (f : AggregateFilter)
    (next : Nat) :
    Binds IsParam next ((f.subquery link source).run next).2
      (eventsOptional ((f.subquery link source).run next).1) f.values := by
  let related := Variable.node next link.target.labels
  let edge := Variable.relationship (next + 1) link.relationship.type
  obtain ⟨hbinds, hitems⟩ := f.binds_predicate related edge (next + 2)
  refine (hbinds.weaken (Nat.le_add_right next 2) (Nat.le_refl _)).congr ?_
  show bindings (eventsOptional (((f.predicate related edge).run (next + 2)).1.2.map
    fun condition => .exist (.matching false (link.pattern source (some edge) related)
      [.passing false ((f.predicate related edge).run (next + 2)).1.1
        [.filtering [condition]]]))) = _
  generalize ((f.predicate related edge).run (next + 2)).1 = result at hitems ⊢
  obtain ⟨items, condition⟩ := result
  cases condition with
  | none => rfl
  | some condition =>
    have hprojection : bindings (projectionEvents .passing items
        (Item.eventsAll .passing items)) = [] := by
      unfold projectionEvents
      split
      · rfl
      · exact hitems
    simp [eventsOptional, Predicate.events, Statement.events, Statement.eventsAll,
      Predicate.eventsAll, hprojection]

mutual
/-- The predicate of a filter binds the values of the filter. -/
theorem Filter.binds_predicate (target : Variable) (f : Filter) (next : Nat) :
    Binds IsParam next ((f.predicate target).run next).2
      (eventsOptional ((f.predicate target).run next).1) f.values := by
  match f with
  | .all parts =>
    rw [Filter.predicate, Filter.values]
    refine (Filter.binds_predicates target parts next).congr ?_
    exact congrArg bindings (Predicate.events_allOf _)
  | .any parts =>
    rw [Filter.predicate, Filter.values]
    refine (Filter.binds_predicates target parts next).congr ?_
    exact congrArg bindings (Predicate.events_anyOf _)
  | .property property operator value =>
    rw [Filter.predicate, Filter.values]
    exact Predicate.binds_ofProperty target property operator value next
  | .related link quantifier none =>
    rw [Filter.predicate, Filter.values]
    exact .silent (Predicate.bindings_absence (link.bindings_pattern ..) quantifier)
      (Nat.le_succ next)
  | .related link quantifier (some inner) =>
    rw [Filter.predicate, Filter.values]
    -- The new node takes the first identity, and the parameters those after it.
    have hinner := Filter.binds_predicate (.node next link.target.labels) inner (next + 1)
    exact Predicate.binds_quantified (link.bindings_pattern ..)
      (hinner.weaken (Nat.le_succ next) (Nat.le_refl _))
  | .connected link quantifier none =>
    rw [Filter.predicate, Filter.values]
    exact .silent (Predicate.bindings_absence (link.bindings_pattern ..) quantifier)
      (Nat.le_add_right next 2)
  | .connected link quantifier (some inner) =>
    rw [Filter.predicate, Filter.values]
    have hinner := ConnectionFilter.binds_predicate (.node next link.target.labels)
      (.relationship (next + 1) link.relationship.type) inner (next + 2)
    exact Predicate.binds_quantified (link.bindings_pattern ..)
      (hinner.weaken (Nat.le_add_right next 2) (Nat.le_refl _))
  | .aggregated link inner =>
    rw [Filter.predicate, Filter.values]
    exact inner.binds_subquery link target next
termination_by structural f

/-- The predicates of several filters bind the values of the filters. -/
theorem Filter.binds_predicates (target : Variable) (fs : List Filter) (next : Nat) :
    Binds IsParam next ((Filter.predicates target fs).run next).2
      (((Filter.predicates target fs).run next).1.flatMap eventsOptional)
      (Filter.valuesOfAll fs) := by
  cases fs with
  | nil => exact .silent rfl (Nat.le_refl next)
  | cons f rest =>
    rw [Filter.predicates, Filter.valuesOfAll]
    exact (Filter.binds_predicate target f next).append
      (Filter.binds_predicates target rest ((f.predicate target).run next).2)
termination_by structural fs

/-- The predicate of a filter on a connection binds the values of the filter. -/
theorem ConnectionFilter.binds_predicate (related edge : Variable) (f : ConnectionFilter)
    (next : Nat) :
    Binds IsParam next ((f.predicate related edge).run next).2
        (eventsOptional ((f.predicate related edge).run next).1) f.values := by
  cases f with
  | all parts =>
    rw [ConnectionFilter.predicate, ConnectionFilter.values]
    refine (ConnectionFilter.binds_predicates related edge parts next).congr ?_
    exact congrArg bindings (Predicate.events_allOf _)
  | any parts =>
    rw [ConnectionFilter.predicate, ConnectionFilter.values]
    refine (ConnectionFilter.binds_predicates related edge parts next).congr ?_
    exact congrArg bindings (Predicate.events_anyOf _)
  | node negated filter =>
    rw [ConnectionFilter.predicate, ConnectionFilter.values]
    exact (Filter.binds_predicate related filter next).congr
      (congrArg bindings (Predicate.events_negatedIf negated _))
  | edge negated filter =>
    rw [ConnectionFilter.predicate, ConnectionFilter.values]
    exact (Filter.binds_predicate edge filter next).congr
      (congrArg bindings (Predicate.events_negatedIf negated _))
termination_by structural f

/-- The predicates of several filters on a connection bind the values of the filters. -/
theorem ConnectionFilter.binds_predicates (related edge : Variable) (fs : List ConnectionFilter)
    (next : Nat) :
    Binds IsParam next ((ConnectionFilter.predicates related edge fs).run next).2
        (((ConnectionFilter.predicates related edge fs).run next).1.flatMap eventsOptional)
        (ConnectionFilter.valuesOfAll fs) := by
  cases fs with
  | nil => exact .silent rfl (Nat.le_refl next)
  | cons f rest =>
    rw [ConnectionFilter.predicates, ConnectionFilter.valuesOfAll]
    exact (ConnectionFilter.binds_predicate related edge f next).append
      (ConnectionFilter.binds_predicates related edge rest
        ((f.predicate related edge).run next).2)
termination_by structural fs
end

end GraphRead
