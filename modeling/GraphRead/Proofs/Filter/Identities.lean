import GraphRead.Proofs.Read.Identities

/-!
# Identities in the predicates of filters

A filter that is compiled twice takes other identities the second time. The two
predicates are the same up to these, also if the filter is on another variable the
second time.
-/

namespace GraphRead

open Plan (ParallelFresh)

/-- Two variables are the same up to identities. -/
def SameVariable (g : Nat → Nat) (v v' : Variable) : Prop := v.rename (.both g) = v'

/-- A variable whose identity is not moved stays the same. -/
theorem sameVariable_self {g : Nat → Nat} {v : Variable} (h : g v.identity = v.identity) :
    SameVariable g v v := by
  show { v with identity := g v.identity } = v
  rw [h]

/-- Two predicates are the same up to identities. -/
def SamePredicate (g : Nat → Nat) (p p' : Predicate) : Prop := p.rename (.both g) = p'

/-- Two predicates that may be missing are the same up to identities. -/
def SameCondition (g : Nat → Nat) (p p' : Option Predicate) : Prop :=
  Predicate.renameOptional (.both g) p = p'

/-- Two lists of predicates that may be missing are the same up to identities. -/
def SameConditions (g : Nat → Nat) (ps ps' : List (Option Predicate)) : Prop :=
  ps.map (Predicate.renameOptional (.both g)) = ps'

/-- Aggregates with conditions on them are the same up to identities. -/
def SameAggregates {α : Type} (same : (Nat → Nat) → α → α → Prop) (g : Nat → Nat)
    (result result' : List Item × α) : Prop :=
  Item.renameAll (.both g) result.1 = result'.1 ∧ same g result.2 result'.2

/-- Renaming predicates in a row renames each. -/
theorem Predicate.renameAll_eq_map (f : Renaming) (ps : List Predicate) :
    Predicate.renameAll f ps = ps.map (Predicate.rename f) := by
  induction ps with
  | nil => rfl
  | cons p rest ih => rw [Predicate.renameAll, ih, List.map_cons]

/-- Renaming items in a row renames the first and then the others. -/
theorem Item.renameAll_append (f : Renaming) (first second : List Item) :
    Item.renameAll f (first ++ second) = Item.renameAll f first ++ Item.renameAll f second := by
  induction first with
  | nil => rfl
  | cons item rest ih => simp [Item.renameAll, ih]

/-- Renaming goes through a combination, and leaves missing parts missing. -/
theorem Predicate.rename_combine (f : Renaming) {wrap : List Predicate → Predicate}
    (hwrap : ∀ ps, (wrap ps).rename f = wrap (Predicate.renameAll f ps))
    (parts : List (Option Predicate)) :
    Predicate.renameOptional f (combine wrap parts) =
      combine wrap (parts.map (Predicate.renameOptional f)) := by
  have hthere : (parts.map (Predicate.renameOptional f)).filterMap id =
      (parts.filterMap id).map (Predicate.rename f) := by
    rw [List.filterMap_map, List.map_filterMap]
    refine List.filterMap_congr fun part _ => ?_
    cases part <;> rfl
  unfold combine
  rw [hthere]
  match parts.filterMap id with
  | [] => rfl
  | [_] => rfl
  | first :: second :: rest =>
    exact congrArg some ((hwrap _).trans (by rw [Predicate.renameAll_eq_map]; rfl))

/-- Conjunctions of the same conditions are the same. -/
theorem SameConditions.allOf {g : Nat → Nat} {ps ps' : List (Option Predicate)}
    (h : SameConditions g ps ps') :
    SameCondition g (Predicate.allOf ps) (Predicate.allOf ps') := by
  rw [← h]
  exact Predicate.rename_combine _ (fun _ => rfl) ps

/-- Disjunctions of the same conditions are the same. -/
theorem SameConditions.anyOf {g : Nat → Nat} {ps ps' : List (Option Predicate)}
    (h : SameConditions g ps ps') :
    SameCondition g (Predicate.anyOf ps) (Predicate.anyOf ps') := by
  rw [← h]
  exact Predicate.rename_combine _ (fun _ => rfl) ps

/-- Renaming the pattern of a link renames its variables. -/
theorem Link.rename_pattern (f : Renaming) (link : Link) (source : Variable)
    (edge : Option Variable) (related : Variable) :
    (link.pattern source edge related).rename f =
      link.pattern (source.rename f) (edge.map (Variable.rename f)) (related.rename f) := by
  cases edge <;> rfl

/-- Renaming a test for some match renames its pattern and its condition. -/
theorem Predicate.rename_someMatch (f : Renaming) (pattern : Pattern)
    (inner : Option Predicate) :
    (someMatch pattern inner).rename f =
      someMatch (pattern.rename f) (Predicate.renameOptional f inner) := by
  cases inner <;> rfl

/-- Renaming a test for absence renames its pattern. -/
theorem Predicate.rename_absence (f : Renaming) (pattern : Pattern) (quantifier : Quantifier) :
    (absence pattern quantifier).rename f = absence (pattern.rename f) quantifier := by
  cases quantifier <;> rfl

/-- Renaming a comparison renames both of its sides. -/
theorem Predicate.rename_ofOperator (f : Renaming) (property param : Expr)
    (operator : Option FilterOperator) :
    (ofOperator property param operator).rename f =
      ofOperator (property.rename f) (param.rename f) operator := by
  cases operator with
  | none => rfl
  | some operator => cases operator <;> rfl

/-- Renaming the expression of an aggregate renames the variables that it is about. -/
theorem Aggregate.rename_expr (f : Renaming) (related edge : Variable) (aggregate : Aggregate) :
    (aggregate.expr related edge).rename f =
      aggregate.expr (related.rename f) (edge.rename f) := by
  cases aggregate with
  | count => rfl
  | «over» side property function => cases side <;> cases function <;> rfl

section Compiled

variable {known : (Nat → Nat) → Prop} {target target' related related' edge edge' : Variable}
  {pattern pattern' : Pattern}

/-- A test on a property is built in parallel for the same targets. -/
theorem Predicate.parallel_ofProperty (htarget : ∀ g, known g → SameVariable g target target')
    (property : String) (operator : Option FilterOperator) (value : Json) :
    ParallelFresh known SamePredicate (ofProperty target property operator value)
      (ofProperty target' property operator value) := by
  unfold ofProperty
  split
  · split
    · refine .pure fun g hg => ?_
      rw [← htarget g hg]
      rfl
    · refine .pure fun g hg => ?_
      rw [← htarget g hg]
      rfl
  · refine .bind (.param value) fun p p' => .pure fun g hg => ?_
    rw [← htarget g hg.1, ← hg.2, SamePredicate, rename_ofOperator]
    rfl

/-- A quantified pattern is built in parallel from the same patterns and conditions. -/
theorem Predicate.parallel_quantified
    (hpattern : ∀ g, known g → pattern.rename (.both g) = pattern')
    {inner inner' : Option Predicate} (hinner : ∀ g, known g → SameCondition g inner inner')
    (quantifier : Quantifier) :
    ParallelFresh known SamePredicate (quantified pattern inner quantifier)
      (quantified pattern' inner' quantifier) := by
  cases quantifier with
  | any =>
    refine .pure fun g hg => ?_
    rw [← hpattern g hg, ← hinner g hg]
    exact rename_someMatch _ pattern inner
  | no =>
    refine .pure fun g hg => ?_
    rw [← hpattern g hg, ← hinner g hg]
    exact congrArg Predicate.not (rename_someMatch _ pattern inner)
  | one =>
    refine .bind .value fun v v' => .pure fun g hg => ?_
    rw [← hpattern g hg.1, ← hinner g hg.1, ← hg.2]
    rfl
  | every =>
    -- Whether there is a condition decides about the predicate, and both sides agree on it.
    cases inner with
    | none =>
      cases inner' with
      | none =>
        refine .pure fun g hg => ?_
        rw [← hpattern g hg]
        rfl
      | some p => exact .pure fun g hg => nomatch hinner g hg
    | some p =>
      cases inner' with
      | none => exact .pure fun g hg => nomatch hinner g hg
      | some p' =>
        refine .pure fun g hg => ?_
        rw [← hpattern g hg, ← Option.some.inj (hinner g hg)]
        rfl

mutual
/-- An aggregate filter that is compiled on other variables is the same up to identities. -/
theorem AggregateFilter.parallel_predicate {known : (Nat → Nat) → Prop}
    (hrelated : ∀ g, known g → SameVariable g related related')
    (hedge : ∀ g, known g → SameVariable g edge edge') (f : AggregateFilter) :
    ParallelFresh known (SameAggregates SameCondition) (f.predicate related edge)
      (f.predicate related' edge') := by
  cases f with
  | all parts =>
    rw [AggregateFilter.predicate, AggregateFilter.predicate]
    refine .bind (AggregateFilter.parallel_predicates hrelated hedge parts) fun result result' => ?_
    exact .pure fun g hg => ⟨hg.2.1, SameConditions.allOf hg.2.2⟩
  | any parts =>
    rw [AggregateFilter.predicate, AggregateFilter.predicate]
    refine .bind (AggregateFilter.parallel_predicates hrelated hedge parts) fun result result' => ?_
    exact .pure fun g hg => ⟨hg.2.1, SameConditions.anyOf hg.2.2⟩
  | test aggregate comparison value =>
    rw [AggregateFilter.predicate, AggregateFilter.predicate]
    refine .bind .value fun v v' => .bind (.param value) fun p p' => .pure fun g hg => ?_
    rw [← hg.2, ← hg.1.2, ← hrelated g hg.1.1, ← hedge g hg.1.1]
    refine ⟨?_, rfl⟩
    rw [Item.renameAll, Item.rename, aggregate.rename_expr]
    rfl
termination_by structural f

/-- Aggregate filters in a row are compiled in parallel for the same variables. -/
theorem AggregateFilter.parallel_predicates {known : (Nat → Nat) → Prop}
    (hrelated : ∀ g, known g → SameVariable g related related')
    (hedge : ∀ g, known g → SameVariable g edge edge') (fs : List AggregateFilter) :
    ParallelFresh known (SameAggregates SameConditions) (AggregateFilter.predicates related edge fs)
      (AggregateFilter.predicates related' edge' fs) := by
  cases fs with
  | nil => exact .pure fun _ _ => ⟨rfl, rfl⟩
  | cons f rest =>
    rw [AggregateFilter.predicates, AggregateFilter.predicates]
    refine .bind (AggregateFilter.parallel_predicate hrelated hedge f)
      fun ⟨items, condition⟩ ⟨items', condition'⟩ => ?_
    refine .bind (AggregateFilter.parallel_predicates (fun g hg => hrelated g hg.1)
      (fun g hg => hedge g hg.1) rest)
      fun ⟨others, conditions⟩ ⟨others', conditions'⟩ => .pure fun g hg => ?_
    obtain ⟨⟨-, hitems, hcondition⟩, hotherItems, hconditions⟩ := hg
    exact ⟨(Item.renameAll_append _ items others).trans (congrArg₂ (· ++ ·) hitems hotherItems),
      congrArg₂ List.cons hcondition hconditions⟩
termination_by structural fs
end

/-- The subquery of an aggregate filter is built in parallel for the same targets. -/
theorem AggregateFilter.parallel_subquery (htarget : ∀ g, known g → SameVariable g target target')
    (link : Link) (f : AggregateFilter) :
    ParallelFresh known SameCondition (f.subquery link target) (f.subquery link target') := by
  unfold AggregateFilter.subquery
  refine .bind (.node _) fun related related' => .bind (.relationship _) fun edge edge' => ?_
  refine .bind (AggregateFilter.parallel_predicate (fun g hg => hg.1.2) (fun g hg => hg.2) f)
    fun result result' => .pure fun g hg => ?_
  obtain ⟨⟨⟨hg, hrelated⟩, hedge⟩, hitems, hcondition⟩ := hg
  rw [← htarget g hg, ← hrelated, ← hedge, ← hitems, ← hcondition]
  cases result.2 <;> rfl

mutual
/-- A filter that is compiled on another variable is the same up to identities. -/
theorem Filter.parallel_predicate {known : (Nat → Nat) → Prop} {target target' : Variable}
    (htarget : ∀ g, known g → SameVariable g target target') (f : Filter) :
    ParallelFresh known SameCondition (f.predicate target) (f.predicate target') := by
  match f with
  | .all parts =>
    rw [Filter.predicate, Filter.predicate]
    refine .bind (Filter.parallel_predicates htarget parts) fun ps ps' => ?_
    exact .pure fun g hg => SameConditions.allOf hg.2
  | .any parts =>
    rw [Filter.predicate, Filter.predicate]
    refine .bind (Filter.parallel_predicates htarget parts) fun ps ps' => ?_
    exact .pure fun g hg => SameConditions.anyOf hg.2
  | .property property operator value =>
    rw [Filter.predicate, Filter.predicate]
    refine .bind (Predicate.parallel_ofProperty htarget property operator value) fun p p' => ?_
    exact .pure fun g hg => congrArg some hg.2
  | .related link quantifier none =>
    rw [Filter.predicate, Filter.predicate]
    refine .bind (.node _) fun related related' => .pure fun g hg => ?_
    rw [← htarget g hg.1, ← hg.2]
    exact congrArg some (Predicate.rename_absence _ _ quantifier)
  | .related link quantifier (some inner) =>
    rw [Filter.predicate, Filter.predicate]
    refine .bind (.node _) fun related related' => ?_
    -- What the inner filters share is the new node; what was known of the targets is kept for the
    -- pattern.
    refine .bind (Filter.parallel_predicate (fun g hg => hg.2) inner) fun p p' => ?_
    refine .bind (Predicate.parallel_quantified (fun g hg => ?_) (fun g hg => hg.2) quantifier)
      fun q q' => .pure fun g hg => congrArg some hg.2
    rw [← htarget g hg.1.1, ← hg.1.2]
    exact link.rename_pattern _ _ _ _
  | .connected link quantifier none =>
    rw [Filter.predicate, Filter.predicate]
    refine .bind (.node _) fun related related' => .bind (.relationship _) fun edge edge' => ?_
    refine .pure fun g hg => ?_
    rw [← htarget g hg.1.1, ← hg.1.2, ← hg.2]
    exact congrArg some (Predicate.rename_absence _ _ quantifier)
  | .connected link quantifier (some inner) =>
    rw [Filter.predicate, Filter.predicate]
    refine .bind (.node _) fun related related' => .bind (.relationship _) fun edge edge' => ?_
    refine .bind (ConnectionFilter.parallel_predicate (fun g hg => hg.1.2) (fun g hg => hg.2) inner)
      fun p p' => ?_
    refine .bind (Predicate.parallel_quantified (fun g hg => ?_) (fun g hg => hg.2) quantifier)
      fun q q' => .pure fun g hg => congrArg some hg.2
    obtain ⟨⟨⟨hknown, hrelated⟩, hedge⟩, -⟩ := hg
    rw [← htarget g hknown, ← hrelated, ← hedge]
    exact link.rename_pattern _ _ _ _
  | .aggregated link inner =>
    rw [Filter.predicate, Filter.predicate]
    exact inner.parallel_subquery htarget link
termination_by structural f

/-- Filters in a row are compiled in parallel for the same targets. -/
theorem Filter.parallel_predicates {known : (Nat → Nat) → Prop} {target target' : Variable}
    (htarget : ∀ g, known g → SameVariable g target target') (fs : List Filter) :
    ParallelFresh known SameConditions (Filter.predicates target fs)
      (Filter.predicates target' fs) := by
  cases fs with
  | nil => exact .pure fun _ _ => rfl
  | cons f rest =>
    rw [Filter.predicates, Filter.predicates]
    refine .bind (Filter.parallel_predicate htarget f) fun p p' => ?_
    refine .bind (Filter.parallel_predicates (fun g hg => htarget g hg.1) rest) fun ps ps' => ?_
    refine .pure fun g hg => ?_
    rw [← hg.1.2, ← hg.2]
    rfl
termination_by structural fs

/-- A filter on a connection that is compiled on other variables is the same up to identities. -/
theorem ConnectionFilter.parallel_predicate {known : (Nat → Nat) → Prop}
    {related related' edge edge' : Variable}
    (hrelated : ∀ g, known g → SameVariable g related related')
    (hedge : ∀ g, known g → SameVariable g edge edge') (f : ConnectionFilter) :
    ParallelFresh known SameCondition (f.predicate related edge) (f.predicate related' edge') := by
  cases f with
  | all parts =>
    rw [ConnectionFilter.predicate, ConnectionFilter.predicate]
    refine .bind (ConnectionFilter.parallel_predicates hrelated hedge parts) fun ps ps' => ?_
    exact .pure fun g hg => SameConditions.allOf hg.2
  | any parts =>
    rw [ConnectionFilter.predicate, ConnectionFilter.predicate]
    refine .bind (ConnectionFilter.parallel_predicates hrelated hedge parts) fun ps ps' => ?_
    exact .pure fun g hg => SameConditions.anyOf hg.2
  | node negated filter =>
    rw [ConnectionFilter.predicate, ConnectionFilter.predicate]
    refine .bind (Filter.parallel_predicate hrelated filter) fun p p' => .pure fun g hg => ?_
    rw [← hg.2]
    cases negated <;> cases p <;> rfl
  | edge negated filter =>
    rw [ConnectionFilter.predicate, ConnectionFilter.predicate]
    refine .bind (Filter.parallel_predicate hedge filter) fun p p' => .pure fun g hg => ?_
    rw [← hg.2]
    cases negated <;> cases p <;> rfl
termination_by structural f

/-- Connection filters in a row are compiled in parallel for the same variables. -/
theorem ConnectionFilter.parallel_predicates {known : (Nat → Nat) → Prop}
    {related related' edge edge' : Variable}
    (hrelated : ∀ g, known g → SameVariable g related related')
    (hedge : ∀ g, known g → SameVariable g edge edge') (fs : List ConnectionFilter) :
    ParallelFresh known SameConditions (ConnectionFilter.predicates related edge fs)
      (ConnectionFilter.predicates related' edge' fs) := by
  cases fs with
  | nil => exact .pure fun _ _ => rfl
  | cons f rest =>
    rw [ConnectionFilter.predicates, ConnectionFilter.predicates]
    refine .bind (ConnectionFilter.parallel_predicate hrelated hedge f) fun p p' => ?_
    refine .bind (ConnectionFilter.parallel_predicates (fun g hg => hrelated g hg.1)
      (fun g hg => hedge g hg.1) rest) fun ps ps' => .pure fun g hg => ?_
    rw [← hg.1.2, ← hg.2]
    rfl
termination_by structural fs
end

end Compiled

end GraphRead
