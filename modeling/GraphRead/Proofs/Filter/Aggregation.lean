import GraphRead.Proofs.Filter.Padding
import GraphRead.Proofs.Filter.Splitting

/-!
# What aggregate filters compute

An aggregate filter is compiled to one subquery. The comparisons in it may stand
anywhere in nested lists and objects, on the side of the node and on that of the
relationship. What a filter says is given here as a combination of its comparisons,
in the order of the document and with all keys spelled out. The subquery computes
one aggregate for each of them, under a variable that nothing else uses, and its
condition is the same combination of the comparisons of these variables.
-/

namespace GraphRead

/-- A comparison that an aggregate filter makes. -/
structure AggregateTest where
  aggregate : Aggregate
  comparison : Comparison
  value : Json

/-- Things joined by junctions. -/
inductive Combination (α : Type) where
  | join (junction : Junction) (parts : List (Combination α))
  | leaf (a : α)

/-! ### What an aggregate filter says -/

namespace AggregateFilter

/-- The keys under which there are lists of objects. -/
def junctionKeys : List (String × Junction) := [("AND", .all), ("OR", .any)]

/-- The keys under which there are the comparisons on one side. -/
def sideKeys : List (String × Side) := [("node", .node), ("edge", .edge)]

/-- The keys that compare the number of related nodes. -/
def countKeys : List (String × Comparison) :=
  [("count", .equal), ("count_GT", .greater), ("count_GTE", .greaterOrEqual), ("count_LT", .less),
    ("count_LTE", .lessOrEqual)]

end AggregateFilter

mutual
/-- An object in an aggregate filter says that all of its entries hold. It stands on a side of the
link, or on none. -/
inductive Json.Combines (link : Link) : Option Side → Json → Combination AggregateTest → Prop where
  | object {s : Option Side} {entries : List (String × Json)}
    {parts : List (Combination AggregateTest)}
    (hentries : Json.CombinesEntries link s entries parts) :
    Combines link s (.object entries) (.join .all parts)

/-- What an entry of such an object says. -/
inductive Json.CombinesEntry (link : Link) :
    Option Side → String → Json → Combination AggregateTest → Prop where
  | junction {s : Option Side} {key : String} {junction : Junction} {items : List Json}
    {parts : List (Combination AggregateTest)}
    (hkey : (key, junction) ∈ AggregateFilter.junctionKeys)
    (hitems : Json.CombinesItems link s items parts) :
    CombinesEntry link s key (.array items) (.join junction parts)
  | side {s : Side} {key : String} {value : Json} {part : Combination AggregateTest}
    (hkey : (key, s) ∈ AggregateFilter.sideKeys)
    (hvalue : Json.Combines link (some s) value part) :
    CombinesEntry link none key value part
  /-- The number of related nodes is compared. -/
  | count {key : String} {comparison : Comparison} (value : Json)
    (hkey : (key, comparison) ∈ AggregateFilter.countKeys) :
    CombinesEntry link none key value (.leaf ⟨.count, comparison, value⟩)
  /-- An aggregate of a scalar field is compared. -/
  | field {s : Side} {key : String} {field : Field} {f : AggregateFunction} {c : Comparison}
    {function comparison : String} (value : Json)
    (hkey : key = field.name ++ "_" ++ function ++ "_" ++ comparison)
    (hfield : (link.element s).field? field.name = some field)
    (hplain : Identifier.isPlain field.name = true) (hscalar : field.scalar?.isSome)
    (hfunction : function ∈ f.spellings) (hcomparison : c.spelling? = some comparison) :
    CombinesEntry link (some s) key value (.leaf ⟨.over s field.property f, c, value⟩)

/-- What the members of a list say, one after another. -/
inductive Json.CombinesItems (link : Link) :
    Option Side → List Json → List (Combination AggregateTest) → Prop where
  | nil {s : Option Side} : CombinesItems link s [] []
  | cons {s : Option Side} {item : Json} {rest : List Json} {part : Combination AggregateTest}
    {parts : List (Combination AggregateTest)} (hitem : Json.Combines link s item part)
    (hrest : Json.CombinesItems link s rest parts) :
    CombinesItems link s (item :: rest) (part :: parts)

/-- What the entries of an object say, one after another. -/
inductive Json.CombinesEntries (link : Link) :
    Option Side → List (String × Json) → List (Combination AggregateTest) → Prop where
  | nil {s : Option Side} : CombinesEntries link s [] []
  | cons {s : Option Side} {key : String} {value : Json} {rest : List (String × Json)}
    {part : Combination AggregateTest} {parts : List (Combination AggregateTest)}
    (hentry : Json.CombinesEntry link s key value part)
    (hrest : Json.CombinesEntries link s rest parts) :
    CombinesEntries link s ((key, value) :: rest) (part :: parts)
end

mutual
/-- The combination of comparisons that an aggregate filter is. -/
def AggregateFilter.combination : AggregateFilter → Combination AggregateTest
  | .all parts => .join .all (AggregateFilter.combinations parts)
  | .any parts => .join .any (AggregateFilter.combinations parts)
  | .test aggregate comparison value => .leaf ⟨aggregate, comparison, value⟩
termination_by structural f => f

/-- The combinations of several aggregate filters. -/
def AggregateFilter.combinations : List AggregateFilter → List (Combination AggregateTest)
  | [] => []
  | f :: rest => f.combination :: AggregateFilter.combinations rest
termination_by structural fs => fs
end

/-- The combination of joined filters joins their combinations. -/
theorem AggregateFilter.combination_join (junction : Junction) (parts : List AggregateFilter) :
    (AggregateFilter.join junction parts).combination =
      .join junction (AggregateFilter.combinations parts) := by
  cases junction <;> rfl

namespace FilterReader

variable {link : Link} {s : Option Side} {limit : Nat} {path : KeyPath} {key : String}
  {value : Json} {f : AggregateFilter}

/-- A key that is read as a junction is listed with it. -/
theorem mem_junctionKeys {junction : Junction} (h : Junction.ofKey? key = some junction) :
    (key, junction) ∈ AggregateFilter.junctionKeys := by
  unfold Junction.ofKey? at h
  split at h <;> cases h <;> decide

/-- A key that is read as a side is listed with it. -/
theorem mem_sideKeys {s : Side} (h : Side.ofWord? key = some s) :
    (key, s) ∈ AggregateFilter.sideKeys := by
  unfold Side.ofWord? at h
  split at h <;> cases h <;> decide

/-- A key that is read as a comparison of the count is listed with it. -/
theorem mem_countKeys {comparison : Comparison} (h : FilterKey.count? key = some comparison) :
    (key, comparison) ∈ AggregateFilter.countKeys := by
  unfold FilterKey.count? at h
  split at h
  next hcount =>
    obtain rfl := Option.some.inj h
    rw [hcount]
    decide
  next =>
    have hall : ∀ entry ∈ FilterKey.orderings,
        ("count_" ++ entry.1, entry.2) ∈ AggregateFilter.countKeys := by
      decide
    obtain ⟨⟨suffix, c⟩, hmem, heq⟩ := List.exists_of_findSome?_eq_some h
    simp only [Option.ite_none_right_eq_some, Option.some.injEq] at heq
    obtain ⟨rfl, rfl⟩ := heq
    exact hall _ hmem

section Objects

variable {member : KeyPath → Json → FilterResult AggregateFilter}
  {entry : KeyPath → String → Json → FilterResult AggregateFilter}

/-- If every member of a list says what its filter combines, the list says what its filters
combine. -/
theorem combines_items
    (hmember : ∀ {path item part}, member path item = .ok part →
      item.Combines link s part.combination)
    {items : List Json} {parts : List AggregateFilter}
    (h : List.Forall₂ (fun item part => ∃ path, member path item = .ok part) items parts) :
    Json.CombinesItems link s items (AggregateFilter.combinations parts) := by
  induction h with
  | nil => exact .nil
  | cons hfirst _ ih =>
    obtain ⟨path, hfirst⟩ := hfirst
    exact .cons (hmember hfirst) ih

/-- An object that is read says what its members and entries say. -/
theorem combines_object
    (hmember : ∀ {path item part}, member path item = .ok part →
      item.Combines link s part.combination)
    (hentry : ∀ {path key value part}, entry path key value = .ok part →
      Json.CombinesEntry link s key value part.combination)
    (h : object AggregateFilter.join member entry path value = .ok f) :
    value.Combines link s f.combination := by
  obtain ⟨pairs, parts, rfl, rfl, hparts⟩ := eq_object_of_object h
  rw [AggregateFilter.combination_join]
  refine .object ?_
  clear h
  induction hparts with
  | nil => exact .nil
  | cons hfirst _ ih =>
    refine .cons ?_ ih
    cases hfirst with
    | junction hkey hitems =>
      rw [AggregateFilter.combination_join]
      exact .junction (mem_junctionKeys hkey) (combines_items hmember hitems)
    | other _ hpart => exact hentry hpart

end Objects

/-- An entry on a side compares an aggregate of a field of that side. -/
theorem combines_sideEntry {s : Side}
    (h : sideEntry s (link.element s) path key value = .ok f) :
    Json.CombinesEntry link (some s) key value f.combination := by
  unfold sideEntry at h
  cases hkey : FilterKey.aggregate? key with
  | none => simp [hkey] at h
  | some parsed =>
    cases hfield : (link.element s).field? parsed.field with
    | none => simp [hkey, hfield] at h
    | some field =>
      cases hscalar : field.scalar? with
      | none => simp [hkey, hfield, hscalar] at h
      | some scalar =>
        simp only [hkey, hfield, hscalar] at h
        split at h
        · obtain rfl := Except.ok.inj h
          -- Only the last branch has a result. The key is then spelled with the name of the field.
          obtain ⟨hplain, function, hfunction, comparison, hcomparison, rfl⟩ :=
            FilterKey.spelled_of_aggregate? hkey
          have hname : field.name = parsed.field := by simpa using List.find?_some hfield
          rw [← hname] at hfield hplain ⊢
          exact .field value rfl hfield hplain (by simp [hscalar]) hfunction hcomparison
        · simp at h

/-- A filter on one side combines what its object says, however much budget is left. -/
theorem combines_side {s : Side} {budget : Nat}
    (h : side limit s (link.element s) budget path value = .ok f) :
    value.Combines link (some s) f.combination := by
  induction budget generalizing path value f with
  | zero => exact nomatch h
  | succ budget ih => exact combines_object ih combines_sideEntry h

/-- An aggregate filter that is read is the combination of comparisons that its value says. -/
theorem combines_aggregate {budget : Nat} (h : aggregate limit link budget path value = .ok f) :
    value.Combines link none f.combination := by
  induction budget generalizing path value f with
  | zero => exact nomatch h
  | succ budget ih =>
    refine combines_object ih (fun hentry => ?_) h
    rcases aggregateEntry_eq_ok hentry with ⟨s, hword, hside⟩ | ⟨-, comparison, hcount, rfl⟩
    · exact .side (mem_sideKeys hword) (combines_side hside)
    · exact .count _ (mem_countKeys hcount)

end FilterReader

namespace AggregateFilter

variable {key : String}

/-- A listed junction is read from its key. -/
theorem ofKey?_of_mem {junction : Junction} (h : (key, junction) ∈ junctionKeys) :
    Junction.ofKey? key = some junction := by
  have hall : ∀ entry ∈ junctionKeys, Junction.ofKey? entry.1 = some entry.2 := by decide
  exact hall _ h

/-- A listed side is read from its key, which is no junction. -/
theorem ofWord?_of_mem {s : Side} (h : (key, s) ∈ sideKeys) :
    Junction.ofKey? key = none ∧ Side.ofWord? key = some s := by
  have hall : ∀ entry ∈ sideKeys,
      Junction.ofKey? entry.1 = none ∧ Side.ofWord? entry.1 = some entry.2 := by
    decide
  exact hall _ h

/-- A listed comparison of the count is read from its key, which is neither a junction nor a
side. -/
theorem count?_of_mem {comparison : Comparison} (h : (key, comparison) ∈ countKeys) :
    Junction.ofKey? key = none ∧ Side.ofWord? key = none ∧
      FilterKey.count? key = some comparison := by
  have hall : ∀ entry ∈ countKeys, Junction.ofKey? entry.1 = none ∧
      Side.ofWord? entry.1 = none ∧ FilterKey.count? entry.1 = some entry.2 := by
    decide
  exact hall _ h

/-- A key with a function is no junction. -/
theorem ofKey?_of_aggregate? {parsed : AggregateKey} (h : FilterKey.aggregate? key = some parsed) :
    Junction.ofKey? key = none := by
  have hall : ∀ entry ∈ junctionKeys, FilterKey.aggregate? entry.1 = none := by decide
  cases hkey : Junction.ofKey? key with
  | none => rfl
  | some junction =>
    have hnone : FilterKey.aggregate? key = none :=
      hall (key, junction) (FilterReader.mem_junctionKeys hkey)
    simp [h] at hnone

end AggregateFilter

namespace Json

open AggregateFilter (ofKey?_of_mem ofWord?_of_mem count?_of_mem ofKey?_of_aggregate?)

variable {link : Link}

mutual
/-- A value says only one thing. -/
theorem Combines.unique {s : Option Side} {value : Json} {c c' : Combination AggregateTest}
    (h : Combines link s value c) (h' : Combines link s value c') : c = c' := by
  match h, h' with
  | .object h, .object h' => rw [h.unique h']
termination_by structural h

/-- An entry says at most one combination, since its key is read in one way only. -/
theorem CombinesEntry.unique {s : Option Side} {key : String} {value : Json}
    {c c' : Combination AggregateTest} (h : CombinesEntry link s key value c)
    (h' : CombinesEntry link s key value c') : c = c' := by
  -- The readings of a key exclude each other, since each is looked for only where the ones before
  -- it have failed.
  match h with
  | .junction hkey hitems =>
    have hjunction := ofKey?_of_mem hkey
    cases h' with
    | junction hkey' hitems' =>
      obtain rfl := Option.some.inj (hjunction.symm.trans (ofKey?_of_mem hkey'))
      exact congrArg _ (hitems.unique hitems')
    | side hkey' _ => simp [(ofWord?_of_mem hkey').1] at hjunction
    | count _ hkey' => simp [(count?_of_mem hkey').1] at hjunction
    | field _ hkey' _ hplain _ hfunction hcomparison =>
      subst hkey'
      simp [ofKey?_of_aggregate? (FilterKey.aggregate?_spelled hplain hfunction hcomparison)]
        at hjunction
  | .side hkey hvalue =>
    obtain ⟨hother, hside⟩ := ofWord?_of_mem hkey
    cases h' with
    | junction hkey' _ => simp [ofKey?_of_mem hkey'] at hother
    | side hkey' hvalue' =>
      obtain rfl := Option.some.inj (hside.symm.trans (ofWord?_of_mem hkey').2)
      exact hvalue.unique hvalue'
    | count _ hkey' => simp [(count?_of_mem hkey').2.1] at hside
  | .count value hkey =>
    obtain ⟨hother, hside, hcount⟩ := count?_of_mem hkey
    cases h' with
    | junction hkey' _ => simp [ofKey?_of_mem hkey'] at hother
    | side hkey' _ => simp [(ofWord?_of_mem hkey').2] at hside
    | count _ hkey' =>
      obtain rfl := Option.some.inj (hcount.symm.trans (count?_of_mem hkey').2.2)
      rfl
  | .field value hkey hfield hplain _ hfunction hcomparison =>
    have hparsed := FilterKey.aggregate?_spelled hplain hfunction hcomparison
    rw [← hkey] at hparsed
    have hother := ofKey?_of_aggregate? hparsed
    cases h' with
    | junction hkey' _ => simp [ofKey?_of_mem hkey'] at hother
    | field _ hkey' hfield' hplain' _ hfunction' hcomparison' =>
      have hparsed' := FilterKey.aggregate?_spelled hplain' hfunction' hcomparison'
      rw [← hkey', hparsed, Option.some.injEq, AggregateKey.mk.injEq] at hparsed'
      obtain ⟨hname, rfl, rfl⟩ := hparsed'
      rw [hname, hfield', Option.some.injEq] at hfield
      rw [hfield]
termination_by structural h

/-- The members of a list say at most one list of combinations. -/
theorem CombinesItems.unique {s : Option Side} {items : List Json}
    {cs cs' : List (Combination AggregateTest)} (h : CombinesItems link s items cs)
    (h' : CombinesItems link s items cs') : cs = cs' := by
  match h, h' with
  | .nil, .nil => rfl
  | .cons h hrest, .cons h' hrest' => rw [h.unique h', hrest.unique hrest']
termination_by structural h

/-- The entries of an object say at most one list of combinations. -/
theorem CombinesEntries.unique {s : Option Side} {entries : List (String × Json)}
    {cs cs' : List (Combination AggregateTest)} (h : CombinesEntries link s entries cs)
    (h' : CombinesEntries link s entries cs') : cs = cs' := by
  match h, h' with
  | .nil, .nil => rfl
  | .cons h hrest, .cons h' hrest' => rw [h.unique h', hrest.unique hrest']
termination_by structural h
end

end Json

/-! ### What is computed -/

mutual
/-- The conditions that a condition joins, in their order. -/
def Predicate.atoms : Predicate → List Predicate
  | .all parts => Predicate.atomsOfAll parts
  | .any parts => Predicate.atomsOfAll parts
  | .compare comparison left right => [.compare comparison left right]
  | .not part => [.not part]
  | .exist body => [.exist body]
  | .single v list filter => [.single v list filter]
termination_by structural p => p

/-- The conditions that several conditions join. -/
def Predicate.atomsOfAll : List Predicate → List Predicate
  | [] => []
  | p :: rest => p.atoms ++ Predicate.atomsOfAll rest
termination_by structural ps => ps
end

/-- The atoms of predicates in a row are those of the first and then those of the others. -/
theorem Predicate.atomsOfAll_append (ps qs : List Predicate) :
    Predicate.atomsOfAll (ps ++ qs) = Predicate.atomsOfAll ps ++ Predicate.atomsOfAll qs := by
  induction ps with
  | nil => rfl
  | cons p rest ih =>
    rw [List.cons_append, Predicate.atomsOfAll, Predicate.atomsOfAll, ih, List.append_assoc]

namespace Combination

section Leaves

variable {α β : Type}

mutual
/-- The combination of other things in the same places. -/
def map (f : α → β) : Combination α → Combination β
  | .join junction parts => .join junction (mapAll f parts)
  | .leaf a => .leaf (f a)
termination_by structural c => c

/-- Several combinations of other things. -/
def mapAll (f : α → β) : List (Combination α) → List (Combination β)
  | [] => []
  | c :: rest => c.map f :: mapAll f rest
termination_by structural cs => cs
end

mutual
/-- The things that are joined, in their order. -/
def leaves : Combination α → List α
  | .join _ parts => leavesOfAll parts
  | .leaf a => [a]
termination_by structural c => c

/-- The things in several combinations. -/
def leavesOfAll : List (Combination α) → List α
  | [] => []
  | c :: rest => c.leaves ++ leavesOfAll rest
termination_by structural cs => cs
end

mutual
/-- Mapping a combination maps its leaves. -/
theorem leaves_map (f : α → β) (c : Combination α) : (c.map f).leaves = c.leaves.map f := by
  cases c with
  | join _ parts => exact leavesOfAll_mapAll f parts
  | leaf _ => rfl
termination_by structural c

/-- Mapping combinations in a row maps their leaves. -/
theorem leavesOfAll_mapAll (f : α → β) (cs : List (Combination α)) :
    leavesOfAll (mapAll f cs) = (leavesOfAll cs).map f := by
  cases cs with
  | nil => rfl
  | cons c rest =>
    rw [mapAll, leavesOfAll, leavesOfAll, leaves_map f c, leavesOfAll_mapAll f rest,
      List.map_append]
termination_by structural cs
end

end Leaves

/-- The condition that one junction makes of several conditions. One condition stands for itself. -/
def joined : Junction → List Predicate → Option Predicate
  | _, [] => none
  | _, [p] => some p
  | .all, ps => some (.all ps)
  | .any, ps => some (.any ps)

mutual
/-- The condition that a combination of conditions makes, if there are any. -/
def condition : Combination Predicate → Option Predicate
  | .join junction parts => joined junction (conditions parts)
  | .leaf p => some p
termination_by structural c => c

/-- The conditions that several combinations make. -/
def conditions : List (Combination Predicate) → List Predicate
  | [] => []
  | c :: rest => c.condition.toList ++ conditions rest
termination_by structural cs => cs
end

/-- The conditions of combinations are those that the combinations have. -/
theorem conditions_eq_filterMap (cs : List (Combination Predicate)) :
    conditions cs = (cs.map condition).filterMap id := by
  induction cs with
  | nil => rfl
  | cons c rest ih =>
    rw [conditions, ih, List.map_cons, List.filterMap_cons]
    cases c.condition <;> rfl

/-- Joining the predicates that are there is combining those that may be. -/
theorem joined_eq_combine (junction : Junction) (parts : List (Option Predicate)) :
    joined junction (parts.filterMap id) = junction.combine parts := by
  cases junction with
  | all =>
    change _ = Predicate.combine Predicate.all parts
    rw [Predicate.combine]
    rcases parts.filterMap id with _ | ⟨_, _ | _⟩ <;> rfl
  | any =>
    change _ = Predicate.combine Predicate.any parts
    rw [Predicate.combine]
    rcases parts.filterMap id with _ | ⟨_, _ | _⟩ <;> rfl

/-- A junction combines the conditions of its parts. -/
theorem condition_join (junction : Junction) (parts : List (Combination Predicate)) :
    condition (.join junction parts) = junction.combine (parts.map condition) := by
  rw [condition, conditions_eq_filterMap, joined_eq_combine]

/-- Joining predicates keeps their atoms. -/
theorem atomsOfAll_joined (junction : Junction) (ps : List Predicate) :
    Predicate.atomsOfAll (joined junction ps).toList = Predicate.atomsOfAll ps := by
  rcases ps with _ | ⟨p, _ | ⟨q, rest⟩⟩
  · rfl
  · rfl
  · cases junction <;> exact List.append_nil _

mutual
/-- The condition that a combination makes joins each of its leaves once. -/
theorem atomsOfAll_condition (c : Combination Predicate) (h : ∀ p ∈ c.leaves, p.atoms = [p]) :
    Predicate.atomsOfAll c.condition.toList = c.leaves := by
  cases c with
  | join junction parts =>
    rw [condition, atomsOfAll_joined]
    exact atomsOfAll_conditions parts h
  | leaf p =>
    rw [condition, Option.toList_some, Predicate.atomsOfAll, h p (List.mem_singleton_self p)]
    rfl
termination_by structural c

/-- The atoms of conditions are the leaves of the combinations, if every leaf is an atom. -/
theorem atomsOfAll_conditions (cs : List (Combination Predicate))
    (h : ∀ p ∈ leavesOfAll cs, p.atoms = [p]) :
    Predicate.atomsOfAll (conditions cs) = leavesOfAll cs := by
  cases cs with
  | nil => rfl
  | cons c rest =>
    rw [conditions, leavesOfAll, Predicate.atomsOfAll_append,
      atomsOfAll_condition c fun p hp => h p (List.mem_append_left _ hp),
      atomsOfAll_conditions rest fun p hp => h p (List.mem_append_right _ hp)]
termination_by structural cs
end

/-- A combination with leaves makes a condition. -/
theorem exists_condition {c : Combination Predicate} (hatoms : ∀ p ∈ c.leaves, p.atoms = [p])
    (hleaves : c.leaves ≠ []) : ∃ p, c.condition = some p ∧ p.atoms = c.leaves := by
  have h := atomsOfAll_condition c hatoms
  cases hcondition : c.condition with
  | none =>
    rw [hcondition] at h
    exact absurd h.symm hleaves
  | some p =>
    rw [hcondition, Option.toList_some, Predicate.atomsOfAll, Predicate.atomsOfAll,
      List.append_nil] at h
    exact ⟨p, rfl, h⟩

end Combination

/-- The functions that compute an aggregate from the values of a property, the last one first. -/
def AggregateFunction.calls : AggregateFunction → List String
  | average => ["avg"]
  | sum => ["sum"]
  | min => ["min"]
  | max => ["max"]
  | shortestLength => ["min", "size"]
  | longestLength => ["max", "size"]
  | averageLength => ["avg", "size"]

/-- How an aggregate over related nodes and relationships to them is computed. -/
def Aggregate.computation (related edge : Variable) : Aggregate → Expr
  | .count => .apply "count" [.var related]
  | .over .node property function =>
    function.calls.foldr (fun name e => .apply name [e]) (.property related [property])
  | .over .edge property function =>
    function.calls.foldr (fun name e => .apply name [e]) (.property edge [property])

/-- The expression of an aggregate is its computation. -/
theorem Aggregate.computation_eq_expr (related edge : Variable) (aggregate : Aggregate) :
    aggregate.computation related edge = aggregate.expr related edge := by
  cases aggregate with
  | count => rfl
  | «over» side property function => cases side <;> cases function <;> rfl

/-- A comparison with the identities of the variable that its aggregate is computed under, and of
the parameter that its value is passed in. -/
structure ComputedTest where
  test : AggregateTest
  resultId : Nat
  paramId : Nat

namespace ComputedTest

/-- The identities that are taken for a comparison. -/
def identities (t : ComputedTest) : List Nat := [t.resultId, t.paramId]

/-- The aggregate under its variable. -/
def item (related edge : Variable) (t : ComputedTest) : Item :=
  .aliased (t.test.aggregate.computation related edge) (.value t.resultId)

/-- The comparison of the variable with the parameter. -/
def condition (t : ComputedTest) : Predicate :=
  .binary t.test.comparison (.var (.value t.resultId)) (.param ⟨t.paramId, t.test.value⟩)

end ComputedTest

namespace AggregateFilter

/-- The identities of more comparisons follow those of the ones before them. -/
theorem identities_append {next : Nat} {first second : List ComputedTest}
    (hfirst : first.flatMap ComputedTest.identities = List.range' next (2 * first.length))
    (hsecond : second.flatMap ComputedTest.identities =
      List.range' (next + 2 * first.length) (2 * second.length)) :
    (first ++ second).flatMap ComputedTest.identities =
      List.range' next (2 * (first ++ second).length) := by
  rw [List.flatMap_append, hfirst, hsecond, List.range'_append_1, List.length_append,
    Nat.mul_add]

/-- Filters in a row are compiled one after the other, each from the identity that the one before it
left. -/
theorem run_predicates_cons {related edge : Variable} {f : AggregateFilter}
    {rest : List AggregateFilter} {next between after : Nat} {items others : List Item}
    {condition : Option Predicate} {conditions : List (Option Predicate)}
    (hfirst : (f.predicate related edge).run next = ((items, condition), between))
    (hrest : (predicates related edge rest).run between = ((others, conditions), after)) :
    (predicates related edge (f :: rest)).run next =
      ((items ++ others, condition :: conditions), after) := by
  rw [predicates, StateT.run_bind, hfirst]
  show StateT.run (predicates related edge rest >>= _) between = _
  rw [StateT.run_bind, hrest]
  rfl

mutual
/-- An aggregate filter is compiled to the aggregates of its comparisons and the condition that it
makes of these. Two identities are taken for each comparison, one after another. -/
theorem exists_tree (related edge : Variable) (f : AggregateFilter) (next : Nat) :
    ∃ tree : Combination ComputedTest,
      tree.map ComputedTest.test = f.combination ∧
      tree.leaves.flatMap ComputedTest.identities =
        List.range' next (2 * tree.leaves.length) ∧
      (f.predicate related edge).run next =
        ((tree.leaves.map (ComputedTest.item related edge),
          (tree.map ComputedTest.condition).condition), next + 2 * tree.leaves.length) := by
  cases f with
  | all parts =>
    obtain ⟨trees, htests, hidentities, hrun⟩ := exists_trees related edge parts next
    refine ⟨.join .all trees, congrArg (Combination.join .all) htests, hidentities, ?_⟩
    rw [AggregateFilter.predicate, StateT.run_bind, hrun, Combination.map,
      Combination.condition_join]
    rfl
  | any parts =>
    obtain ⟨trees, htests, hidentities, hrun⟩ := exists_trees related edge parts next
    refine ⟨.join .any trees, congrArg (Combination.join .any) htests, hidentities, ?_⟩
    rw [AggregateFilter.predicate, StateT.run_bind, hrun, Combination.map,
      Combination.condition_join]
    rfl
  | test aggregate comparison value =>
    refine ⟨.leaf ⟨⟨aggregate, comparison, value⟩, next, next + 1⟩, rfl, rfl, ?_⟩
    rw [AggregateFilter.predicate, ← Aggregate.computation_eq_expr]
    rfl
termination_by structural f

/-- Compiled filters in a row come from combinations of tests, whose identities follow each
other. -/
theorem exists_trees (related edge : Variable) (fs : List AggregateFilter) (next : Nat) :
    ∃ trees : List (Combination ComputedTest),
      Combination.mapAll ComputedTest.test trees = combinations fs ∧
      (Combination.leavesOfAll trees).flatMap ComputedTest.identities =
        List.range' next (2 * (Combination.leavesOfAll trees).length) ∧
      (predicates related edge fs).run next =
        (((Combination.leavesOfAll trees).map (ComputedTest.item related edge),
          (Combination.mapAll ComputedTest.condition trees).map Combination.condition),
          next + 2 * (Combination.leavesOfAll trees).length) := by
  cases fs with
  | nil => exact ⟨[], rfl, rfl, rfl⟩
  | cons f rest =>
    obtain ⟨tree, htest, hidentity, hrun⟩ := exists_tree related edge f next
    obtain ⟨trees, htests, hidentities, hruns⟩ :=
      exists_trees related edge rest (next + 2 * tree.leaves.length)
    refine ⟨tree :: trees, congrArg₂ List.cons htest htests,
      identities_append hidentity hidentities, ?_⟩
    rw [run_predicates_cons hrun hruns, Combination.leavesOfAll, List.map_append,
      List.length_append, Nat.mul_add, ← Nat.add_assoc]
    rfl
termination_by structural fs
end

/-- An aggregate filter takes two identities for the pattern before it is compiled itself. -/
theorem run_subquery {link : Link} (source : Variable) {f : AggregateFilter} {next after : Nat}
    {items : List Item} {condition : Predicate}
    (h : (f.predicate (.node next link.target.labels)
      (.relationship (next + 1) link.relationship.type)).run (next + 2) =
        ((items, some condition), after)) :
    (f.subquery link source).run next =
      (some (.exist (.matching false
        (link.pattern source (some (.relationship (next + 1) link.relationship.type))
          (.node next link.target.labels))
        [.passing false items [.filtering [condition]]])), after) := by
  rw [subquery, StateT.run_bind]
  show StateT.run (Fresh.relationship link.relationship.type >>= _) (next + 1) = _
  rw [StateT.run_bind]
  show StateT.run (f.predicate (.node next link.target.labels)
    (.relationship (next + 1) link.relationship.type) >>= _) (next + 2) = _
  rw [StateT.run_bind, h]
  rfl

/-- The comparisons of variables with parameters are not combinations themselves. -/
theorem atoms_of_mem_leaves {tree : Combination ComputedTest} {p : Predicate}
    (hp : p ∈ (tree.map ComputedTest.condition).leaves) : p.atoms = [p] := by
  rw [Combination.leaves_map] at hp
  obtain ⟨t, -, rfl⟩ := List.mem_map.mp hp
  rfl

/-- An aggregate filter is compiled to one subquery over the pattern of its link. The value of the
filter determines the comparisons that it makes and how they are combined. If there are any, one
projection computes the aggregates of all comparisons in their order, each under a variable of its
own, and the condition after it combines the comparisons of these variables in the same way. -/
theorem subquery_computes {limit : Nat} {link : Link} {budget : Nat} {path : KeyPath}
    {value : Json} {f : AggregateFilter}
    (hread : FilterReader.aggregate limit link budget path value = .ok f)
    (source : Variable) (next : Nat) :
    ∃ outline : Combination AggregateTest,
      value.Combines link none outline ∧
      (∀ other, value.Combines link none other → other = outline) ∧
      (outline.leaves ≠ [] →
        ∃ (related edge : Variable) (tree : Combination ComputedTest) (condition : Predicate)
          (after : Nat),
          (f.subquery link source).run next =
            (some (.exist (.matching false
              ⟨⟨some source, [], []⟩,
                [(⟨some edge, some link.relationship.type, link.relationship.direction⟩,
                  ⟨some related, link.target.labels, []⟩)]⟩
              [.passing false (tree.leaves.map (ComputedTest.item related edge))
                [.filtering [condition]]])), after) ∧
          tree.map ComputedTest.test = outline ∧
          tree.leaves ≠ [] ∧
          (tree.map ComputedTest.condition).condition = some condition ∧
          condition.atoms = tree.leaves.map ComputedTest.condition ∧
          (related.identity :: edge.identity ::
            tree.leaves.flatMap ComputedTest.identities).Nodup ∧
          ∀ identity ∈ related.identity :: edge.identity ::
            tree.leaves.flatMap ComputedTest.identities, next ≤ identity ∧ identity < after) := by
  have houtline := FilterReader.combines_aggregate hread
  refine ⟨f.combination, houtline, fun other h => h.unique houtline, fun hleaves => ?_⟩
  let related := Variable.node next link.target.labels
  let edge := Variable.relationship (next + 1) link.relationship.type
  obtain ⟨tree, htest, hidentities, hrun⟩ := exists_tree related edge f (next + 2)
  have htree : tree.leaves ≠ [] := by
    intro hnil
    apply hleaves
    rw [← htest, Combination.leaves_map, hnil]
    rfl
  have hsome : (tree.map ComputedTest.condition).leaves ≠ [] := by
    rwa [Combination.leaves_map, ne_eq, List.map_eq_nil_iff]
  obtain ⟨condition, hcondition, hjoined⟩ :=
    Combination.exists_condition (fun _ => atoms_of_mem_leaves) hsome
  rw [Combination.leaves_map] at hjoined
  -- The pattern takes the first two identities, and each test takes two more.
  have hids : related.identity :: edge.identity ::
      tree.leaves.flatMap ComputedTest.identities =
        List.range' next (2 * tree.leaves.length + 2) := by
    rw [hidentities, List.range'_succ, List.range'_succ]
    rfl
  refine ⟨related, edge, tree, condition, next + 2 + 2 * tree.leaves.length, ?_, htest, htree,
    hcondition, hjoined, ?_, ?_⟩
  · exact run_subquery source (hcondition ▸ hrun)
  · rw [hids]
    exact List.nodup_range'
  · intro identity hidentity
    rw [hids, List.mem_range'_1] at hidentity
    omega

/-- The link from a place to the places that roads lead to. -/
def roadLink : Link where
  field := "roads"
  relationship :=
    ⟨"LEADS_TO", .outgoing, "Place", true, [⟨"tolls", some "toll", .scalar ⟨.int, false, none⟩⟩]⟩
  target := ⟨"Place", ["Place"], [⟨"name_MAX", none, .scalar ⟨.string, false, none⟩⟩]⟩

/-- A filter with comparisons on both sides and in lists, one of which is empty. -/
def roadValue : Json :=
  .object
    [("OR", .array
        [.object [("count_GTE", .ofNat 2)], .object [],
          .object [("node", .object [("AND", .array
            [.object [("name_MAX_LONGEST_LT", .ofNat 9)]])])]]),
      ("edge", .object [("tolls_SUM_EQUAL", .ofNat 4), ("tolls_MAX_GT", .ofNat 1)])]

/-- The comparisons in the filter. -/
def roadFilter : AggregateFilter :=
  .all
    [.any
        [.all [.test .count .greaterOrEqual (.ofNat 2)], .all [],
          .all [.all [.all [.all
            [.test (.over .node "name_MAX" .longestLength) .less (.ofNat 9)]]]]],
      .all
        [.test (.over .edge "toll" .sum) .equal (.ofNat 4),
          .test (.over .edge "toll" .max) .greater (.ofNat 1)]]

/-- A filter on roads, by their number and by the lengths of the names of places. -/
theorem roadFilter_computes :
    FilterReader.aggregate 5 roadLink 6 .root roadValue = .ok roadFilter ∧
    ∃ (related edge : Variable) (tree : Combination ComputedTest) (condition : Predicate)
      (after : Nat),
      (roadFilter.subquery roadLink (.namedNode 0 "this" [])).run 1 =
        (some (.exist (.matching false
          ⟨⟨some (.namedNode 0 "this" []), [], []⟩,
            [(⟨some edge, some "LEADS_TO", .outgoing⟩, ⟨some related, ["Place"], []⟩)]⟩
          [.passing false (tree.leaves.map (ComputedTest.item related edge))
            [.filtering [condition]]])), after) ∧
      tree.map ComputedTest.test = roadFilter.combination := by
  have hread : FilterReader.aggregate 5 roadLink 6 .root roadValue = .ok roadFilter := rfl
  obtain ⟨outline, -, hunique, hcomputes⟩ := subquery_computes hread (.namedNode 0 "this" []) 1
  have houtline := hunique _ (FilterReader.combines_aggregate hread)
  obtain ⟨related, edge, tree, condition, after, hrun, htest, -⟩ :=
    hcomputes (houtline ▸ List.cons_ne_nil _ _)
  exact ⟨hread, related, edge, tree, condition, after, hrun, htest.trans houtline.symm⟩

end AggregateFilter

end GraphRead
