import GraphRead.Proofs.Filter.Place

/-!
# The values of a filter

The leaves of a filter are the values that its keys compare something to, in the
order of the document. They are found in the JSON value by following the places,
and in the filter that was read from it by recursion; both are the same list.
-/

namespace GraphRead

mutual
/-- The values that are compared to something, in the order of the document. Null under the key of
a scalar field compares to nothing. -/
def Json.leaves (schema : Schema) : Json → Slot → List Json
  | .object pairs, .nested place => Json.leavesOfEntries schema place pairs
  | .array items, .nested place => Json.leavesOfItems schema place items
  | value, .scalar _ => if value.isNull then [] else [value]
  | value, .comparison => [value]
  | _, _ => []
termination_by structural value => value

/-- The leaves of the items of a list. -/
def Json.leavesOfItems (schema : Schema) (place : Place) : List Json → List Json
  | [] => []
  | item :: rest => item.leaves schema (.nested place) ++ Json.leavesOfItems schema place rest
termination_by structural items => items

/-- The leaves of the entries of an object. -/
def Json.leavesOfEntries (schema : Schema) (place : Place) : List (String × Json) → List Json
  | [] => []
  | (key, value) :: rest =>
    value.leaves schema (place.slot schema key) ++ Json.leavesOfEntries schema place rest
termination_by structural pairs => pairs
end

mutual
/-- The values of an aggregate filter. A test of the aggregate alone does not use its value. -/
def AggregateFilter.values : AggregateFilter → List Json
  | .all parts => AggregateFilter.valuesOfAll parts
  | .any parts => AggregateFilter.valuesOfAll parts
  | .test _ comparison value => if comparison.isUnary then [] else [value]
termination_by structural f => f

/-- The values of several aggregate filters. -/
def AggregateFilter.valuesOfAll : List AggregateFilter → List Json
  | [] => []
  | f :: rest => f.values ++ AggregateFilter.valuesOfAll rest
termination_by structural fs => fs
end

mutual
/-- The values of a filter, apart from null. -/
def Filter.values : Filter → List Json
  | .all parts => Filter.valuesOfAll parts
  | .any parts => Filter.valuesOfAll parts
  | .property _ _ value => if value.isNull then [] else [value]
  | .related _ _ none => []
  | .related _ _ (some inner) => inner.values
  | .connected _ _ none => []
  | .connected _ _ (some inner) => inner.values
  | .aggregated _ inner => inner.values
termination_by structural f => f

/-- The values of several filters. -/
def Filter.valuesOfAll : List Filter → List Json
  | [] => []
  | f :: rest => f.values ++ Filter.valuesOfAll rest
termination_by structural fs => fs

/-- The values of a filter on a connection. -/
def ConnectionFilter.values : ConnectionFilter → List Json
  | .all parts => ConnectionFilter.valuesOfAll parts
  | .any parts => ConnectionFilter.valuesOfAll parts
  | .node _ filter => filter.values
  | .edge _ filter => filter.values
termination_by structural f => f

/-- The values of several filters on a connection. -/
def ConnectionFilter.valuesOfAll : List ConnectionFilter → List Json
  | [] => []
  | f :: rest => f.values ++ ConnectionFilter.valuesOfAll rest
termination_by structural fs => fs
end

/-- A nested filter that is absent compares nothing. -/
@[simp]
theorem Json.leaves_null (schema : Schema) (place : Place) :
    Json.null.leaves schema (.nested place) = [] := by
  simp [Json.leaves]

/-- A filter on a scalar compares its value, unless it is null. -/
@[simp]
theorem Json.leaves_scalar (schema : Schema) (value : Json) (operator : Option FilterOperator) :
    value.leaves schema (.scalar operator) = if value.isNull then [] else [value] := by
  cases value <;> simp [Json.leaves]

/-- A filter on an aggregate compares its value, even if it is null. -/
@[simp]
theorem Json.leaves_comparison (schema : Schema) (value : Json) :
    value.leaves schema .comparison = [value] := by
  cases value <;> simp [Json.leaves]

/-- Joined aggregate filters have the values of their parts in order. -/
theorem AggregateFilter.values_join (junction : Junction) (parts : List AggregateFilter) :
    (AggregateFilter.join junction parts).values = parts.flatMap AggregateFilter.values := by
  have hall : AggregateFilter.valuesOfAll parts = parts.flatMap AggregateFilter.values := by
    induction parts with
    | nil => rfl
    | cons f rest ih => simp [AggregateFilter.valuesOfAll, ih]
  cases junction <;> simp [AggregateFilter.join, AggregateFilter.values, hall]

/-- Joined filters have the values of their parts in order. -/
theorem Filter.values_join (junction : Junction) (parts : List Filter) :
    (Filter.join junction parts).values = parts.flatMap Filter.values := by
  have hall : Filter.valuesOfAll parts = parts.flatMap Filter.values := by
    induction parts with
    | nil => rfl
    | cons f rest ih => simp [Filter.valuesOfAll, ih]
  cases junction <;> simp [Filter.join, Filter.values, hall]

/-- Joined connection filters have the values of their parts in order. -/
theorem ConnectionFilter.values_join (junction : Junction) (parts : List ConnectionFilter) :
    (ConnectionFilter.join junction parts).values = parts.flatMap ConnectionFilter.values := by
  have hall : ConnectionFilter.valuesOfAll parts = parts.flatMap ConnectionFilter.values := by
    induction parts with
    | nil => rfl
    | cons f rest ih => simp [ConnectionFilter.valuesOfAll, ih]
  cases junction <;> simp [ConnectionFilter.join, ConnectionFilter.values, hall]

namespace FilterReader

variable {schema : Schema} {limit : Nat}

section Objects

variable {β : Type} {join : Junction → List β → β} {member : KeyPath → Json → FilterResult β}
  {entry : KeyPath → String → Json → FilterResult β} {values : β → List Json} {place : Place}

/-- Members that have their own leaves as values have them together. -/
theorem flatMap_values_of_members
    (hmember : ∀ {path item part}, member path item = .ok part →
      values part = item.leaves schema (.nested place))
    {items : List Json} {parts : List β}
    (h : List.Forall₂ (fun item part => ∃ path, member path item = .ok part) items parts) :
    parts.flatMap values = Json.leavesOfItems schema place items := by
  induction h with
  | nil => simp [Json.leavesOfItems]
  | cons hfirst _ ih =>
    obtain ⟨path, hfirst⟩ := hfirst
    simp [Json.leavesOfItems, hmember hfirst, ih]

/-- An object has its leaves as values if its members and its entries have theirs. -/
theorem values_of_object
    (hjoin : ∀ junction parts, values (join junction parts) = parts.flatMap values)
    (hmember : ∀ {path item part}, member path item = .ok part →
      values part = item.leaves schema (.nested place))
    (hentry : ∀ {path key value part}, entry path key value = .ok part →
      values part = value.leaves schema (place.keySlot schema key))
    {path : KeyPath} {value : Json} {result : β}
    (h : object join member entry path value = .ok result) :
    values result = value.leaves schema (.nested place) := by
  obtain ⟨pairs, parts, rfl, rfl, hparts⟩ := eq_object_of_object h
  rw [hjoin, Json.leaves]
  clear h
  induction hparts with
  | nil => simp [Json.leavesOfEntries]
  | cons hfirst _ ih =>
    rw [List.flatMap_cons, ih]
    cases hfirst with
    | junction hkey hitems =>
      rw [Json.leavesOfEntries, Place.slot_junction hkey, Json.leaves, hjoin,
        flatMap_values_of_members hmember hitems]
    | other hkey hpart => rw [Json.leavesOfEntries, Place.slot_other hkey, hentry hpart]

end Objects

/-- One side of an aggregate filter has its leaves as values. -/
theorem values_of_side {s : Side} {element : Element} {budget : Nat} {path : KeyPath}
    {value : Json} {result : AggregateFilter}
    (h : side limit s element budget path value = .ok result) :
    result.values = value.leaves schema (.nested (.side element)) := by
  induction budget generalizing path value result with
  | zero => simp [side] at h
  | succ budget ih =>
    refine values_of_object AggregateFilter.values_join ih ?_ h
    intro path key value part hpart
    obtain ⟨hkey, aggregate, comparison, hcomparison, rfl⟩ := sideEntry_eq_ok hpart
    simp [AggregateFilter.values, Place.keySlot, hkey, hcomparison]

/-- An aggregate filter has its leaves as values. -/
theorem values_of_aggregate {link : Link} {budget : Nat} {path : KeyPath} {value : Json}
    {result : AggregateFilter} (h : aggregate limit link budget path value = .ok result) :
    result.values = value.leaves schema (.nested (.aggregate link)) := by
  induction budget generalizing path value result with
  | zero => simp [aggregate] at h
  | succ budget ih =>
    refine values_of_object AggregateFilter.values_join ih ?_ h
    intro path key value part hpart
    rcases aggregateEntry_eq_ok hpart with ⟨s, hword, hside⟩ | ⟨hword, comparison, hcount, rfl⟩
    · simpa [Place.keySlot, hword] using values_of_side hside
    · simp [Place.keySlot, hword, hcount, AggregateFilter.values,
        FilterKey.isUnary_of_count? hcount]

/-- Filters on elements and on connections have their leaves as values. -/
theorem values_of_budget (budget : Nat) :
    (∀ {element path value result}, filter schema limit budget element path value = .ok result →
      result.values = value.leaves schema (.nested (.element element))) ∧
    (∀ {link path value result}, connection schema limit budget link path value = .ok result →
      result.values = value.leaves schema (.nested (.connection link))) := by
  -- Filters and connection filters nest each other, with one less of the budget each time.
  induction budget with
  | zero => exact ⟨fun h => by simp [filter] at h, fun h => by simp [connection] at h⟩
  | succ budget ih =>
    obtain ⟨hfilter, hconnection⟩ := ih
    constructor
    · intro element path value result h
      rw [filter] at h
      refine values_of_object Filter.values_join hfilter ?_ h
      intro path key value part hpart
      obtain ⟨meaning, hmeaning, hreads⟩ := reads_of_entry hpart
      cases hreads with
      | scalar property operator =>
        simp [Place.keySlot, hmeaning, KeyMeaning.slot, Filter.values]
      | related hinner =>
        rcases unlessNull_eq_ok hinner with ⟨rfl, rfl⟩ | ⟨-, inner, hread, rfl⟩
        · simp [Place.keySlot, hmeaning, KeyMeaning.slot, Filter.values]
        · simp [Place.keySlot, hmeaning, KeyMeaning.slot, Filter.values, hfilter hread]
      | connected hinner =>
        rcases unlessNull_eq_ok hinner with ⟨rfl, rfl⟩ | ⟨-, inner, hread, rfl⟩
        · simp [Place.keySlot, hmeaning, KeyMeaning.slot, Filter.values]
        · simp [Place.keySlot, hmeaning, KeyMeaning.slot, Filter.values, hconnection hread]
      | aggregated hinner =>
        simpa [Place.keySlot, hmeaning, KeyMeaning.slot, Filter.values] using
          values_of_aggregate hinner
    · intro link path value result h
      rw [connection] at h
      refine values_of_object ConnectionFilter.values_join hconnection ?_ h
      intro path key value part hpart
      obtain ⟨s, negated, inner, hkey, hread, rfl⟩ := eq_ofSide_of_connectionEntry hpart
      cases s <;>
        simp [Place.keySlot, hkey, ofSide, ConnectionFilter.values, hfilter hread]

end FilterReader

/-- A filter that is read has the leaves of its JSON value as values. -/
theorem Filter.values_of_read {schema : Schema} {limit : Nat} {element : Element}
    {path : KeyPath} {value : Json} {filter : Filter}
    (h : Filter.read schema limit element path value = .ok filter) :
    filter.values = value.leaves schema (.nested (.element element)) :=
  (FilterReader.values_of_budget (limit + 1)).1 h

/-- A filter on a connection that is read has the leaves of its JSON value as values. -/
theorem ConnectionFilter.values_of_read {schema : Schema} {limit : Nat} {link : Link}
    {path : KeyPath} {value : Json} {filter : ConnectionFilter}
    (h : ConnectionFilter.read schema limit link path value = .ok filter) :
    filter.values = value.leaves schema (.nested (.connection link)) :=
  (FilterReader.values_of_budget (limit + 1)).2 h

end GraphRead
