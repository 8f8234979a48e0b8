import GraphRead.Filter.Predicate
import GraphRead.Proofs.Filter.Place
import GraphRead.Proofs.Rendering.Relabelling

/-!
# Erasing the values of a filter

Erasing a filter replaces every value that its keys compare something to by a
fixed one. What has to be kept is only whether a value is null, and whether the
value of an operator on lists is a list. Reading commutes with erasing, and the
predicate of an erased filter differs only in the values of its parameters.
-/

namespace GraphRead

/-- What is kept of a value that a stored property is compared to. A value that an operator on lists
refuses stays as it is. -/
def Json.blank (operator : Option FilterOperator) (value : Json) : Json :=
  if value.isNull then .null
  else if FilterReader.takesList operator then if value.isArray then .array [] else value
  else .bool true

mutual
/-- The value without the values that are compared to something. -/
def Json.erase (schema : Schema) : Json → Slot → Json
  | .object pairs, .nested place => .object (Json.eraseEntries schema place pairs)
  | .array items, .nested place => .array (Json.eraseItems schema place items)
  | value, .scalar operator => value.blank operator
  | _, .comparison => .null
  | value, _ => value
termination_by structural value => value

/-- The items of a list, erased. -/
def Json.eraseItems (schema : Schema) (place : Place) : List Json → List Json
  | [] => []
  | item :: rest => item.erase schema (.nested place) :: Json.eraseItems schema place rest
termination_by structural items => items

/-- The entries of an object, erased. -/
def Json.eraseEntries (schema : Schema) (place : Place) :
    List (String × Json) → List (String × Json)
  | [] => []
  | (key, value) :: rest =>
    (key, value.erase schema (place.slot schema key)) :: Json.eraseEntries schema place rest
termination_by structural pairs => pairs
end

mutual
/-- The aggregate filter without its values. -/
def AggregateFilter.erase : AggregateFilter → AggregateFilter
  | .all parts => .all (AggregateFilter.eraseAll parts)
  | .any parts => .any (AggregateFilter.eraseAll parts)
  | .test aggregate comparison _ => .test aggregate comparison .null
termination_by structural f => f

/-- Several aggregate filters without their values. -/
def AggregateFilter.eraseAll : List AggregateFilter → List AggregateFilter
  | [] => []
  | f :: rest => f.erase :: AggregateFilter.eraseAll rest
termination_by structural fs => fs
end

mutual
/-- The filter without its values. -/
def Filter.erase : Filter → Filter
  | .all parts => .all (Filter.eraseAll parts)
  | .any parts => .any (Filter.eraseAll parts)
  | .property property operator value => .property property operator (value.blank operator)
  | .related link quantifier none => .related link quantifier none
  | .related link quantifier (some inner) => .related link quantifier (some inner.erase)
  | .connected link quantifier none => .connected link quantifier none
  | .connected link quantifier (some inner) => .connected link quantifier (some inner.erase)
  | .aggregated link inner => .aggregated link inner.erase
termination_by structural f => f

/-- Several filters without their values. -/
def Filter.eraseAll : List Filter → List Filter
  | [] => []
  | f :: rest => f.erase :: Filter.eraseAll rest
termination_by structural fs => fs

/-- The filter on a connection without its values. -/
def ConnectionFilter.erase : ConnectionFilter → ConnectionFilter
  | .all parts => .all (ConnectionFilter.eraseAll parts)
  | .any parts => .any (ConnectionFilter.eraseAll parts)
  | .node negated filter => .node negated filter.erase
  | .edge negated filter => .edge negated filter.erase
termination_by structural f => f

/-- Several filters on a connection without their values. -/
def ConnectionFilter.eraseAll : List ConnectionFilter → List ConnectionFilter
  | [] => []
  | f :: rest => f.erase :: ConnectionFilter.eraseAll rest
termination_by structural fs => fs
end

namespace Json

variable (schema : Schema) (value : Json)

/-- Nothing is erased under a key that says nothing. -/
@[simp]
theorem erase_unknown : value.erase schema .unknown = value := by
  cases value <;> simp [erase]

/-- A compared value is replaced by a blank of its shape. -/
@[simp]
theorem erase_scalar (operator : Option FilterOperator) :
    value.erase schema (.scalar operator) = value.blank operator := by
  cases value <;> simp [erase]

/-- The value that an aggregate is compared with is replaced by null. -/
@[simp]
theorem erase_comparison : value.erase schema .comparison = .null := by
  cases value <;> simp [erase]

/-- A nested filter keeps its kind, so that errors name the same. -/
@[simp]
theorem kind_erase_nested (place : Place) :
    (value.erase schema (.nested place)).kind = value.kind := by
  cases value <;> simp [erase, kind]

/-- A nested filter stays an object. -/
@[simp]
theorem isObject_erase_nested (place : Place) :
    (value.erase schema (.nested place)).isObject = value.isObject := by
  cases value <;> simp [erase, isObject]

/-- A nested filter that is absent stays so, and no other becomes absent. -/
@[simp]
theorem isNull_erase_nested (place : Place) :
    (value.erase schema (.nested place)).isNull = value.isNull := by
  cases value <;> simp [erase, isNull]

/-- A blank is null exactly if the value was, since null is compared in another way. -/
@[simp]
theorem isNull_blank (operator : Option FilterOperator) :
    (value.blank operator).isNull = value.isNull := by
  unfold blank
  cases value <;> cases FilterReader.takesList operator <;> simp [isNull, isArray]

end Json

/-- Erasing joined aggregate filters erases each. -/
theorem AggregateFilter.erase_join (junction : Junction) (parts : List AggregateFilter) :
    (AggregateFilter.join junction parts).erase =
      .join junction (parts.map AggregateFilter.erase) := by
  have hall : AggregateFilter.eraseAll parts = parts.map AggregateFilter.erase := by
    induction parts with
    | nil => rfl
    | cons f rest ih => simp [AggregateFilter.eraseAll, ih]
  cases junction <;> simp [AggregateFilter.join, AggregateFilter.erase, hall]

/-- Erasing joined filters erases each. -/
theorem Filter.erase_join (junction : Junction) (parts : List Filter) :
    (Filter.join junction parts).erase = .join junction (parts.map Filter.erase) := by
  have hall : Filter.eraseAll parts = parts.map Filter.erase := by
    induction parts with
    | nil => rfl
    | cons f rest ih => simp [Filter.eraseAll, ih]
  cases junction <;> simp [Filter.join, Filter.erase, hall]

/-- Erasing joined connection filters erases each. -/
theorem ConnectionFilter.erase_join (junction : Junction) (parts : List ConnectionFilter) :
    (ConnectionFilter.join junction parts).erase =
      .join junction (parts.map ConnectionFilter.erase) := by
  have hall : ConnectionFilter.eraseAll parts = parts.map ConnectionFilter.erase := by
    induction parts with
    | nil => rfl
    | cons f rest ih => simp [ConnectionFilter.eraseAll, ih]
  cases junction <;> simp [ConnectionFilter.join, ConnectionFilter.erase, hall]

/-- Erasing a filter on related nodes erases what is demanded of them. -/
theorem Filter.erase_related (link : Link) (quantifier : Quantifier) (inner : Option Filter) :
    (Filter.related link quantifier inner).erase =
      .related link quantifier (inner.map Filter.erase) := by
  cases inner <;> simp [Filter.erase]

/-- Erasing a filter on a connection erases what is demanded of it. -/
theorem Filter.erase_connected (link : Link) (quantifier : Quantifier)
    (inner : Option ConnectionFilter) :
    (Filter.connected link quantifier inner).erase =
      .connected link quantifier (inner.map ConnectionFilter.erase) := by
  cases inner <;> simp [Filter.erase]

namespace FilterReader

section Objects

variable {schema : Schema} {place : Place} {β : Type} {join : Junction → List β → β}
  {member : KeyPath → Json → FilterResult β} {entry : KeyPath → String → Json → FilterResult β}
  {eraseResult : β → β}

/-- Erased members of a list are objects exactly if they were. -/
theorem checkObjects_erase (path : KeyPath) (index : Nat) (items : List Json) :
    checkObjects path index (Json.eraseItems schema place items) =
      checkObjects path index items := by
  induction items generalizing index with
  | nil => simp [Json.eraseItems]
  | cons item rest ih => simp [Json.eraseItems, checkObjects, ih]

/-- Members of a list are read erased, if each is. -/
theorem members_erase
    (hmember : ∀ path item, member path (item.erase schema (.nested place)) =
      (member path item).map eraseResult)
    (path : KeyPath) (index : Nat) (items : List Json) :
    members member path index (Json.eraseItems schema place items) =
      (members member path index items).map (List.map eraseResult) := by
  induction items generalizing index with
  | nil => rfl
  | cons item rest ih =>
    simp only [Json.eraseItems, members, hmember, ih]
    cases member (path.index index) item with
    | error error => rfl
    | ok first => cases members member path (index + 1) rest <;> rfl

/-- Reading entries commutes with erasing if reading members and other entries does. -/
theorem entries_erase
    (hjoin : ∀ junction parts, eraseResult (join junction parts) =
      join junction (parts.map eraseResult))
    (hmember : ∀ path item, member path (item.erase schema (.nested place)) =
      (member path item).map eraseResult)
    (hentry : ∀ path key value, entry path key (value.erase schema (place.keySlot schema key)) =
      (entry path key value).map eraseResult)
    (path : KeyPath) (pairs : List (String × Json)) :
    entries join member entry path (Json.eraseEntries schema place pairs) =
      (entries join member entry path pairs).map (List.map eraseResult) := by
  induction pairs with
  | nil => rfl
  | cons pair rest ih =>
    obtain ⟨key, value⟩ := pair
    rw [Json.eraseEntries, entries, entries, ih]
    cases hkey : Junction.ofKey? key with
    | none =>
      simp only [Place.slot_other hkey, hentry]
      cases entry (path.key key) key value with
      | error error => rfl
      | ok first => cases entries join member entry path rest <;> rfl
    | some junction =>
      -- A junction is erased member by member. What is no list is refused without a look inside.
      simp only [Place.slot_junction hkey]
      cases value with
      | array items =>
        simp only [Json.erase, objects, checkObjects_erase]
        cases checkObjects (path.key key) 0 items with
        | error error => rfl
        | ok _ =>
          simp only [bind, Except.bind, pure, Except.pure, members_erase hmember]
          cases members member (path.key key) 0 items with
          | error error => rfl
          | ok parts =>
            cases entries join member entry path rest with
            | error error => rfl
            | ok others => simp [Except.map, hjoin]
      | _ => simp [Json.erase, objects, bind, Except.bind, Except.map, Json.kind]

/-- Reading an object commutes with erasing if reading its members and entries does. -/
theorem object_erase
    (hjoin : ∀ junction parts, eraseResult (join junction parts) =
      join junction (parts.map eraseResult))
    (hmember : ∀ path item, member path (item.erase schema (.nested place)) =
      (member path item).map eraseResult)
    (hentry : ∀ path key value, entry path key (value.erase schema (place.keySlot schema key)) =
      (entry path key value).map eraseResult)
    (path : KeyPath) (value : Json) :
    object join member entry path (value.erase schema (.nested place)) =
      (object join member entry path value).map eraseResult := by
  cases value with
  | object pairs =>
    simp only [Json.erase, object, entries_erase hjoin hmember hentry]
    cases entries join member entry path pairs with
    | error error => rfl
    | ok parts => simp [bind, Except.bind, pure, Except.pure, Except.map, hjoin]
  | _ => simp [Json.erase, object, Except.map, Json.kind]

end Objects

section Entries

variable {schema : Schema}

/-- What may be null is read erased, if what is not null is. -/
theorem unlessNull_erase {β : Type} {read : Json → FilterResult β} {eraseResult : β → β}
    {place : Place}
    (hread : ∀ value, read (value.erase schema (.nested place)) = (read value).map eraseResult)
    (value : Json) :
    unlessNull read (value.erase schema (.nested place)) =
      (unlessNull read value).map (Option.map eraseResult) := by
  simp only [unlessNull, Json.isNull_erase_nested, hread]
  split
  · rfl
  · cases read value <;> rfl

/-- A test on a scalar field is read from the erased value as from the value. -/
theorem scalar_erase {path : KeyPath} {field : Field} {suffix : Option String}
    {operator : Option FilterOperator} (hsuffix : FilterOperator.ofKey? suffix = some operator)
    (value : Json) :
    scalar path field suffix (value.blank operator) =
      (scalar path field suffix value).map Filter.erase := by
  unfold scalar
  cases hoperator : scalarOperator path field suffix with
  | error error => rfl
  | ok found =>
    obtain rfl : found = operator := by
      simpa [ofKey?_of_scalarOperator hoperator] using hsuffix
    simp only [bind, Except.bind, pure, Except.pure]
    cases hlist : takesList found with
    | false => simp [Except.map, Filter.erase]
    | true => cases value <;> simp [Json.blank, hlist, Json.isNull, Json.isArray, Except.map,
        Filter.erase, Json.kind]

variable {filter : Element → KeyPath → Json → FilterResult Filter}
  {connection : Link → KeyPath → Json → FilterResult ConnectionFilter}
  {aggregate : Link → KeyPath → Json → FilterResult AggregateFilter}

/-- A filter under a quantifier is read erased, if what is under the quantifier is. The key has to
stand for a nested filter only where the quantifier and the target of the relationship exist. -/
theorem quantified_erase {β : Type} {read : Link → KeyPath → Json → FilterResult β}
    {eraseResult : β → β} {place : Link → Place} {make : Link → Quantifier → Option β → Filter}
    (hread : ∀ link path value, read link path (value.erase schema (.nested (place link))) =
      (read link path value).map eraseResult)
    (hmake : ∀ link quantifier inner, (make link quantifier inner).erase =
      make link quantifier (inner.map eraseResult))
    {path : KeyPath} {field : Field} {operator : Option String} {relationship : Relationship}
    {slot : Slot}
    (hslot : ∀ target found, schema.node? relationship.target = some target →
      Quantifier.ofKey? operator = some found →
      slot = .nested (place ⟨field.name, relationship, target⟩)) (value : Json) :
    (do
        let quantifier ← quantifier path field operator
        let link ← link schema field relationship
        let inner ← unlessNull (read link path) (value.erase schema slot)
        return make link quantifier inner) =
      Except.map Filter.erase (do
        let quantifier ← quantifier path field operator
        let link ← link schema field relationship
        let inner ← unlessNull (read link path) value
        return make link quantifier inner) := by
  cases hquantifier : quantifier path field operator with
  | error error => rfl
  | ok found =>
    cases hlink : link schema field relationship with
    | error error => rfl
    | ok l =>
      obtain ⟨target, htarget, rfl⟩ := node?_of_link hlink
      obtain rfl := hslot target found htarget (ofKey?_of_quantifier hquantifier)
      simp only [bind, Except.bind, unlessNull_erase (hread _ path)]
      cases unlessNull (read ⟨field.name, relationship, target⟩ path) value with
      | error error => rfl
      | ok inner => simp [Except.map, pure, Except.pure, hmake]

/-- A filter on aggregates is read erased, if what it says of them is. -/
theorem aggregated_erase
    (haggregate : ∀ link path value,
      aggregate link path (value.erase schema (.nested (.aggregate link))) =
        (aggregate link path value).map AggregateFilter.erase)
    {path : KeyPath} {field : Field} {relationship : Relationship} {slot : Slot}
    (hslot : ∀ target, schema.node? relationship.target = some target →
      slot = .nested (.aggregate ⟨field.name, relationship, target⟩)) (value : Json) :
    (do
        let link ← link schema field relationship
        let inner ← aggregate link path (value.erase schema slot)
        return Filter.aggregated link inner) =
      Except.map Filter.erase (do
        let link ← link schema field relationship
        let inner ← aggregate link path value
        return Filter.aggregated link inner) := by
  cases hlink : link schema field relationship with
  | error error => rfl
  | ok l =>
    obtain ⟨target, htarget, rfl⟩ := node?_of_link hlink
    obtain rfl := hslot target htarget
    simp only [bind, Except.bind, haggregate _ path]
    cases aggregate ⟨field.name, relationship, target⟩ path value with
    | error error => rfl
    | ok inner => simp [Except.map, pure, Except.pure, Filter.erase]

/-- Reading an entry of a filter on an element commutes with erasing. -/
theorem entry_erase
    (hfilter : ∀ element path value,
      filter element path (value.erase schema (.nested (.element element))) =
        (filter element path value).map Filter.erase)
    (hconnection : ∀ link path value,
      connection link path (value.erase schema (.nested (.connection link))) =
        (connection link path value).map ConnectionFilter.erase)
    (haggregate : ∀ link path value,
      aggregate link path (value.erase schema (.nested (.aggregate link))) =
        (aggregate link path value).map AggregateFilter.erase)
    (element : Element) (path : KeyPath) (key : String) (value : Json) :
    entry schema filter connection aggregate element path key
        (value.erase schema ((Place.element element).keySlot schema key)) =
      (entry schema filter connection aggregate element path key value).map Filter.erase := by
  -- The reader and the place of a value decide by the same cases.
  simp only [entry, Place.keySlot, Element.meaning?]
  cases resolve? element key with
  | none => rfl
  | some resolved =>
    obtain ⟨reading, field⟩ := resolved
    simp only [Option.bind_some]
    cases hkind : field.kind with
    | scalar s =>
      cases hoperator : FilterOperator.ofKey? reading.operator with
      | none =>
        simp only [Option.map_none, Json.erase_unknown, scalar]
        cases hscalar : scalarOperator path field reading.operator with
        | error error => rfl
        | ok found => simp [ofKey?_of_scalarOperator hscalar] at hoperator
      | some operator =>
        simp only [Option.map_some, KeyMeaning.slot, Json.erase_scalar]
        exact scalar_erase hoperator value
    | relationship relationship =>
      cases hmarker : reading.marker with
      | none =>
        refine quantified_erase (fun link => hfilter link.target.element) Filter.erase_related
          (fun target found htarget hfound => ?_) value
        simp [htarget, Link.meaning?, hfound, KeyMeaning.slot]
      | some marker =>
        cases marker with
        | connection =>
          refine quantified_erase hconnection Filter.erase_connected
            (fun target found htarget hfound => ?_) value
          simp [htarget, Link.meaning?, hfound, KeyMeaning.slot]
        | aggregate =>
          cases hoperator : reading.operator with
          | some operator => rfl
          | none =>
            refine aggregated_erase haggregate (fun target htarget => ?_) value
            simp [htarget, Link.meaning?, KeyMeaning.slot]

/-- Reading an entry of a connection filter commutes with erasing. -/
theorem connectionEntry_erase
    (hfilter : ∀ element path value,
      filter element path (value.erase schema (.nested (.element element))) =
        (filter element path value).map Filter.erase)
    (link : Link) (path : KeyPath) (key : String) (value : Json) :
    connectionEntry filter link path key
        (value.erase schema ((Place.connection link).keySlot schema key)) =
      (connectionEntry filter link path key value).map ConnectionFilter.erase := by
  have hside (s : Side) (make : Filter → ConnectionFilter)
      (hmake : ∀ f, (make f).erase = make f.erase) :
      (filter (link.element s) path
          (value.erase schema (.nested (.element (link.element s))))).map make =
        ((filter (link.element s) path value).map make).map ConnectionFilter.erase := by
    rw [hfilter]
    cases filter (link.element s) path value <;> simp [Except.map, hmake]
  unfold connectionEntry
  split
  · exact hside .node (.node false) fun f => by rw [ConnectionFilter.erase]
  · exact hside .node (.node true) fun f => by rw [ConnectionFilter.erase]
  · exact hside .edge (.edge false) fun f => by rw [ConnectionFilter.erase]
  · exact hside .edge (.edge true) fun f => by rw [ConnectionFilter.erase]
  · rfl

/-- Reading an entry of one side of an aggregate filter commutes with erasing. -/
theorem sideEntry_erase (s : Side) (element : Element) (path : KeyPath) (key : String)
    (value : Json) :
    sideEntry s element path key (value.erase schema ((Place.side element).keySlot schema key)) =
      (sideEntry s element path key value).map AggregateFilter.erase := by
  unfold sideEntry
  cases hkey : FilterKey.aggregate? key with
  | none => rfl
  | some parsed =>
    cases hfield : element.field? parsed.field with
    | none => simp [hfield, Except.map]
    | some field =>
      cases hscalar : field.scalar? with
      | none => simp [hfield, hscalar, Except.map]
      | some scalar =>
        simp only [hfield, hscalar]
        split
        · simp [Place.keySlot, hkey, Except.map, AggregateFilter.erase]
        · rfl

/-- Reading an entry of an aggregate filter commutes with erasing. -/
theorem aggregateEntry_erase
    {side : Side → Element → KeyPath → Json → FilterResult AggregateFilter}
    (hside : ∀ s element path value,
      side s element path (value.erase schema (.nested (.side element))) =
        (side s element path value).map AggregateFilter.erase)
    (link : Link) (path : KeyPath) (key : String) (value : Json) :
    aggregateEntry side link path key
        (value.erase schema ((Place.aggregate link).keySlot schema key)) =
      (aggregateEntry side link path key value).map AggregateFilter.erase := by
  unfold aggregateEntry
  split
  next hnode =>
    simpa [hnode, Place.keySlot, Side.ofWord?, Link.element] using hside .node _ path value
  next hnode =>
    split
    next hedge =>
      simpa [hedge, Place.keySlot, Side.ofWord?, Link.element] using hside .edge _ path value
    next hedge =>
      cases hcount : FilterKey.count? key with
      | none => rfl
      | some comparison =>
        simp [Place.keySlot, sideOfWord?_eq_none hnode hedge, hcount, Except.map,
          AggregateFilter.erase]

end Entries

section Budgets

variable {schema : Schema} {limit : Nat}

/-- A filter on one side is read erased from the erased value, whatever the budget. -/
theorem side_erase (budget : Nat) (s : Side) (element : Element) (path : KeyPath) (value : Json) :
    side limit s element budget path (value.erase schema (.nested (.side element))) =
      (side limit s element budget path value).map AggregateFilter.erase := by
  induction budget generalizing path value with
  | zero => rfl
  | succ budget ih =>
    exact object_erase AggregateFilter.erase_join ih (sideEntry_erase s element) path value

/-- An aggregate filter is read erased from the erased value, whatever the budget. -/
theorem aggregate_erase (budget : Nat) (link : Link) (path : KeyPath) (value : Json) :
    aggregate limit link budget path (value.erase schema (.nested (.aggregate link))) =
      (aggregate limit link budget path value).map AggregateFilter.erase := by
  induction budget generalizing path value with
  | zero => rfl
  | succ budget ih =>
    exact object_erase AggregateFilter.erase_join ih
      (aggregateEntry_erase (fun s element => side_erase budget s element) link) path value

/-- Reading filters on elements and on connections commutes with erasing. -/
theorem erase_of_budget (budget : Nat) :
    (∀ element path value,
      filter schema limit budget element path (value.erase schema (.nested (.element element))) =
        (filter schema limit budget element path value).map Filter.erase) ∧
    (∀ link path value,
      connection schema limit budget link path (value.erase schema (.nested (.connection link))) =
        (connection schema limit budget link path value).map ConnectionFilter.erase) := by
  induction budget with
  | zero => exact ⟨fun _ _ _ => rfl, fun _ _ _ => rfl⟩
  | succ budget ih =>
    obtain ⟨hfilter, hconnection⟩ := ih
    constructor
    · intro element path value
      rw [filter]
      exact object_erase Filter.erase_join (hfilter element)
        (entry_erase hfilter hconnection (aggregate_erase budget) element) path value
    · intro link path value
      rw [connection]
      exact object_erase ConnectionFilter.erase_join (hconnection link)
        (connectionEntry_erase hfilter link) path value

end Budgets

end FilterReader

/-- An erased filter is read as the filter, erased. -/
theorem Filter.read_erase (schema : Schema) (limit : Nat) (element : Element) (path : KeyPath)
    (value : Json) :
    Filter.read schema limit element path (value.erase schema (.nested (.element element))) =
      (Filter.read schema limit element path value).map Filter.erase :=
  (FilterReader.erase_of_budget (limit + 1)).1 element path value

/-- An erased filter on a connection is read as the filter, erased. -/
theorem ConnectionFilter.read_erase (schema : Schema) (limit : Nat) (link : Link)
    (path : KeyPath) (value : Json) :
    ConnectionFilter.read schema limit link path
        (value.erase schema (.nested (.connection link))) =
      (ConnectionFilter.read schema limit link path value).map ConnectionFilter.erase :=
  (FilterReader.erase_of_budget (limit + 1)).2 link path value

/-- The exchange that forgets the values of parameters and the numbers of rows. -/
def Relabelling.forget : Relabelling where
  var := id
  param p := ⟨p.identity, .null⟩
  count _ := 0
  injective h := h
  name _ := rfl
  kind _ := rfl

namespace Predicate

open Relabelling (forget)

/-- Relabelling predicates in a row relabels each. -/
theorem relabelAll_eq_map (f : Relabelling) (parts : List Predicate) :
    relabelAll f parts = parts.map (relabel f) := by
  induction parts with
  | nil => rfl
  | cons p rest ih => simp [relabelAll, ih]

/-- Relabelling what may be absent relabels it if it is there. -/
theorem relabelOptional_eq_map (f : Relabelling) (p : Option Predicate) :
    relabelOptional f p = p.map (relabel f) := by
  cases p <;> simp [relabelOptional]

/-- A combination is relabelled part by part. -/
theorem map_combine (f : Relabelling) {wrap : List Predicate → Predicate}
    (hwrap : ∀ parts, (wrap parts).relabel f = wrap (parts.map (relabel f)))
    (parts : List (Option Predicate)) :
    (combine wrap parts).map (relabel f) = combine wrap (parts.map (Option.map (relabel f))) := by
  have hparts : (parts.map (Option.map (relabel f))).filterMap id =
      (parts.filterMap id).map (relabel f) := by
    induction parts with
    | nil => rfl
    | cons part rest ih =>
      cases part with
      | none => exact ih
      | some p => exact congrArg (p.relabel f :: ·) ih
  unfold combine
  rw [hparts]
  match parts.filterMap id with
  | [] => rfl
  | [_] => rfl
  | first :: second :: rest => exact congrArg some (hwrap (first :: second :: rest))

/-- Relabelling a conjunction relabels its parts. -/
theorem map_allOf (f : Relabelling) (parts : List (Option Predicate)) :
    (allOf parts).map (relabel f) = allOf (parts.map (Option.map (relabel f))) :=
  map_combine f (fun parts => by rw [relabel, relabelAll_eq_map]) parts

/-- Relabelling a disjunction relabels its parts. -/
theorem map_anyOf (f : Relabelling) (parts : List (Option Predicate)) :
    (anyOf parts).map (relabel f) = anyOf (parts.map (Option.map (relabel f))) :=
  map_combine f (fun parts => by rw [relabel, relabelAll_eq_map]) parts

end Predicate

/-- Two computations take the same identities and give the same result up to what is forgotten. -/
def Fresh.Alike {α γ : Type} (view : α → γ) (first second : Fresh α) : Prop :=
  ∀ next, (first.run next).2 = (second.run next).2 ∧
    view (first.run next).1 = view (second.run next).1

namespace Fresh.Alike

variable {α β γ δ : Type} {view : α → γ} {view' : β → δ}

/-- A computation is like itself. -/
theorem refl (view : α → γ) (step : Fresh α) : Alike view step step := by
  intro next
  exact ⟨rfl, rfl⟩

/-- Results that look the same are alike. -/
theorem pure {a b : α} (h : view a = view b) :
    Alike view (Pure.pure a : Fresh α) (Pure.pure b) := by
  intro next
  exact ⟨rfl, h⟩

/-- Alike computations are continued alike. The second ones start from the same identity, with
results that look the same. -/
theorem bind {first second : Fresh α} {next next' : α → Fresh β}
    (h : Alike view first second)
    (hnext : ∀ a b, view a = view b → Alike view' (next a) (next' b)) :
    Alike view' (first >>= next) (second >>= next') := by
  intro start
  obtain ⟨hlast, hview⟩ := h start
  have hrest := hnext _ _ hview (first.run start).2
  rw [hlast] at hrest
  show ((next (first.run start).1).run (first.run start).2).2 =
      ((next' (second.run start).1).run (second.run start).2).2 ∧
    view' ((next (first.run start).1).run (first.run start).2).1 =
      view' ((next' (second.run start).1).run (second.run start).2).1
  rw [hlast]
  exact hrest

/-- New parameters for any two values are alike. -/
theorem param (value value' : Json) :
    Alike Relabelling.forget.param (Fresh.param value) (Fresh.param value') := by
  intro next
  exact ⟨rfl, rfl⟩

end Fresh.Alike

namespace Predicate

open Relabelling (forget)

variable {pattern : Pattern} {inner inner' : Option Predicate}

/-- The predicate without the values of its parameters, if there is one. -/
def view (p : Option Predicate) : Option Predicate := p.map (relabel forget)

/-- Relabelling a test for some match relabels its pattern and its condition. -/
theorem relabel_someMatch (f : Relabelling) (pattern : Pattern) (inner : Option Predicate) :
    (someMatch pattern inner).relabel f =
      someMatch (pattern.relabel f) (inner.map (relabel f)) := by
  cases inner <;>
    simp [someMatch, relabel, Statement.relabel, Statement.relabelAll, relabelAll]

/-- Alike conditions make alike quantified predicates. -/
theorem alike_quantified (h : view inner = view inner') (quantifier : Quantifier) :
    Fresh.Alike (relabel forget) (quantified pattern inner quantifier)
      (quantified pattern inner' quantifier) := by
  unfold view at h
  cases quantifier with
  | any => exact .pure (by rw [relabel_someMatch, relabel_someMatch, h])
  | no => exact .pure (by rw [relabel, relabel, relabel_someMatch, relabel_someMatch, h])
  | every =>
    cases inner with
    | none =>
      obtain rfl : inner' = none := by simpa using h.symm
      exact .refl _ _
    | some p =>
      obtain ⟨p', rfl, hp⟩ := Option.map_eq_some_iff.mp h.symm
      refine .pure ?_
      simp only [relabel, relabelAll, relabel_someMatch, Option.map_some, hp]
  | one =>
    refine .bind (.refl id _) fun v w hv => ?_
    obtain rfl : v = w := hv
    refine .pure ?_
    simp only [relabel, Expr.relabel, relabelOptional_eq_map, h]

/-- Negation keeps what is alike. -/
theorem view_negatedIf (negated : Bool) {p q : Option Predicate} (h : view p = view q) :
    view (if negated then p.map .not else p) = view (if negated then q.map .not else q) := by
  have hnot (p : Option Predicate) : view (p.map .not) = (view p).map .not := by
    cases p <;> simp [view, relabel]
  cases negated with
  | false => exact h
  | true => exact (hnot p).trans ((congrArg _ h).trans (hnot q).symm)

/-- A test on a property looks the same for a blank as for the value, apart from the value. -/
theorem alike_ofProperty (target : Variable) (property : String)
    (operator : Option FilterOperator) (value : Json) :
    Fresh.Alike (relabel forget) (ofProperty target property operator (value.blank operator))
      (ofProperty target property operator value) := by
  unfold ofProperty
  rw [Json.isNull_blank]
  cases value.isNull with
  | true => exact .refl _ _
  | false =>
    refine .bind (.param _ value) fun p q hpq => .pure ?_
    cases operator with
    | none => simp [ofOperator, binary, relabel, Expr.relabel, Expr.relabelOptional, hpq]
    | some operator =>
      cases operator <;>
        simp [ofOperator, binary, relabel, Expr.relabel, Expr.relabelOptional, hpq]

end Predicate

open Predicate (view)

mutual
/-- The aggregates of an erased filter are the same, and the conditions are alike. -/
theorem AggregateFilter.alike_predicate (related edge : Variable) (f : AggregateFilter) :
    Fresh.Alike (fun result => (result.1, view result.2)) (f.erase.predicate related edge)
      (f.predicate related edge) := by
  cases f with
  | all parts =>
    rw [AggregateFilter.erase, AggregateFilter.predicate, AggregateFilter.predicate]
    refine .bind (AggregateFilter.alike_predicates related edge parts) fun first second h => ?_
    obtain ⟨hitems, hparts⟩ := Prod.mk.inj h
    refine .pure (Prod.ext hitems ?_)
    show (Predicate.allOf first.2).map _ = (Predicate.allOf second.2).map _
    rw [Predicate.map_allOf, Predicate.map_allOf]
    exact congrArg Predicate.allOf hparts
  | any parts =>
    rw [AggregateFilter.erase, AggregateFilter.predicate, AggregateFilter.predicate]
    refine .bind (AggregateFilter.alike_predicates related edge parts) fun first second h => ?_
    obtain ⟨hitems, hparts⟩ := Prod.mk.inj h
    refine .pure (Prod.ext hitems ?_)
    show (Predicate.anyOf first.2).map _ = (Predicate.anyOf second.2).map _
    rw [Predicate.map_anyOf, Predicate.map_anyOf]
    exact congrArg Predicate.anyOf hparts
  | test aggregate comparison value =>
    rw [AggregateFilter.erase, AggregateFilter.predicate, AggregateFilter.predicate]
    refine .bind (.refl id _) fun v w hv => ?_
    obtain rfl : v = w := hv
    refine .bind (.param _ value) fun p q hpq => .pure ?_
    simp [view, Predicate.binary, Predicate.relabel, Expr.relabel, Expr.relabelOptional, hpq]
termination_by structural f

/-- The same for several filters. -/
theorem AggregateFilter.alike_predicates (related edge : Variable) (fs : List AggregateFilter) :
    Fresh.Alike (fun result => (result.1, result.2.map view))
        (AggregateFilter.predicates related edge (AggregateFilter.eraseAll fs))
        (AggregateFilter.predicates related edge fs) := by
  cases fs with
  | nil => exact .refl _ _
  | cons f rest =>
    rw [AggregateFilter.eraseAll, AggregateFilter.predicates, AggregateFilter.predicates]
    refine .bind (AggregateFilter.alike_predicate related edge f) fun first second h => ?_
    refine .bind (AggregateFilter.alike_predicates related edge rest)
      fun others others' hothers => ?_
    obtain ⟨hitems, hpart⟩ := Prod.mk.inj h
    obtain ⟨hitems', hparts⟩ := Prod.mk.inj hothers
    refine .pure ?_
    simp only [hitems, hitems', List.map_cons, hpart, hparts]
termination_by structural fs
end

/-- The subquery of an erased aggregate filter looks the same, apart from its values. -/
theorem AggregateFilter.alike_subquery (link : Link) (source : Variable) (f : AggregateFilter) :
    Fresh.Alike view (f.erase.subquery link source) (f.subquery link source) := by
  refine .bind (.refl id _) fun related w hrelated => ?_
  obtain rfl : related = w := hrelated
  refine .bind (.refl id _) fun edge w hedge => ?_
  obtain rfl : edge = w := hedge
  refine .bind (f.alike_predicate related edge) fun first second h => .pure ?_
  obtain ⟨hitems, hcondition⟩ := Prod.mk.inj h
  obtain ⟨items, condition⟩ := first
  obtain ⟨items', condition'⟩ := second
  obtain rfl : items = items' := hitems
  have hwrap (c : Option Predicate) : view (c.map fun c =>
      .exist (.matching false (link.pattern source (some edge) related)
        [.passing false items [.filtering [c]]])) =
      (view c).map fun c =>
        .exist (.matching false ((link.pattern source (some edge) related).relabel .forget)
          [.passing false (Item.relabelAll .forget items) [.filtering [c]]]) := by
    cases c <;>
      simp [view, Predicate.relabel, Statement.relabel, Statement.relabelAll, Predicate.relabelAll]
  exact (hwrap condition).trans ((congrArg _ hcondition).trans (hwrap condition').symm)

mutual
/-- The predicate of an erased filter is alike. -/
theorem Filter.alike_predicate (target : Variable) (f : Filter) :
    Fresh.Alike view (f.erase.predicate target) (f.predicate target) := by
  match f with
  | .all parts =>
    rw [Filter.erase, Filter.predicate, Filter.predicate]
    refine .bind (Filter.alike_predicates target parts) fun first second h => .pure ?_
    exact (Predicate.map_allOf ..).trans
      ((congrArg Predicate.allOf h).trans (Predicate.map_allOf ..).symm)
  | .any parts =>
    rw [Filter.erase, Filter.predicate, Filter.predicate]
    refine .bind (Filter.alike_predicates target parts) fun first second h => .pure ?_
    exact (Predicate.map_anyOf ..).trans
      ((congrArg Predicate.anyOf h).trans (Predicate.map_anyOf ..).symm)
  | .property property operator value =>
    rw [Filter.erase, Filter.predicate, Filter.predicate]
    refine .bind (Predicate.alike_ofProperty target property operator value)
      fun p q hpq => .pure ?_
    exact congrArg some hpq
  | .related link quantifier none =>
    rw [Filter.erase]
    exact .refl _ _
  | .related link quantifier (some inner) =>
    rw [Filter.erase, Filter.predicate, Filter.predicate]
    -- Both computations hand out the same variable, so that the inner filters share their target.
    refine .bind (.refl id _) fun related w hrelated => ?_
    obtain rfl : related = w := hrelated
    refine .bind (Filter.alike_predicate related inner) fun first second h => ?_
    refine .bind (Predicate.alike_quantified h quantifier) fun p q hpq => .pure ?_
    exact congrArg some hpq
  | .connected link quantifier none =>
    rw [Filter.erase]
    exact .refl _ _
  | .connected link quantifier (some inner) =>
    rw [Filter.erase, Filter.predicate, Filter.predicate]
    refine .bind (.refl id _) fun related w hrelated => ?_
    obtain rfl : related = w := hrelated
    refine .bind (.refl id _) fun edge w hedge => ?_
    obtain rfl : edge = w := hedge
    refine .bind (ConnectionFilter.alike_predicate related edge inner) fun first second h => ?_
    refine .bind (Predicate.alike_quantified h quantifier) fun p q hpq => .pure ?_
    exact congrArg some hpq
  | .aggregated link inner =>
    rw [Filter.erase, Filter.predicate, Filter.predicate]
    exact inner.alike_subquery link target
termination_by structural f

/-- The predicates of erased filters are alike. -/
theorem Filter.alike_predicates (target : Variable) (fs : List Filter) :
    Fresh.Alike (List.map view) (Filter.predicates target (Filter.eraseAll fs))
      (Filter.predicates target fs) := by
  cases fs with
  | nil => exact .refl _ _
  | cons f rest =>
    rw [Filter.eraseAll, Filter.predicates, Filter.predicates]
    refine .bind (Filter.alike_predicate target f) fun first second h => ?_
    refine .bind (Filter.alike_predicates target rest) fun others others' hothers => .pure ?_
    rw [List.map_cons, List.map_cons, h, hothers]
termination_by structural fs

/-- The predicate of an erased filter on a connection is alike. -/
theorem ConnectionFilter.alike_predicate (related edge : Variable) (f : ConnectionFilter) :
    Fresh.Alike view (f.erase.predicate related edge) (f.predicate related edge) := by
  cases f with
  | all parts =>
    rw [ConnectionFilter.erase, ConnectionFilter.predicate, ConnectionFilter.predicate]
    refine .bind (ConnectionFilter.alike_predicates related edge parts)
      fun first second h => .pure ?_
    exact (Predicate.map_allOf ..).trans
      ((congrArg Predicate.allOf h).trans (Predicate.map_allOf ..).symm)
  | any parts =>
    rw [ConnectionFilter.erase, ConnectionFilter.predicate, ConnectionFilter.predicate]
    refine .bind (ConnectionFilter.alike_predicates related edge parts)
      fun first second h => .pure ?_
    exact (Predicate.map_anyOf ..).trans
      ((congrArg Predicate.anyOf h).trans (Predicate.map_anyOf ..).symm)
  | node negated filter =>
    rw [ConnectionFilter.erase, ConnectionFilter.predicate, ConnectionFilter.predicate]
    exact .bind (Filter.alike_predicate related filter)
      fun first second h => .pure (Predicate.view_negatedIf negated h)
  | edge negated filter =>
    rw [ConnectionFilter.erase, ConnectionFilter.predicate, ConnectionFilter.predicate]
    exact .bind (Filter.alike_predicate edge filter)
      fun first second h => .pure (Predicate.view_negatedIf negated h)
termination_by structural f

/-- The predicates of erased filters on a connection are alike. -/
theorem ConnectionFilter.alike_predicates (related edge : Variable) (fs : List ConnectionFilter) :
    Fresh.Alike (List.map view)
        (ConnectionFilter.predicates related edge (ConnectionFilter.eraseAll fs))
        (ConnectionFilter.predicates related edge fs) := by
  cases fs with
  | nil => exact .refl _ _
  | cons f rest =>
    rw [ConnectionFilter.eraseAll, ConnectionFilter.predicates, ConnectionFilter.predicates]
    refine .bind (ConnectionFilter.alike_predicate related edge f) fun first second h => ?_
    refine .bind (ConnectionFilter.alike_predicates related edge rest)
      fun others others' hothers => .pure ?_
    rw [List.map_cons, List.map_cons, h, hothers]
termination_by structural fs
end

end GraphRead
