import GraphRead.Filter.Reader
import GraphRead.Read.Request
import Mathlib.Data.List.Forall2

/-!
# Places in a filter

What a value inside a filter stands for depends on the keys that lead to it. A
place says how an object there is read, and a schema says for every key what
stands under it. The reader of filters is then inverted: a filter that it
accepts has been read entry by entry, each as the place says.
-/

namespace GraphRead

/-- What a key says in a filter on an element. -/
inductive KeyMeaning where
  | scalar (property : String) (operator : Option FilterOperator)
  | related (link : Link) (quantifier : Quantifier)
  | connected (link : Link) (quantifier : Quantifier)
  | aggregated (link : Link)

/-- The operator after the name of a scalar field. -/
def FilterOperator.ofKey? : Option String → Option (Option FilterOperator)
  | none => some none
  | some suffix => (FilterOperator.ofSuffix? suffix).map some

/-- The quantifier after the name of a relationship field. -/
def Quantifier.ofKey? : Option String → Option Quantifier
  | none => some .any
  | some suffix => Quantifier.ofSuffix? suffix

/-- What a relationship key says, given its marker and its operator. -/
def Link.meaning? (link : Link) : Option Marker → Option String → Option KeyMeaning
  | none, operator => (Quantifier.ofKey? operator).map (.related link)
  | some .connection, operator => (Quantifier.ofKey? operator).map (.connected link)
  | some .aggregate, none => some (.aggregated link)
  | some .aggregate, some _ => none

/-- What a key says in a filter on an element, if it says anything. -/
def Element.meaning? (schema : Schema) (element : Element) (key : String) : Option KeyMeaning :=
  (FilterReader.resolve? element key).bind fun (reading, field) =>
    match field.kind with
    | .scalar _ => (FilterOperator.ofKey? reading.operator).map (.scalar field.property)
    | .relationship relationship =>
      (schema.node? relationship.target).bind fun target =>
        Link.meaning? ⟨field.name, relationship, target⟩ reading.marker reading.operator

/-- The side of a connection that a key is about, and whether its filter is denied. -/
def connectionPart? : String → Option (Side × Bool)
  | "node" => some (.node, false)
  | "node_NOT" => some (.node, true)
  | "edge" => some (.edge, false)
  | "edge_NOT" => some (.edge, true)
  | _ => none

/-- The element on a side of a link. -/
def Link.element (link : Link) : Side → Element
  | .node => link.target.element
  | .edge => link.relationship.element

/-- How an object inside a filter is read. -/
inductive Place where
  | element (element : Element)
  | connection (link : Link)
  | aggregate (link : Link)
  /-- One side of an aggregate filter. -/
  | side (element : Element)

/-- What stands under a key. -/
inductive Slot where
  /-- A value that a stored property is compared to. -/
  | scalar (operator : Option FilterOperator)
  /-- A value that an aggregate is compared to. -/
  | comparison
  | nested (place : Place)
  | unknown

/-- What stands under a key that says something. -/
def KeyMeaning.slot : KeyMeaning → Slot
  | .scalar _ operator => .scalar operator
  | .related link _ => .nested (.element link.target.element)
  | .connected link _ => .nested (.connection link)
  | .aggregated link => .nested (.aggregate link)

/-- What stands under a key at a place, apart from junction keys. -/
def Place.keySlot (schema : Schema) : Place → String → Slot
  | .element e, key =>
    match e.meaning? schema key with
    | some meaning => meaning.slot
    | none => .unknown
  | .connection link, key =>
    match connectionPart? key with
    | some (s, _) => .nested (.element (link.element s))
    | none => .unknown
  | .aggregate link, key =>
    match Side.ofWord? key with
    | some s => .nested (.side (link.element s))
    | none => if (FilterKey.count? key).isSome then .comparison else .unknown
  | .side _, key => if (FilterKey.aggregate? key).isSome then .comparison else .unknown

/-- What stands under a key at a place. Under a junction key there is a list of further objects
that are read as the one around it. -/
def Place.slot (schema : Schema) (place : Place) (key : String) : Slot :=
  if (Junction.ofKey? key).isSome then .nested place else place.keySlot schema key

/-- Under a junction stands what stands at the place itself. -/
theorem Place.slot_junction {key : String} {junction : Junction}
    (h : Junction.ofKey? key = some junction) (schema : Schema) (place : Place) :
    place.slot schema key = .nested place := by
  simp [slot, h]

/-- Under any other key stands what the place says about the key. -/
theorem Place.slot_other {key : String} (h : Junction.ofKey? key = none) (schema : Schema)
    (place : Place) : place.slot schema key = place.keySlot schema key := by
  simp [slot, h]

/-- A node that is found is registered. -/
theorem Schema.node?_of_node {schema : Schema} {name : String} {node : Node}
    (h : schema.node name = .ok node) : schema.node? name = some node := by
  unfold Schema.node at h
  split at h
  next found hfound => rw [hfound, Except.ok.inj h]
  next => simp at h

namespace FilterKey

/-- What a split accepts is what follows the part before it. -/
theorem eq_append_of_shortestSplit {β : Type} {accept : List Char → Option β}
    {text before : List Char} {b : β} (h : shortestSplit accept text = some (before, b)) :
    before ≠ [] ∧ ∃ rest, text = before ++ rest ∧ accept rest = some b := by
  induction text generalizing before with
  | nil => simp [shortestSplit] at h
  | cons c rest ih =>
    simp only [shortestSplit] at h
    cases haccept : accept rest with
    | some found =>
      simp only [haccept, Option.some.injEq, Prod.mk.injEq] at h
      obtain ⟨rfl, rfl⟩ := h
      exact ⟨List.cons_ne_nil _ _, rest, rfl, haccept⟩
    | none =>
      simp only [haccept, Option.map_eq_some_iff] at h
      obtain ⟨⟨before', b'⟩, hsplit, heq⟩ := h
      obtain ⟨rfl, rfl⟩ := Prod.mk.inj heq
      obtain ⟨-, rest', rfl, hrest⟩ := ih hsplit
      exact ⟨List.cons_ne_nil _ _, rest', rfl, hrest⟩

/-- Aggregates are compared to a value. -/
theorem isUnary_of_mem_comparisons {word : String} {c : Comparison}
    (h : (word, c) ∈ comparisons) : c.isUnary = false := by
  have hall : ∀ entry ∈ comparisons, entry.2.isUnary = false := by decide
  exact hall _ h

/-- The count is compared with a value. -/
theorem isUnary_of_count? {key : String} {c : Comparison} (h : count? key = some c) :
    c.isUnary = false := by
  unfold count? at h
  split at h
  · obtain rfl := Option.some.inj h
    rfl
  · obtain ⟨⟨word, found⟩, hmem, heq⟩ := List.exists_of_findSome?_eq_some h
    simp only [Option.ite_none_right_eq_some, Option.some.injEq] at heq
    obtain ⟨-, rfl⟩ := heq
    exact isUnary_of_mem_comparisons (List.mem_cons_of_mem _ hmem)

/-- An aggregate is compared with a value. -/
theorem isUnary_of_aggregate? {key : String} {parsed : AggregateKey}
    (h : aggregate? key = some parsed) : parsed.comparison.isUnary = false := by
  unfold aggregate? at h
  split at h
  · obtain ⟨⟨field, function, comparison⟩, hsplit, rfl⟩ := Option.map_eq_some_iff.mp h
    obtain ⟨-, rest, -, haccept⟩ := eq_append_of_shortestSplit hsplit
    obtain ⟨⟨word, f⟩, -, haccept⟩ := List.exists_of_findSome?_eq_some haccept
    obtain ⟨⟨word', c⟩, hmem, heq⟩ := List.exists_of_findSome?_eq_some haccept
    simp only [Option.ite_none_right_eq_some, Option.some.injEq, Prod.mk.injEq] at heq
    obtain ⟨-, -, rfl⟩ := heq
    exact isUnary_of_mem_comparisons hmem
  · simp at h

end FilterKey

namespace FilterReader

section Objects

variable {β : Type} {join : Junction → List β → β} {member : KeyPath → Json → FilterResult β}
  {entry : KeyPath → String → Json → FilterResult β}

/-- A part has been read from an entry of an object. -/
inductive EntryRead (join : Junction → List β → β) (member : KeyPath → Json → FilterResult β)
    (entry : KeyPath → String → Json → FilterResult β) : String × Json → β → Prop where
  | junction {key : String} {junction : Junction} {items : List Json} {parts : List β}
    (hkey : Junction.ofKey? key = some junction)
    (hparts : List.Forall₂ (fun item part => ∃ path, member path item = .ok part) items parts) :
    EntryRead join member entry (key, .array items) (join junction parts)
  | other {key : String} {value : Json} {part : β} {path : KeyPath}
    (hkey : Junction.ofKey? key = none) (hpart : entry path key value = .ok part) :
    EntryRead join member entry (key, value) part

/-- A successful step of an `Except` computation. -/
theorem bind_eq_ok {ε α γ : Type} {first : Except ε α} {next : α → Except ε γ} {result : γ}
    (h : (first >>= next) = .ok result) : ∃ a, first = .ok a ∧ next a = .ok result := by
  cases first with
  | error error => simp [bind, Except.bind] at h
  | ok a => exact ⟨a, rfl, h⟩

/-- Members that are read are read one by one. -/
theorem forall₂_of_members {path : KeyPath} {index : Nat} {items : List Json} {parts : List β}
    (h : members member path index items = .ok parts) :
    List.Forall₂ (fun item part => ∃ path, member path item = .ok part) items parts := by
  induction items generalizing index parts with
  | nil =>
    simp only [members, Except.ok.injEq] at h
    exact h ▸ .nil
  | cons item rest ih =>
    obtain ⟨first, hfirst, h⟩ := bind_eq_ok h
    obtain ⟨others, hothers, h⟩ := bind_eq_ok h
    obtain rfl : first :: others = parts := Except.ok.inj h
    exact .cons ⟨_, hfirst⟩ (ih hothers)

/-- A list of objects is an array. -/
theorem eq_array_of_objects {path : KeyPath} {value : Json} {items : List Json}
    (h : objects path value = .ok items) : value = .array items := by
  cases value with
  | array _ =>
    obtain ⟨-, -, h⟩ := bind_eq_ok h
    rw [← Except.ok.inj h]
  | _ => simp [objects] at h

/-- Entries that are read are read one by one. -/
theorem forall₂_of_entries {path : KeyPath} {pairs : List (String × Json)} {parts : List β}
    (h : entries join member entry path pairs = .ok parts) :
    List.Forall₂ (EntryRead join member entry) pairs parts := by
  induction pairs generalizing parts with
  | nil =>
    simp only [entries, Except.ok.injEq] at h
    exact h ▸ .nil
  | cons pair rest ih =>
    obtain ⟨key, value⟩ := pair
    cases hkey : Junction.ofKey? key with
    | none =>
      simp only [entries, hkey] at h
      obtain ⟨first, hfirst, h⟩ := bind_eq_ok h
      obtain ⟨others, hothers, h⟩ := bind_eq_ok h
      obtain rfl : first :: others = parts := Except.ok.inj h
      exact .cons (.other hkey hfirst) (ih hothers)
    | some junction =>
      simp only [entries, hkey] at h
      obtain ⟨items, hitems, h⟩ := bind_eq_ok h
      obtain ⟨inner, hinner, h⟩ := bind_eq_ok h
      obtain ⟨first, hfirst, h⟩ := bind_eq_ok h
      obtain ⟨others, hothers, h⟩ := bind_eq_ok h
      obtain rfl := eq_array_of_objects hitems
      obtain rfl : join junction inner = first := Except.ok.inj hfirst
      obtain rfl : join junction inner :: others = parts := Except.ok.inj h
      exact .cons (.junction hkey (forall₂_of_members hinner)) (ih hothers)

/-- An object that is read is read entry by entry. -/
theorem eq_object_of_object {path : KeyPath} {value : Json} {result : β}
    (h : object join member entry path value = .ok result) :
    ∃ pairs parts, value = .object pairs ∧ result = join .all parts ∧
      List.Forall₂ (EntryRead join member entry) pairs parts := by
  cases value with
  | object pairs =>
    obtain ⟨parts, hparts, h⟩ := bind_eq_ok h
    exact ⟨pairs, parts, rfl, (Except.ok.inj h).symm, forall₂_of_entries hparts⟩
  | _ => simp [object] at h

end Objects

/-- What is read unless it is null has been read, or was null. -/
theorem unlessNull_eq_ok {β : Type} {read : Json → FilterResult β} {value : Json}
    {result : Option β} (h : unlessNull read value = .ok result) :
    (value = .null ∧ result = none) ∨
      value.isNull = false ∧ ∃ b, read value = .ok b ∧ result = some b := by
  unfold unlessNull at h
  split at h
  next hnull =>
    refine .inl ⟨?_, (Except.ok.inj h).symm⟩
    cases value <;> simp_all [Json.isNull]
  next hnull =>
    cases hread : read value with
    | error error => simp [hread, Except.map] at h
    | ok b =>
      simp only [hread, Except.map, Except.ok.injEq] at h
      exact .inr ⟨Bool.eq_false_iff.mpr hnull, b, rfl, h.symm⟩

/-- A filter has been read from the value under a key that says something. -/
inductive Reads (filter : Element → KeyPath → Json → FilterResult Filter)
    (connection : Link → KeyPath → Json → FilterResult ConnectionFilter)
    (aggregate : Link → KeyPath → Json → FilterResult AggregateFilter) (path : KeyPath)
    (value : Json) : KeyMeaning → Filter → Prop where
  | scalar (property : String) (operator : Option FilterOperator) :
    Reads filter connection aggregate path value (.scalar property operator)
      (.property property operator value)
  | related {link : Link} {quantifier : Quantifier} {inner : Option Filter}
    (hinner : unlessNull (filter link.target.element path) value = .ok inner) :
    Reads filter connection aggregate path value (.related link quantifier)
      (.related link quantifier inner)
  | connected {link : Link} {quantifier : Quantifier} {inner : Option ConnectionFilter}
    (hinner : unlessNull (connection link path) value = .ok inner) :
    Reads filter connection aggregate path value (.connected link quantifier)
      (.connected link quantifier inner)
  | aggregated {link : Link} {inner : AggregateFilter}
    (hinner : aggregate link path value = .ok inner) :
    Reads filter connection aggregate path value (.aggregated link) (.aggregated link inner)

section Entries

variable {schema : Schema} {filter : Element → KeyPath → Json → FilterResult Filter}
  {connection : Link → KeyPath → Json → FilterResult ConnectionFilter}
  {aggregate : Link → KeyPath → Json → FilterResult AggregateFilter} {element : Element}
  {path : KeyPath} {key : String} {value : Json}

/-- An operator that is accepted is the one that its suffix says. -/
theorem ofKey?_of_scalarOperator {field : Field} {suffix : Option String}
    {operator : Option FilterOperator} (h : scalarOperator path field suffix = .ok operator) :
    FilterOperator.ofKey? suffix = some operator := by
  cases suffix with
  | none =>
    simp only [scalarOperator, Except.ok.injEq] at h
    simp [FilterOperator.ofKey?, h]
  | some suffix =>
    simp only [scalarOperator] at h
    cases hsuffix : FilterOperator.ofSuffix? suffix with
    | none => simp [hsuffix] at h
    | some found =>
      simp only [hsuffix] at h
      split at h
      · obtain rfl := Except.ok.inj h
        simp [FilterOperator.ofKey?, hsuffix]
      · simp at h

/-- A quantifier that is accepted is the one that its suffix says. -/
theorem ofKey?_of_quantifier {field : Field} {suffix : Option String} {result : Quantifier}
    (h : quantifier path field suffix = .ok result) : Quantifier.ofKey? suffix = some result := by
  cases suffix with
  | none =>
    simp only [quantifier, Except.ok.injEq] at h
    simp [Quantifier.ofKey?, h]
  | some suffix =>
    simp only [quantifier] at h
    cases hsuffix : Quantifier.ofSuffix? suffix with
    | none => simp [hsuffix] at h
    | some found =>
      simp only [hsuffix, Except.ok.injEq] at h
      simp [Quantifier.ofKey?, hsuffix, h]

/-- A link leads to the target of its relationship, which is in the schema. -/
theorem node?_of_link {field : Field} {relationship : Relationship} {result : Link}
    (h : link schema field relationship = .ok result) :
    ∃ target, schema.node? relationship.target = some target ∧
      result = ⟨field.name, relationship, target⟩ := by
  unfold link at h
  split at h
  next target htarget => exact ⟨target, Schema.node?_of_node htarget, (Except.ok.inj h).symm⟩
  next => simp at h

/-- An entry that is read is read as its key says. -/
theorem reads_of_entry {result : Filter}
    (h : entry schema filter connection aggregate element path key value = .ok result) :
    ∃ meaning, element.meaning? schema key = some meaning ∧
      Reads filter connection aggregate path value meaning result := by
  unfold entry at h
  cases hresolve : resolve? element key with
  | none => simp [hresolve] at h
  | some resolved =>
    obtain ⟨reading, field⟩ := resolved
    simp only [hresolve] at h
    unfold Element.meaning?
    simp only [hresolve, Option.bind_some]
    -- The branches of the reader are the cases of what a key means.
    cases hkind : field.kind with
    | scalar scalar =>
      simp only [hkind, FilterReader.scalar] at h
      obtain ⟨operator, hoperator, h⟩ := bind_eq_ok h
      split at h
      · simp at h
      · obtain rfl := Except.ok.inj h
        refine ⟨_, ?_, .scalar field.property operator⟩
        simp [ofKey?_of_scalarOperator hoperator]
    | relationship relationship =>
      cases hmarker : reading.marker with
      | none =>
        simp only [hkind, hmarker] at h
        obtain ⟨quantifier, hquantifier, h⟩ := bind_eq_ok h
        obtain ⟨link, hlink, h⟩ := bind_eq_ok h
        obtain ⟨inner, hinner, h⟩ := bind_eq_ok h
        obtain ⟨target, htarget, rfl⟩ := node?_of_link hlink
        obtain rfl := Except.ok.inj h
        refine ⟨_, ?_, .related hinner⟩
        simp [htarget, Link.meaning?, ofKey?_of_quantifier hquantifier]
      | some marker =>
        cases marker with
        | connection =>
          simp only [hkind, hmarker] at h
          obtain ⟨quantifier, hquantifier, h⟩ := bind_eq_ok h
          obtain ⟨link, hlink, h⟩ := bind_eq_ok h
          obtain ⟨inner, hinner, h⟩ := bind_eq_ok h
          obtain ⟨target, htarget, rfl⟩ := node?_of_link hlink
          obtain rfl := Except.ok.inj h
          refine ⟨_, ?_, .connected hinner⟩
          simp [htarget, Link.meaning?, ofKey?_of_quantifier hquantifier]
        | aggregate =>
          simp only [hkind, hmarker] at h
          cases hoperator : reading.operator with
          | some operator => simp [hoperator] at h
          | none =>
            simp only [hoperator] at h
            obtain ⟨link, hlink, h⟩ := bind_eq_ok h
            obtain ⟨inner, hinner, h⟩ := bind_eq_ok h
            obtain ⟨target, htarget, rfl⟩ := node?_of_link hlink
            obtain rfl := Except.ok.inj h
            refine ⟨_, ?_, .aggregated hinner⟩
            simp [htarget, Link.meaning?]

/-- The filter on a connection that a filter on one of its sides makes. -/
def ofSide (negated : Bool) (inner : Filter) : Side → ConnectionFilter
  | .node => .node negated inner
  | .edge => .edge negated inner

/-- An entry of a connection filter that is read is a filter on one of the sides. -/
theorem eq_ofSide_of_connectionEntry {link : Link} {result : ConnectionFilter}
    (h : connectionEntry filter link path key value = .ok result) :
    ∃ s negated inner, connectionPart? key = some (s, negated) ∧
      filter (link.element s) path value = .ok inner ∧ result = ofSide negated inner s := by
  have hmap {make : Filter → ConnectionFilter} {read : FilterResult Filter}
      (hread : read.map make = .ok result) : ∃ inner, read = .ok inner ∧ result = make inner := by
    cases read with
    | error error => simp [Except.map] at hread
    | ok inner => exact ⟨inner, rfl, (Except.ok.inj hread).symm⟩
  unfold connectionEntry at h
  split at h
  · obtain ⟨inner, hinner, rfl⟩ := hmap h
    exact ⟨.node, false, inner, rfl, hinner, rfl⟩
  · obtain ⟨inner, hinner, rfl⟩ := hmap h
    exact ⟨.node, true, inner, rfl, hinner, rfl⟩
  · obtain ⟨inner, hinner, rfl⟩ := hmap h
    exact ⟨.edge, false, inner, rfl, hinner, rfl⟩
  · obtain ⟨inner, hinner, rfl⟩ := hmap h
    exact ⟨.edge, true, inner, rfl, hinner, rfl⟩
  · simp at h

/-- The words of the sides are the only ones that stand for a side. -/
theorem sideOfWord?_eq_none {word : String} (hnode : word ≠ "node") (hedge : word ≠ "edge") :
    Side.ofWord? word = none := by
  unfold Side.ofWord?
  split <;> simp_all

/-- An entry of an aggregate filter that is read is a side or a test of the count. -/
theorem aggregateEntry_eq_ok
    {side : Side → Element → KeyPath → Json → FilterResult AggregateFilter} {link : Link}
    {result : AggregateFilter} (h : aggregateEntry side link path key value = .ok result) :
    (∃ s, Side.ofWord? key = some s ∧ side s (link.element s) path value = .ok result) ∨
      Side.ofWord? key = none ∧ ∃ comparison, FilterKey.count? key = some comparison ∧
        result = .test .count comparison value := by
  unfold aggregateEntry at h
  split at h
  next hnode => exact .inl ⟨.node, by simp [hnode, Side.ofWord?], h⟩
  next hnode =>
    split at h
    next hedge => exact .inl ⟨.edge, by simp [hedge, Side.ofWord?], h⟩
    next hedge =>
      refine .inr ⟨sideOfWord?_eq_none hnode hedge, ?_⟩
      cases hcount : FilterKey.count? key with
      | none => simp [hcount] at h
      | some comparison =>
        simp only [hcount, Except.ok.injEq] at h
        exact ⟨comparison, rfl, h.symm⟩

/-- An entry of one side of an aggregate filter that is read is a test. -/
theorem sideEntry_eq_ok {s : Side} {result : AggregateFilter}
    (h : sideEntry s element path key value = .ok result) :
    (FilterKey.aggregate? key).isSome ∧ ∃ aggregate comparison,
      comparison.isUnary = false ∧ result = .test aggregate comparison value := by
  unfold sideEntry at h
  cases hkey : FilterKey.aggregate? key with
  | none => simp [hkey] at h
  | some parsed =>
    refine ⟨rfl, ?_⟩
    cases hfield : element.field? parsed.field with
    | none => simp [hkey, hfield] at h
    | some field =>
      cases hscalar : field.scalar? with
      | none => simp [hkey, hfield, hscalar] at h
      | some scalar =>
        simp only [hkey, hfield, hscalar] at h
        split at h
        · exact ⟨_, _, FilterKey.isUnary_of_aggregate? hkey, (Except.ok.inj h).symm⟩
        · simp at h

end Entries

end FilterReader

end GraphRead
