import GraphRead.Proofs.Catalog.Consistency
import GraphRead.Proofs.Filter.Grammar

/-!
# Failures of filters

A filter can lead to other nodes, and those may lead on. If the schema is
consistent, all of them are registered, so that a filter is refused only for what
it says itself and never for the schema that it is read with.
-/

namespace GraphRead

namespace Schema

/-- Nothing leads on from scalars. -/
theorem Supports.of_scalars {schema : Schema} {fields : List Field}
    (h : ∀ field ∈ fields, ∃ scalar, field.kind = .scalar scalar) : schema.Supports fields := by
  intro field hfield relationship hkind
  obtain ⟨scalar, hscalar⟩ := h field hfield
  rw [hscalar] at hkind
  cases hkind

end Schema

/-- Both ends of a link can be followed. -/
structure Link.Supported (schema : Schema) (link : Link) : Prop where
  target : schema.Supports link.target.fields
  relationship : schema.Supports link.relationship.properties

/-- The links from fields that can be followed can be followed. -/
theorem Schema.Consistent.supported {schema : Schema} (h : schema.Consistent)
    {fields : List Field} (hfields : schema.Supports fields) {field : Field}
    (hfield : field ∈ fields) {relationship : Relationship}
    (hkind : field.kind = .relationship relationship) {target : Node}
    (htarget : schema.node? relationship.target = some target) :
    Link.Supported schema ⟨field.name, relationship, target⟩ where
  target := h target (Schema.mem_of_node? htarget)
  relationship := .of_scalars (hfields field hfield relationship hkind).2

namespace FilterReader

/-- A part of a filter is not refused because of the schema. -/
def SparesSchema {β : Type} (result : FilterResult β) : Prop :=
  ∀ cause, result ≠ .error (.schema cause)

namespace SparesSchema

section Results

variable {β γ : Type}

/-- A result spares the schema. -/
theorem ok (b : β) : SparesSchema (.ok b) := by
  intro cause h
  cases h

/-- Every other error spares the schema. -/
theorem error {reason : FilterError} (h : ∀ cause, reason ≠ .schema cause) :
    SparesSchema (.error reason : FilterResult β) := by
  intro cause heq
  exact h cause (Except.error.inj heq)

/-- The schema is spared by steps in a row, if each spares it. -/
theorem bind {first : FilterResult β} {next : β → FilterResult γ} (h : SparesSchema first)
    (hnext : ∀ b, first = .ok b → SparesSchema (next b)) : SparesSchema (first >>= next) := by
  cases first with
  | error reason =>
    intro cause heq
    exact h cause (congrArg Except.error (Except.error.inj heq))
  | ok b => exact hnext b rfl

/-- What is made of a result spares the schema, if the result does. -/
theorem map {first : FilterResult β} (h : SparesSchema first) (make : β → γ) :
    SparesSchema (first.map make) := by
  cases first with
  | error reason =>
    intro cause heq
    exact h cause (congrArg Except.error (Except.error.inj heq))
  | ok b => exact ok (make b)

/-- Where null is allowed, the schema is spared as it is by reading what is not null. -/
theorem unlessNull {read : Json → FilterResult β} {value : Json} (h : SparesSchema (read value)) :
    SparesSchema (unlessNull read value) := by
  unfold FilterReader.unlessNull
  split
  · exact ok none
  · exact h.map some

end Results

section Objects

variable {β : Type} {join : Junction → List β → β} {member : KeyPath → Json → FilterResult β}
  {entry : KeyPath → String → Json → FilterResult β}

/-- A member that is no object is no fault of the schema. -/
theorem checkObjects (path : KeyPath) (index : Nat) (items : List Json) :
    SparesSchema (checkObjects path index items) := by
  induction items generalizing index with
  | nil => exact ok ()
  | cons item rest ih =>
    unfold FilterReader.checkObjects
    split
    · exact ih (index + 1)
    · exact error (by simp)

/-- A junction without a list of objects is no fault of the schema. -/
theorem objects (path : KeyPath) (value : Json) : SparesSchema (objects path value) := by
  cases value with
  | array items => exact (checkObjects path 0 items).bind fun _ _ => ok items
  | _ => exact error (by simp)

/-- Reading the members of a list spares the schema, if reading each does. -/
theorem members (hmember : ∀ path value, SparesSchema (member path value)) (path : KeyPath)
    (index : Nat) (items : List Json) : SparesSchema (members member path index items) := by
  induction items generalizing index with
  | nil => exact ok []
  | cons item rest ih =>
    exact (hmember (path.index index) item).bind fun _ _ => (ih (index + 1)).bind fun _ _ => ok _

/-- Reading entries in a row spares the schema, if reading each does. -/
theorem entries (hmember : ∀ path value, SparesSchema (member path value))
    (hentry : ∀ path key value, SparesSchema (entry path key value)) (path : KeyPath)
    (pairs : List (String × Json)) : SparesSchema (entries join member entry path pairs) := by
  induction pairs with
  | nil => exact ok []
  | cons pair rest ih =>
    obtain ⟨key, value⟩ := pair
    unfold FilterReader.entries
    split
    · exact (objects _ value).bind fun items _ =>
        (members hmember _ 0 items).bind fun _ _ => ih.bind fun _ _ => ok _
    · exact (hentry _ key value).bind fun _ _ => ih.bind fun _ _ => ok _

/-- Reading an object spares the schema, if reading its entries and the members of its junctions
does. -/
theorem object (hmember : ∀ path value, SparesSchema (member path value))
    (hentry : ∀ path key value, SparesSchema (entry path key value)) (path : KeyPath)
    (value : Json) : SparesSchema (object join member entry path value) := by
  cases value with
  | object pairs => exact (entries hmember hentry path pairs).bind fun _ _ => ok _
  | _ => exact error (by simp)

end Objects

/-- A quantifier that does not exist is no fault of the schema. -/
theorem quantifier (path : KeyPath) (field : Field) (operator : Option String) :
    SparesSchema (quantifier path field operator) := by
  unfold FilterReader.quantifier
  split
  · exact ok _
  · split
    · exact ok _
    · exact error (by simp)

/-- An operator that a scalar does not have is no fault of the schema. -/
theorem scalarOperator (path : KeyPath) (field : Field) (suffix : Option String) :
    SparesSchema (scalarOperator path field suffix) := by
  unfold FilterReader.scalarOperator
  split
  · exact ok _
  · split
    · split
      · exact ok _
      · exact error (by simp)
    · exact error (by simp)

/-- A filter on a scalar spares the schema. -/
theorem scalar (path : KeyPath) (field : Field) (suffix : Option String) (value : Json) :
    SparesSchema (scalar path field suffix value) := by
  refine (scalarOperator path field suffix).bind fun operator _ => ?_
  split
  · exact error (by simp)
  · exact ok _

/-- A function that a side does not have is no fault of the schema. -/
theorem sideEntry (s : Side) (element : Element) (path : KeyPath) (key : String) (value : Json) :
    SparesSchema (sideEntry s element path key value) := by
  unfold FilterReader.sideEntry
  split
  · exact error (by simp)
  · split
    · exact error (by simp)
    · split
      · exact error (by simp)
      · split
        · exact ok _
        · exact error (by simp)

/-- A filter on one side follows no relationship, so that the schema is spared. -/
theorem side (limit : Nat) (s : Side) (element : Element) (budget : Nat) (path : KeyPath)
    (value : Json) : SparesSchema (side limit s element budget path value) := by
  induction budget generalizing path value with
  | zero => exact error (by simp)
  | succ budget ih => exact object ih (sideEntry s element) path value

/-- A filter on aggregates follows no further relationship, so that the schema is spared. -/
theorem aggregate (limit : Nat) (link : Link) (budget : Nat) (path : KeyPath) (value : Json) :
    SparesSchema (aggregate limit link budget path value) := by
  induction budget generalizing path value with
  | zero => exact error (by simp)
  | succ budget ih =>
    refine object ih (fun path key value => ?_) path value
    unfold aggregateEntry
    split
    · exact side limit .node _ budget path value
    · split
      · exact side limit .edge _ budget path value
      · split
        · exact ok _
        · exact error (by simp)

section Entries

variable {schema : Schema} {element : Element}

/-- A key is read of a field that the element has. -/
theorem mem_fields_of_resolve? {key : String} {reading : Reading} {field : Field}
    (h : resolve? element key = some (reading, field)) : field ∈ element.fields := by
  obtain ⟨tried, -, htried⟩ := List.exists_of_findSome?_eq_some h
  obtain ⟨-, hnames⟩ := named?_eq_some_iff.mp htried
  exact List.mem_of_find?_eq_some hnames.1

/-- A relationship field that can be followed has a link, from which reading goes on. -/
theorem link_bind {β : Type} (hconsistent : schema.Consistent)
    (helement : schema.Supports element.fields) {field : Field} (hfield : field ∈ element.fields)
    {relationship : Relationship} (hkind : field.kind = .relationship relationship)
    {next : Link → FilterResult β}
    (hnext : ∀ link : Link, link.Supported schema → SparesSchema (next link)) :
    SparesSchema (link schema field relationship >>= next) := by
  obtain ⟨⟨target, htarget⟩, -⟩ := helement field hfield relationship hkind
  have hlink : link schema field relationship = .ok ⟨field.name, relationship, target⟩ :=
    link_eq_ok_iff.mpr ⟨target, htarget, rfl⟩
  rw [hlink]
  exact hnext _ (hconsistent.supported helement hfield hkind htarget)

variable {filter : Element → KeyPath → Json → FilterResult Filter}
  {connection : Link → KeyPath → Json → FilterResult ConnectionFilter}
  {aggregate : Link → KeyPath → Json → FilterResult AggregateFilter}

/-- An entry of a filter spares a consistent schema, if the filters that it nests do. Only a
relationship could blame the schema, and its target is there. -/
theorem entry (hconsistent : schema.Consistent)
    (hfilter : ∀ element : Element, schema.Supports element.fields → ∀ path value,
      SparesSchema (filter element path value))
    (hconnection : ∀ link : Link, link.Supported schema → ∀ path value,
      SparesSchema (connection link path value))
    (haggregate : ∀ link path value, SparesSchema (aggregate link path value))
    (helement : schema.Supports element.fields) (path : KeyPath) (key : String) (value : Json) :
    SparesSchema (entry schema filter connection aggregate element path key value) := by
  unfold FilterReader.entry
  cases hresolve : resolve? element key with
  | none => exact error (by simp)
  | some found =>
    obtain ⟨reading, field⟩ := found
    -- The field is one of a supported element, so that the target of its relationship exists.
    have hfield := mem_fields_of_resolve? hresolve
    cases hkind : field.kind with
    | scalar s =>
      simp only [hkind]
      exact scalar path field _ value
    | relationship relationship =>
      cases hmarker : reading.marker with
      | none =>
        simp only [hkind, hmarker]
        refine (quantifier path field _).bind fun _ _ =>
          link_bind hconsistent helement hfield hkind fun link hlink => ?_
        exact (hfilter _ hlink.target path value).unlessNull.bind fun _ _ => ok _
      | some marker =>
        cases marker with
        | connection =>
          simp only [hkind, hmarker]
          refine (quantifier path field _).bind fun _ _ =>
            link_bind hconsistent helement hfield hkind fun link hlink => ?_
          exact (hconnection link hlink path value).unlessNull.bind fun _ _ => ok _
        | aggregate =>
          simp only [hkind, hmarker]
          split
          · exact error (by simp)
          · refine link_bind hconsistent helement hfield hkind fun link _ => ?_
            exact (haggregate link path value).bind fun _ _ => ok _

/-- An entry of a connection filter spares the schema, if the filters on nodes and relationships
do. -/
theorem connectionEntry
    (hfilter : ∀ element : Element, schema.Supports element.fields → ∀ path value,
      SparesSchema (filter element path value))
    {link : Link} (hlink : link.Supported schema) (path : KeyPath) (key : String) (value : Json) :
    SparesSchema (connectionEntry filter link path key value) := by
  have htarget := hfilter link.target.element hlink.target path value
  have hrelationship := hfilter link.relationship.element hlink.relationship path value
  unfold FilterReader.connectionEntry
  split
  · exact htarget.map _
  · exact htarget.map _
  · exact hrelationship.map _
  · exact hrelationship.map _
  · exact error (by simp)

end Entries

/-- Filters on elements and on connections that can be followed are not refused because of the
schema. -/
theorem filter_and_connection {schema : Schema} (hconsistent : schema.Consistent)
    (limit budget : Nat) :
    (∀ element : Element, schema.Supports element.fields → ∀ path value,
      SparesSchema (filter schema limit budget element path value)) ∧
    ∀ link : Link, link.Supported schema → ∀ path value,
      SparesSchema (connection schema limit budget link path value) := by
  induction budget with
  | zero => exact ⟨fun _ _ _ _ => error (by simp), fun _ _ _ _ => error (by simp)⟩
  | succ budget ih =>
    obtain ⟨hfilter, hconnection⟩ := ih
    constructor
    · intro element helement path value
      exact object (hfilter element helement)
        (entry hconsistent hfilter hconnection (fun link => aggregate limit link budget) helement)
        path value
    · intro link hlink path value
      exact object (hconnection link hlink) (connectionEntry hfilter hlink) path value

end SparesSchema

end FilterReader

end GraphRead
