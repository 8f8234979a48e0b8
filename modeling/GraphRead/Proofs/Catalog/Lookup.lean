import GraphRead.Proofs.Catalog.Acceptance

/-!
# Finding fields by their names

A filter applies to the registered nodes and to the relationships of their
fields. The fields of a registered node have different names, so that each of
them is found under its own. The properties of a relationship are not compared
with one another when a definition is resolved: they are all found exactly if
the definition gives no two of them the same name. The first field of a name
hides the others.
-/

namespace GraphRead

/-- No two fields of an element have the same name, and so each of them is found under its
own. -/
structure Element.Unambiguous (element : Element) : Prop where
  distinct : (element.fields.map (·.name)).Nodup
  found : ∀ field ∈ element.fields, element.field? field.name = some field

/-- The elements of a schema that a filter can apply to: its nodes and their relationships. -/
inductive Schema.Offers (schema : Schema) : Element → Prop
  | node {node : Node} (hnode : node ∈ schema.nodes) : Offers schema node.element
  | relationship {node : Node} (hnode : node ∈ schema.nodes) {field : Field}
      (hfield : field ∈ node.fields) {relationship : Relationship}
      (hrelationship : field.relationship? = some relationship) :
    Offers schema relationship.element

/-- The properties of each relationship are defined with different names. -/
def SchemaDefinition.HasDistinctProperties (definition : SchemaDefinition) : Prop :=
  ∀ node ∈ definition.nodes, ∀ field ∈ node.fields, ∀ relationship,
    field.relationship = some relationship → (relationship.properties.map (·.name)).Nodup

namespace Element

/-- Different names are enough to find every field. -/
theorem unambiguous_iff {element : Element} :
    element.Unambiguous ↔ (element.fields.map (·.name)).Nodup := by
  constructor
  · rintro ⟨hdistinct, -⟩
    exact hdistinct
  · intro hdistinct
    exact ⟨hdistinct, fun _ hfield => find?_of_nodup hdistinct hfield⟩

/-- A field is found under its name unless one before it has the name. -/
theorem field?_of_first {element : Element} {before after : List Field} {field : Field}
    (h : element.fields = before ++ field :: after) (hnew : field.name ∉ before.map (·.name)) :
    element.field? field.name = some field := by
  rw [field?, findField, h]
  exact find?_of_first hnew

/-- A field whose name stands before it is hidden by one before it. -/
theorem field?_of_repeated {element : Element} {before after : List Field} {field : Field}
    (h : element.fields = before ++ field :: after) (hrepeated : field.name ∈ before.map (·.name)) :
    ∃ other ∈ before, other.name = field.name ∧ element.field? field.name = some other := by
  have hsome : (before.find? (·.name = field.name)).isSome = true := by
    obtain ⟨other, hother, heq⟩ := List.mem_map.mp hrepeated
    exact List.find?_isSome.mpr ⟨other, hother, decide_eq_true heq⟩
  obtain ⟨other, hother⟩ := Option.isSome_iff_exists.mp hsome
  have hname := List.find?_some hother
  refine ⟨other, List.mem_of_find?_eq_some hother, of_decide_eq_true hname, ?_⟩
  rw [field?, findField, h, List.find?_append, hother]
  rfl

end Element

namespace FieldDefinition

/-- The properties of a relationship have the names that its definition gives them. -/
theorem Declares.distinct_iff {definition : FieldDefinition} {field : Field}
    (h : definition.Declares field) :
    (∀ relationship, definition.relationship = some relationship →
      (relationship.properties.map (·.name)).Nodup) ↔
    ∀ relationship, field.relationship? = some relationship →
      (relationship.properties.map (·.name)).Nodup := by
  cases h with
  | scalar hscalar =>
    cases hscalar
    exact iff_of_true (fun _ h => by cases h) (fun _ h => by cases h)
  | @relationship _ _ _ _ _ _ _ _ definitions properties hproperties =>
    have hnames : definitions.map (·.name) = properties.map (·.name) :=
      map_eq_of_forall₂ hproperties fun _ _ hproperty => hproperty.name_eq
    constructor
    · rintro hdistinct _ ⟨⟩
      have hdefined := hdistinct _ rfl
      rwa [hnames] at hdefined
    · rintro hdistinct _ ⟨⟩
      have hfound := hdistinct _ rfl
      rwa [← hnames] at hfound

end FieldDefinition

namespace SchemaDefinition

variable {definition : SchemaDefinition} {schema : Schema}

/-- The fields of a registered node are all found. -/
theorem unambiguous_node (h : definition.resolve = .ok schema) {node : Node}
    (hnode : node ∈ schema.nodes) : node.element.Unambiguous := by
  obtain ⟨-, -, hvalid⟩ := resolve_eq_ok_iff.mp h
  have hchecked := Schema.checkNodes_eq_ok_iff.mp hvalid
  exact Element.unambiguous_iff.mpr (hchecked node hnode).1

/-- Relationships are unambiguous exactly if their definitions are. -/
theorem unambiguous_relationships_iff (h : definition.resolve = .ok schema) :
    (∀ node ∈ schema.nodes, ∀ field ∈ node.fields, ∀ relationship,
      field.relationship? = some relationship → relationship.element.Unambiguous) ↔
    definition.HasDistinctProperties := by
  obtain ⟨hdeclared, -, -⟩ := resolve_eq_ok_iff.mp h
  simp only [Element.unambiguous_iff]
  refine (forall_mem_iff_of_forall₂ hdeclared ?_).symm
  intro declared node hnode
  exact forall_mem_iff_of_forall₂ hnode.fields fun _ _ hfield => hfield.distinct_iff

/-- In the schema of a definition every field of a node is found under its name. All elements are
unambiguous exactly if the definition repeats no name among the properties of a relationship,
which resolving it does not demand. A field is found under its name if none before it has the
name, and is otherwise hidden by one of those. -/
theorem fields_found_iff_distinct (h : definition.resolve = .ok schema) :
    (∀ node ∈ schema.nodes, node.element.Unambiguous) ∧
    ((∀ element, schema.Offers element → element.Unambiguous) ↔
      definition.HasDistinctProperties) ∧
    (∀ element, schema.Offers element → ∀ before field after,
      element.fields = before ++ field :: after →
        (field.name ∉ before.map (·.name) → element.field? field.name = some field) ∧
        (field.name ∈ before.map (·.name) →
          ∃ other ∈ before, other.name = field.name ∧
            element.field? field.name = some other)) := by
  refine ⟨fun node => unambiguous_node h, ?_, ?_⟩
  · rw [← unambiguous_relationships_iff h]
    constructor
    · intro hall node hnode field hfield relationship hrelationship
      exact hall _ (.relationship hnode hfield hrelationship)
    · intro hall element helement
      cases helement with
      | node hnode => exact unambiguous_node h hnode
      | relationship hnode hfield hrelationship => exact hall _ hnode _ hfield _ hrelationship
  · intro element _ before field after hfields
    exact ⟨Element.field?_of_first hfields, Element.field?_of_repeated hfields⟩

/-- A film and its cast, with two properties of one name. -/
def credits : SchemaDefinition :=
  ⟨none,
    [⟨"Film", none,
      [⟨"cast", none, false, none, none, some ⟨"ACTED_IN", .incoming, "Film", true,
        [⟨"role", some .string, false, none, none, none⟩,
          ⟨"role", some .int, false, none, none, none⟩]⟩⟩]⟩]⟩

/-- The relationship between a film and its cast. -/
def billing : Relationship :=
  ⟨"ACTED_IN", .incoming, "Film", true,
    [⟨"role", none, .scalar ⟨.string, false, none⟩⟩, ⟨"role", none, .scalar ⟨.int, false, none⟩⟩]⟩

/-- The schema of films and their casts. -/
def filmography : Schema := ⟨[⟨"Film", ["Film"], [⟨"cast", none, .relationship billing⟩]⟩]⟩

/-- In a catalog of credits every node is unambiguous, and still a relationship has two properties
of one name. The first of them is found. -/
theorem credits_hide_role :
    credits.resolve = .ok filmography ∧
    (∀ node ∈ filmography.nodes, node.element.Unambiguous) ∧
    ¬ (∀ element, filmography.Offers element → element.Unambiguous) ∧
    filmography.Offers billing.element ∧
    billing.element.field? "role" = some ⟨"role", none, .scalar ⟨.string, false, none⟩⟩ := by
  have hresolve : credits.resolve = .ok filmography := rfl
  obtain ⟨hnodes, hall, hfound⟩ := fields_found_iff_distinct hresolve
  have hrepeats : ¬ credits.HasDistinctProperties := by
    intro hdistinct
    have hnames := hdistinct _ List.mem_cons_self _ List.mem_cons_self _ rfl
    exact absurd hnames (by decide)
  have hoffers : filmography.Offers billing.element := by
    have hcast : (⟨"cast", none, .relationship billing⟩ : Field) ∈
        [⟨"cast", none, .relationship billing⟩] := List.mem_singleton_self _
    exact .relationship List.mem_cons_self hcast rfl
  obtain ⟨other, hother, -, hfield⟩ := (hfound _ hoffers [_] _ [] rfl).2 (by decide)
  obtain rfl := List.mem_singleton.mp hother
  exact ⟨hresolve, hnodes, fun h => hrepeats (hall.mp h), hoffers, hfield⟩

end SchemaDefinition

end GraphRead
