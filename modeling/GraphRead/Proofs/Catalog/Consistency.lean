import GraphRead.Proofs.Catalog.Acceptance

/-!
# Schemas of definitions are consistent

A schema that is resolved from a definition can be followed without ever losing
the way: every relationship of a registered node leads to a registered node, and
the properties of a relationship are scalars, so that nothing leads on from them.
-/

namespace GraphRead

namespace Schema

/-- Every relationship among some fields leads to a registered node and has only scalars as
properties. -/
def Supports (schema : Schema) (fields : List Field) : Prop :=
  ∀ field ∈ fields, ∀ relationship, field.kind = .relationship relationship →
    (∃ target, schema.node? relationship.target = some target) ∧
      ∀ property ∈ relationship.properties, ∃ scalar, property.kind = .scalar scalar

/-- All registered nodes can be followed. -/
def Consistent (schema : Schema) : Prop := ∀ node ∈ schema.nodes, schema.Supports node.fields

/-- A node that is found by its name is one of the schema. -/
theorem mem_of_node? {schema : Schema} {name : String} {node : Node}
    (h : schema.node? name = some node) : node ∈ schema.nodes := List.mem_of_find?_eq_some h

/-- A registered name is that of a registered node. -/
theorem exists_node?_of_mem_names {schema : Schema} {name : String} (h : name ∈ schema.names) :
    ∃ node, schema.node? name = some node := by
  obtain ⟨node, hnode, rfl⟩ := List.mem_map.mp h
  refine Option.isSome_iff_exists.mp (List.find?_isSome.mpr ⟨node, hnode, ?_⟩)
  exact decide_eq_true rfl

end Schema

/-- The properties of a relationship that is declared are scalars. -/
theorem FieldDefinition.Declares.scalar_of_property {definition : FieldDefinition} {field : Field}
    (h : definition.Declares field) :
    ∀ relationship, field.kind = .relationship relationship →
      ∀ property ∈ relationship.properties, ∃ scalar, property.kind = .scalar scalar := by
  intro relationship hkind
  cases h with
  | scalar hscalar =>
    cases hscalar
    cases hkind
  | relationship _ _ _ _ _ _ _ _ hproperties =>
    obtain rfl := FieldKind.relationship.inj hkind
    refine forall_mem_of_forall₂ hproperties ?_
    intro definition property hproperty
    cases hproperty
    exact ⟨_, rfl⟩

/-- A schema that is resolved from a definition is consistent. -/
theorem SchemaDefinition.consistent_of_resolve {definition : SchemaDefinition} {schema : Schema}
    (h : definition.resolve = .ok schema) : schema.Consistent := by
  obtain ⟨hdeclared, -, hvalid⟩ := resolve_eq_ok_iff.mp h
  have hchecked := Schema.checkNodes_eq_ok_iff.mp hvalid
  -- That properties are scalars comes from the declarations, and that targets exist from the check.
  have hscalars : ∀ node ∈ schema.nodes, ∀ field ∈ node.fields, ∀ relationship,
      field.kind = .relationship relationship →
        ∀ property ∈ relationship.properties, ∃ scalar, property.kind = .scalar scalar := by
    refine forall_mem_of_forall₂ hdeclared ?_
    intro declared node hnode
    exact forall_mem_of_forall₂ hnode.fields fun _ _ hfield => hfield.scalar_of_property
  intro node hnode field hfield relationship hkind
  refine ⟨?_, hscalars node hnode field hfield relationship hkind⟩
  have htarget : field.relationship?.map (·.target) = some relationship.target := by
    rw [Field.relationship?, hkind]
    rfl
  exact Schema.exists_node?_of_mem_names ((hchecked node hnode).2 field hfield _ htarget)

end GraphRead
