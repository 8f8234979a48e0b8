import GraphRead.Catalog.Definition
import GraphRead.Proofs.Filter.Place
import Mathlib.Data.List.Induction
import Mathlib.Data.List.Nodup
import Mathlib.Data.List.Perm.Basic

/-!
# Which definitions are accepted

A definition of a schema is coherent if every field declares a type or a
relationship but not both, the properties of relationships are scalars, no two
nodes and no two fields of a node share a name, and every relationship leads to
a node that is defined. Resolving succeeds on the coherent definitions and on no
others, in whatever order they list their nodes and in whatever order the
registered nodes are checked. The schema then holds, for every definition, the
node that it declares. A name given to two nodes is found before anything else
that can be wrong with definitions that say of each field what it is.
-/

namespace GraphRead

/-! ## What a definition declares -/

namespace FieldDefinition

/-- A definition with a type declares a scalar of this type, with the list flag, the operators
and the stored name that it gives. -/
inductive DeclaresScalar : FieldDefinition → Field → Prop
  | intro (name : String) (type : ScalarType) (list : Bool) (property : Option String)
      (operators : Option (List FilterOperator)) :
    DeclaresScalar ⟨name, some type, list, property, operators, none⟩
      ⟨name, property, .scalar ⟨type, list, operators⟩⟩

/-- A definition with a relationship declares a field that leads along it, with a scalar for each
of its properties. The list flag is that of the relationship. -/
inductive Declares : FieldDefinition → Field → Prop
  | scalar {definition : FieldDefinition} {field : Field} (h : DeclaresScalar definition field) :
    Declares definition field
  | relationship (name : String) (flag : Bool) (property : Option String)
      (operators : Option (List FilterOperator)) (type : String) (direction : Direction)
      (target : String) (list : Bool) {definitions : List FieldDefinition}
      {properties : List Field} (h : List.Forall₂ DeclaresScalar definitions properties) :
    Declares
      ⟨name, none, flag, property, operators, some ⟨type, direction, target, list, definitions⟩⟩
      ⟨name, property, .relationship ⟨type, direction, target, list, properties⟩⟩

/-- A definition of a scalar: it has a type and no relationship. -/
def IsScalar (definition : FieldDefinition) : Prop :=
  definition.type.isSome = true ∧ definition.relationship = none

/-- A definition has exactly one of a type and a relationship. -/
def HasOneKind (definition : FieldDefinition) : Prop :=
  definition.IsScalar ∨ (definition.type = none ∧ definition.relationship.isSome = true)

end FieldDefinition

/-- A definition of a node declares the node of its name and labels, with its fields in the order
of their definitions. -/
structure NodeDefinition.Declares (definition : NodeDefinition) (node : Node) : Prop where
  name : node.name = definition.name
  labels : node.labels = definition.labels.getD [definition.name]
  fields : List.Forall₂ FieldDefinition.Declares definition.fields node.fields

namespace SchemaDefinition

/-- Every field says what it is: it has exactly one kind, and the properties of its relationship
are scalars. -/
def Kinded (definition : SchemaDefinition) : Prop :=
  ∀ node ∈ definition.nodes, ∀ field ∈ node.fields, field.HasOneKind ∧
    ∀ relationship, field.relationship = some relationship →
      ∀ property ∈ relationship.properties, property.IsScalar

/-- A definition whose parts say what they are and fit together. -/
structure Coherent (definition : SchemaDefinition) : Prop where
  kinded : definition.Kinded
  nodes : (definition.nodes.map (·.name)).Nodup
  fields : ∀ node ∈ definition.nodes, (node.fields.map (·.name)).Nodup
  targets : ∀ node ∈ definition.nodes, ∀ field ∈ node.fields, ∀ relationship,
    field.relationship = some relationship →
      relationship.target ∈ definition.nodes.map (·.name)

/-- A schema holds one node for each definition and no others, and finds it under its name. -/
structure Describes (definition : SchemaDefinition) (schema : Schema) : Prop where
  nodes : List.Forall₂ NodeDefinition.Declares definition.nodes schema.nodes
  found : ∀ declared ∈ definition.nodes,
    ∃ node, declared.Declares node ∧ schema.node declared.name = .ok node
  missing : ∀ name, name ∉ definition.nodes.map (·.name) →
    schema.node name = .error (.unknownNode name)

end SchemaDefinition

/-! ## Lists and their partners -/

section Lists

variable {α β ε : Type}

/-- What is read of a list is read of its members one by one. -/
theorem mapM_eq_ok_iff {read : α → Except ε β} {inputs : List α} {outputs : List β} :
    inputs.mapM read = .ok outputs ↔
      List.Forall₂ (fun input output => read input = .ok output) inputs outputs := by
  induction inputs generalizing outputs with
  | nil =>
    rw [List.mapM_nil, List.forall₂_nil_left_iff]
    constructor
    · intro h
      exact (Except.ok.inj h).symm
    · rintro rfl
      rfl
  | cons input rest ih =>
    rw [List.mapM_cons, List.forall₂_cons_left_iff]
    constructor
    · intro h
      obtain ⟨first, hfirst, h⟩ := FilterReader.bind_eq_ok h
      obtain ⟨others, hothers, h⟩ := FilterReader.bind_eq_ok h
      exact ⟨first, others, hfirst, ih.mp hothers, (Except.ok.inj h).symm⟩
    · rintro ⟨first, others, hfirst, hothers, rfl⟩
      rw [hfirst, ih.mpr hothers]
      rfl

/-- Every member of a list has its partner. -/
theorem exists_partner {related : α → β → Prop} {inputs : List α} {outputs : List β}
    (h : List.Forall₂ related inputs outputs) {input : α} (hinput : input ∈ inputs) :
    ∃ output ∈ outputs, related input output := by
  induction h with
  | nil => cases hinput
  | @cons first partner rest others hfirst _ ih =>
    rcases List.mem_cons.mp hinput with rfl | hrest
    · exact ⟨partner, List.mem_cons_self, hfirst⟩
    · obtain ⟨output, houtput, hrelated⟩ := ih hrest
      exact ⟨output, List.mem_cons_of_mem partner houtput, hrelated⟩

/-- Partners can be found for a list if they can be found for its members. -/
theorem exists_forall₂_iff {related : α → β → Prop} {inputs : List α} :
    (∃ outputs, List.Forall₂ related inputs outputs) ↔
      ∀ input ∈ inputs, ∃ output, related input output := by
  constructor
  · rintro ⟨outputs, h⟩ input hinput
    obtain ⟨output, -, hrelated⟩ := exists_partner h hinput
    exact ⟨output, hrelated⟩
  · intro h
    induction inputs with
    | nil => exact ⟨[], .nil⟩
    | cons input rest ih =>
      obtain ⟨⟨output, hfirst⟩, hrest⟩ := List.forall_mem_cons.mp h
      obtain ⟨others, hothers⟩ := ih hrest
      exact ⟨output :: others, .cons hfirst hothers⟩

/-- What partners have in common, all members of the two lists have in common. -/
theorem forall_mem_iff_of_forall₂ {related : α → β → Prop} {first : α → Prop} {second : β → Prop}
    {inputs : List α} {outputs : List β} (h : List.Forall₂ related inputs outputs)
    (hiff : ∀ a b, related a b → (first a ↔ second b)) :
    (∀ input ∈ inputs, first input) ↔ ∀ output ∈ outputs, second output := by
  induction h with
  | nil => simp
  | cons hfirst _ ih => rw [List.forall_mem_cons, List.forall_mem_cons, hiff _ _ hfirst, ih]

/-- What every partner has, all members of the second list have. -/
theorem forall_mem_of_forall₂ {related : α → β → Prop} {second : β → Prop} {inputs : List α}
    {outputs : List β} (h : List.Forall₂ related inputs outputs)
    (hsecond : ∀ a b, related a b → second b) : ∀ output ∈ outputs, second output := by
  have hiff : ∀ a b, related a b → (True ↔ second b) := fun a b hab =>
    iff_of_true trivial (hsecond a b hab)
  exact (forall_mem_iff_of_forall₂ h hiff).mp fun _ _ => trivial

/-- Partners of the same name give the same names. -/
theorem map_eq_of_forall₂ {related : α → β → Prop} {first : α → String} {second : β → String}
    {inputs : List α} {outputs : List β} (h : List.Forall₂ related inputs outputs)
    (hname : ∀ a b, related a b → first a = second b) : inputs.map first = outputs.map second := by
  induction h with
  | nil => rfl
  | cons hfirst _ ih => rw [List.map_cons, List.map_cons, hname _ _ hfirst, ih]

/-- The first member of a name is the one that is found under it. -/
theorem find?_of_first {name : α → String} {before after : List α} {member : α}
    (h : name member ∉ before.map name) :
    (before ++ member :: after).find? (fun other => name other = name member) = some member := by
  have hbefore : before.find? (fun other => name other = name member) = none := by
    refine List.find?_eq_none.mpr ?_
    intro other hother heq
    exact h (List.mem_map.mpr ⟨other, hother, of_decide_eq_true heq⟩)
  rw [List.find?_append, hbefore, Option.none_or]
  exact List.find?_cons_of_pos (decide_eq_true rfl)

/-- Where no name is repeated, every member is found under its name. -/
theorem find?_of_nodup {name : α → String} {members : List α} (h : (members.map name).Nodup)
    {member : α} (hmember : member ∈ members) :
    members.find? (fun other => name other = name member) = some member := by
  obtain ⟨before, after, rfl⟩ := List.append_of_mem hmember
  rw [List.map_append, List.map_cons] at h
  have hdisjoint := (List.nodup_append.mp h).2.2
  apply find?_of_first
  intro hmem
  exact hdisjoint _ hmem _ List.mem_cons_self rfl

/-- A list that repeats a name has a first member that repeats one. -/
theorem exists_first_repeated {name : α → String} {members : List α}
    (h : ¬ (members.map name).Nodup) :
    ∃ before repeated after, members = before ++ repeated :: after ∧
      (before.map name).Nodup ∧ name repeated ∈ before.map name := by
  induction members using List.reverseRecOn with
  | nil => exact absurd List.nodup_nil h
  | append_singleton front last ih =>
    by_cases hfront : (front.map name).Nodup
    · refine ⟨front, last, [], rfl, hfront, ?_⟩
      by_contra hlast
      apply h
      rw [List.map_append, List.map_singleton, ← List.concat_eq_append]
      exact hfront.concat hlast
    · obtain ⟨before, repeated, after, rfl, hbefore, hrepeated⟩ := ih hfront
      exact ⟨before, repeated, after ++ [last], by simp, hbefore, hrepeated⟩

end Lists

/-! ## Resolving field by field -/

namespace FieldDefinition

/-- A definition that is resolved declares a scalar, or a relationship that is resolved. -/
theorem resolve_cases {owner : String} {definition : FieldDefinition} {field : Field}
    (h : definition.resolve owner = .ok field) :
    definition.DeclaresScalar field ∨
      ∃ name flag property operators relationship resolved,
        definition = ⟨name, none, flag, property, operators, some relationship⟩ ∧
        relationship.resolve (owner ++ "." ++ name) = .ok resolved ∧
        field = ⟨name, property, .relationship resolved⟩ := by
  obtain ⟨name, type, list, property, operators, relationship⟩ := definition
  cases type with
  | none =>
    cases relationship with
    | none => cases h
    | some relationship =>
      obtain ⟨resolved, hresolved, h⟩ := FilterReader.bind_eq_ok h
      obtain rfl := Except.ok.inj h
      exact .inr ⟨name, list, property, operators, relationship, resolved, rfl, hresolved, rfl⟩
  | some type =>
    cases relationship with
    | none =>
      obtain rfl := Except.ok.inj h
      exact .inl (.intro name type list property operators)
    | some relationship => cases h

/-- A definition is resolved to a scalar exactly if it declares this scalar. -/
theorem resolve_scalar_iff {owner : String} {definition : FieldDefinition} {field : Field} :
    (definition.resolve owner = .ok field ∧ ∃ scalar, field.kind = .scalar scalar) ↔
      definition.DeclaresScalar field := by
  constructor
  · rintro ⟨h, scalar, hkind⟩
    rcases resolve_cases h with hscalar | ⟨_, _, _, _, _, _, -, -, rfl⟩
    · exact hscalar
    · cases hkind
  · rintro ⟨name, type, list, property, operators⟩
    exact ⟨rfl, _, rfl⟩

/-- The properties of a relationship are resolved to the scalars that they declare. -/
theorem resolveProperties_eq_ok_iff {owner : String} {definitions : List FieldDefinition}
    {fields : List Field} :
    resolveProperties owner definitions = .ok fields ↔
      List.Forall₂ DeclaresScalar definitions fields := by
  induction definitions generalizing fields with
  | nil =>
    rw [List.forall₂_nil_left_iff]
    constructor
    · intro h
      exact (Except.ok.inj h).symm
    · rintro rfl
      rfl
  | cons definition rest ih =>
    rw [resolveProperties, List.forall₂_cons_left_iff]
    constructor
    · intro h
      obtain ⟨field, hfield, h⟩ := FilterReader.bind_eq_ok h
      split at h
      next scalar hkind =>
        obtain ⟨others, hothers, h⟩ := FilterReader.bind_eq_ok h
        have hscalar := resolve_scalar_iff.mp ⟨hfield, scalar, hkind⟩
        exact ⟨field, others, hscalar, ih.mp hothers, (Except.ok.inj h).symm⟩
      next => cases h
    · rintro ⟨field, others, ⟨name, type, list, property, operators⟩, hothers, rfl⟩
      change (resolveProperties owner rest >>= fun fields => Except.ok (_ :: fields)) = _
      rw [ih.mpr hothers]
      rfl

/-- A field is resolved to what it declares, whoever its owner is. -/
theorem resolve_eq_ok_iff {owner : String} {definition : FieldDefinition} {field : Field} :
    definition.resolve owner = .ok field ↔ definition.Declares field := by
  constructor
  · intro h
    rcases resolve_cases h with
      hscalar | ⟨name, flag, property, operators, relationship, resolved, rfl, hresolved, rfl⟩
    · exact .scalar hscalar
    · obtain ⟨type, direction, target, list, definitions⟩ := relationship
      obtain ⟨properties, hproperties, hresolved⟩ := FilterReader.bind_eq_ok hresolved
      obtain rfl := Except.ok.inj hresolved
      have hdeclared := resolveProperties_eq_ok_iff.mp hproperties
      exact .relationship name flag property operators type direction target list hdeclared
  · intro h
    cases h with
    | scalar hscalar => exact (resolve_scalar_iff.mpr hscalar).1
    | @relationship name _ _ _ _ _ _ _ definitions properties hdeclared =>
      have hproperties : resolveProperties (owner ++ "." ++ name) definitions = .ok properties :=
        resolveProperties_eq_ok_iff.mpr hdeclared
      change ((resolveProperties (owner ++ "." ++ name) definitions >>= fun fields =>
        Except.ok _) >>= fun relationship => Except.ok _) = _
      rw [hproperties]
      rfl

/-- A scalar field keeps the name of its definition. -/
theorem DeclaresScalar.name_eq {definition : FieldDefinition} {field : Field}
    (h : definition.DeclaresScalar field) : definition.name = field.name := by
  cases h
  rfl

/-- A field keeps the name of its definition, whatever its kind. -/
theorem Declares.name_eq {definition : FieldDefinition} {field : Field}
    (h : definition.Declares field) : definition.name = field.name := by
  cases h with
  | scalar hscalar => exact hscalar.name_eq
  | relationship => rfl

/-- The relationship of a field leads where its definition says. -/
theorem Declares.target_eq {definition : FieldDefinition} {field : Field}
    (h : definition.Declares field) :
    definition.relationship.map (·.target) = field.relationship?.map (·.target) := by
  cases h with
  | scalar hscalar =>
    cases hscalar
    rfl
  | relationship => rfl

/-- A scalar is declared exactly by the definitions of scalars. -/
theorem exists_declaresScalar_iff {definition : FieldDefinition} :
    (∃ field, definition.DeclaresScalar field) ↔ definition.IsScalar := by
  constructor
  · rintro ⟨_, ⟨name, type, list, property, operators⟩⟩
    exact ⟨rfl, rfl⟩
  · obtain ⟨name, type, list, property, operators, relationship⟩ := definition
    rintro ⟨htype, hrelationship⟩
    obtain ⟨type, rfl⟩ := Option.isSome_iff_exists.mp htype
    obtain rfl := hrelationship
    exact ⟨_, .intro name type list property operators⟩

/-- A field is declared exactly by the definitions that have one kind and no properties other
than scalars. -/
theorem exists_declares_iff {definition : FieldDefinition} :
    (∃ field, definition.Declares field) ↔ definition.HasOneKind ∧
      ∀ relationship, definition.relationship = some relationship →
        ∀ property ∈ relationship.properties, property.IsScalar := by
  constructor
  · rintro ⟨field, h⟩
    cases h with
    | scalar hscalar =>
      have hkind := exists_declaresScalar_iff.mp ⟨field, hscalar⟩
      refine ⟨.inl hkind, ?_⟩
      intro relationship hrelationship
      rw [hkind.2] at hrelationship
      cases hrelationship
    | @relationship _ _ _ _ _ _ _ _ definitions properties hproperties =>
      refine ⟨.inr ⟨rfl, rfl⟩, ?_⟩
      rintro _ ⟨⟩ property hproperty
      obtain ⟨partner, -, hscalar⟩ := exists_partner hproperties hproperty
      exact exists_declaresScalar_iff.mp ⟨partner, hscalar⟩
  · rintro ⟨hscalar | ⟨htype, hrelationship⟩, hproperties⟩
    · obtain ⟨field, hfield⟩ := exists_declaresScalar_iff.mpr hscalar
      exact ⟨field, .scalar hfield⟩
    · obtain ⟨name, type, flag, property, operators, relationship⟩ := definition
      obtain rfl := htype
      obtain ⟨⟨type, direction, target, list, definitions⟩, rfl⟩ :=
        Option.isSome_iff_exists.mp hrelationship
      -- Each property is declared by itself, so that a list of fields can be chosen.
      have hall : ∀ definition ∈ definitions, ∃ field, DeclaresScalar definition field := by
        intro definition hdefinition
        exact exists_declaresScalar_iff.mpr (hproperties _ rfl definition hdefinition)
      obtain ⟨properties, hdeclared⟩ := exists_forall₂_iff.mpr hall
      exact ⟨_, .relationship name flag property operators type direction target list hdeclared⟩

end FieldDefinition

namespace NodeDefinition

/-- A node is resolved to what its definition declares. -/
theorem resolve_eq_ok_iff {definition : NodeDefinition} {node : Node} :
    definition.resolve = .ok node ↔ definition.Declares node := by
  constructor
  · intro h
    obtain ⟨fields, hfields, h⟩ := FilterReader.bind_eq_ok h
    obtain rfl := Except.ok.inj h
    refine ⟨rfl, rfl, ?_⟩
    exact (mapM_eq_ok_iff.mp hfields).imp fun _ _ => FieldDefinition.resolve_eq_ok_iff.mp
  · rintro ⟨hname, hlabels, hfields⟩
    have hmap : definition.fields.mapM (FieldDefinition.resolve definition.name) =
        .ok node.fields :=
      mapM_eq_ok_iff.mpr (hfields.imp fun _ _ => FieldDefinition.resolve_eq_ok_iff.mpr)
    obtain ⟨name, labels, fields⟩ := node
    obtain rfl := hname
    obtain rfl := hlabels
    rw [resolve, hmap]
    rfl

end NodeDefinition

/-! ## Registering and checking the nodes -/

namespace Schema

/-- A node under a new name is put at the end. -/
theorem insert_of_not_contains {schema : Schema} {node : Node}
    (h : schema.contains node.name ≠ true) : schema.insert node = ⟨schema.nodes ++ [node]⟩ := by
  rw [insert, if_neg h]

/-- Nodes that bring new names are registered one after another. -/
theorem insertAll_append {schema : Schema} {before : List Node}
    (h : ((schema.nodes ++ before).map (·.name)).Nodup) (rest : List Node) :
    schema.insertAll (before ++ rest) = insertAll ⟨schema.nodes ++ before⟩ rest := by
  induction before generalizing schema with
  | nil => rw [List.nil_append, List.append_nil]
  | cons node others ih =>
    have hnew : schema.contains node.name ≠ true := by
      rw [List.map_append, List.map_cons] at h
      have hdisjoint := (List.nodup_append.mp h).2.2
      intro hcontains
      exact hdisjoint _ (of_decide_eq_true hcontains) _ List.mem_cons_self rfl
    have hmoved : schema.nodes ++ node :: others = (schema.nodes ++ [node]) ++ others := by
      rw [List.append_assoc, List.singleton_append]
    rw [List.cons_append, insertAll, if_neg hnew, insert_of_not_contains hnew, hmoved]
    exact ih (by rwa [hmoved] at h)

/-- Nodes of different names are all registered. -/
theorem insertAll_of_nodup {nodes : List Node} (h : (nodes.map (·.name)).Nodup) :
    empty.insertAll nodes = .ok ⟨nodes⟩ := by
  have happend := @insertAll_append empty nodes h []
  rwa [List.append_nil] at happend

/-- The first name that is repeated stops the registration. -/
theorem insertAll_of_repeated {nodes : List Node} {before after : List String} {repeated : String}
    (h : nodes.map (·.name) = before ++ repeated :: after) (hbefore : before.Nodup)
    (hrepeated : repeated ∈ before) :
    empty.insertAll nodes = .error (.duplicateNode repeated) := by
  obtain ⟨first, others, rfl, rfl, hothers⟩ := List.map_eq_append_iff.mp h
  obtain ⟨node, rest, rfl, rfl, rfl⟩ := List.map_eq_cons_iff.mp hothers
  rw [@insertAll_append empty first hbefore (node :: rest), insertAll]
  exact if_pos (decide_eq_true hrepeated)

/-- The relationship of a field, if it is one, leads to a registered node. -/
def Reaches (schema : Schema) (field : Field) : Prop :=
  ∀ target, field.relationship?.map (·.target) = some target → target ∈ schema.names

/-- What the check of one field demands before it goes on with the next. -/
theorem checkFields_cons_eq_ok_iff {schema : Schema} {name : String} {seen : List String}
    {field : Field} {rest : List Field} :
    schema.checkFields name seen (field :: rest) = .ok () ↔
      field.name ∉ seen ∧ schema.Reaches field ∧
        schema.checkFields name (field.name :: seen) rest = .ok () := by
  rw [checkFields]
  by_cases hseen : field.name ∈ seen
  · rw [if_pos hseen]
    constructor
    · intro h
      cases h
    · rintro ⟨hnew, -⟩
      exact absurd hseen hnew
  · rw [if_neg hseen, and_iff_right hseen]
    cases hrelationship : field.relationship? with
    | none =>
      have hreaches : schema.Reaches field := by
        intro target htarget
        rw [hrelationship] at htarget
        cases htarget
      exact (and_iff_right hreaches).symm
    | some relationship =>
      have hreaches : schema.Reaches field ↔ schema.contains relationship.target = true := by
        unfold Reaches
        rw [hrelationship]
        simp [contains]
      rw [hreaches]
      by_cases hcontains : schema.contains relationship.target = true
      · simp [hcontains]
      · simp [hcontains]

/-- Fields pass the check if their names are new and different and their relationships lead to
registered nodes. -/
theorem checkFields_eq_ok_iff {schema : Schema} {name : String} {seen : List String}
    {fields : List Field} :
    schema.checkFields name seen fields = .ok () ↔
      (fields.map (·.name)).Nodup ∧ (∀ field ∈ fields, field.name ∉ seen) ∧
        ∀ field ∈ fields, schema.Reaches field := by
  induction fields generalizing seen with
  | nil => simp [checkFields]
  | cons field rest ih =>
    rw [checkFields_cons_eq_ok_iff, ih, List.map_cons, List.nodup_cons, List.forall_mem_cons,
      List.forall_mem_cons]
    constructor
    · rintro ⟨hnew, hreaches, hdistinct, hothers, hreach⟩
      refine ⟨⟨?_, hdistinct⟩, ⟨hnew, ?_⟩, hreaches, hreach⟩
      · intro hmem
        obtain ⟨other, hother, heq⟩ := List.mem_map.mp hmem
        exact hothers other hother (List.mem_cons.mpr (.inl heq))
      · intro other hother hmem
        exact hothers other hother (List.mem_cons_of_mem _ hmem)
    · rintro ⟨⟨hfirst, hdistinct⟩, ⟨hnew, hothers⟩, hreaches, hreach⟩
      refine ⟨hnew, hreaches, hdistinct, ?_, hreach⟩
      intro other hother hmem
      rcases List.mem_cons.mp hmem with heq | hseen
      · exact hfirst (List.mem_map.mpr ⟨other, hother, heq⟩)
      · exact hothers other hother hseen

/-- The nodes pass the check if all of them do, in whatever order they come. -/
theorem checkNodes_eq_ok_iff {schema : Schema} {nodes : List Node} :
    schema.checkNodes nodes = .ok () ↔
      ∀ node ∈ nodes, (node.fields.map (·.name)).Nodup ∧
        ∀ field ∈ node.fields, schema.Reaches field := by
  induction nodes with
  | nil => simp [checkNodes]
  | cons node rest ih =>
    have hnode : schema.checkFields node.name [] node.fields = .ok () ↔
        (node.fields.map (·.name)).Nodup ∧ ∀ field ∈ node.fields, schema.Reaches field := by
      rw [checkFields_eq_ok_iff]
      simp
    rw [List.forall_mem_cons, ← ih, ← hnode]
    constructor
    · intro h
      obtain ⟨_, hfirst, hrest⟩ := FilterReader.bind_eq_ok h
      exact ⟨hfirst, hrest⟩
    · rintro ⟨hfirst, hrest⟩
      rw [checkNodes, hfirst]
      exact hrest

/-- Nodes make a schema if they have different names and pass the check. -/
theorem ofNodes_eq_ok_iff {nodes : List Node} {schema : Schema} :
    ofNodes nodes = .ok schema ↔
      schema.nodes = nodes ∧ (nodes.map (·.name)).Nodup ∧ schema.validate = .ok () := by
  constructor
  · intro h
    obtain ⟨inserted, hinserted, h⟩ := FilterReader.bind_eq_ok h
    obtain ⟨_, hvalid, h⟩ := FilterReader.bind_eq_ok h
    obtain rfl := Except.ok.inj h
    by_cases hdistinct : (nodes.map (·.name)).Nodup
    · rw [insertAll_of_nodup hdistinct] at hinserted
      obtain rfl := Except.ok.inj hinserted
      exact ⟨rfl, hdistinct, hvalid⟩
    · obtain ⟨before, repeated, after, rfl, hbefore, hrepeated⟩ := exists_first_repeated hdistinct
      rw [insertAll_of_repeated List.map_append hbefore hrepeated] at hinserted
      cases hinserted
  · rintro ⟨rfl, hdistinct, hvalid⟩
    rw [ofNodes, insertAll_of_nodup hdistinct]
    change (schema.validate >>= fun _ => Except.ok schema) = .ok schema
    rw [hvalid]
    rfl

end Schema

/-! ## Resolving a schema -/

namespace SchemaDefinition

variable {definition : SchemaDefinition} {schema : Schema}

/-- The names of the registered nodes are those of the definitions. -/
theorem names_eq (h : List.Forall₂ NodeDefinition.Declares definition.nodes schema.nodes) :
    definition.nodes.map (·.name) = schema.names := by
  refine map_eq_of_forall₂ h fun node declared hdeclares => ?_
  exact hdeclares.name.symm

/-- A schema is resolved if its nodes are those that the definitions declare, the definitions
have different names and the schema passes the check. -/
theorem resolve_eq_ok_iff :
    definition.resolve = .ok schema ↔
      List.Forall₂ NodeDefinition.Declares definition.nodes schema.nodes ∧
        (definition.nodes.map (·.name)).Nodup ∧ schema.validate = .ok () := by
  constructor
  · intro h
    obtain ⟨nodes, hnodes, h⟩ := FilterReader.bind_eq_ok h
    obtain ⟨rfl, hdistinct, hvalid⟩ := Schema.ofNodes_eq_ok_iff.mp h
    have hdeclared := (mapM_eq_ok_iff.mp hnodes).imp fun _ _ => NodeDefinition.resolve_eq_ok_iff.mp
    refine ⟨hdeclared, ?_, hvalid⟩
    rwa [names_eq hdeclared]
  · rintro ⟨hdeclared, hdistinct, hvalid⟩
    have hnodes : definition.nodes.mapM NodeDefinition.resolve = .ok schema.nodes :=
      mapM_eq_ok_iff.mpr (hdeclared.imp fun _ _ => NodeDefinition.resolve_eq_ok_iff.mpr)
    rw [names_eq hdeclared] at hdistinct
    rw [resolve, hnodes]
    exact Schema.ofNodes_eq_ok_iff.mpr ⟨rfl, hdistinct, hvalid⟩

/-- Nodes can be declared by all definitions exactly if every field says what it is. -/
theorem exists_declared_iff :
    (∃ nodes, List.Forall₂ NodeDefinition.Declares definition.nodes nodes) ↔
      definition.Kinded := by
  rw [exists_forall₂_iff]
  refine forall₂_congr fun declared _ => ?_
  have hfields : (∃ node, declared.Declares node) ↔
      ∃ fields, List.Forall₂ FieldDefinition.Declares declared.fields fields := by
    constructor
    · rintro ⟨node, -, -, h⟩
      exact ⟨node.fields, h⟩
    · rintro ⟨fields, h⟩
      exact ⟨⟨declared.name, declared.labels.getD [declared.name], fields⟩, rfl, rfl, h⟩
  rw [hfields, exists_forall₂_iff]
  exact forall₂_congr fun field _ => FieldDefinition.exists_declares_iff

/-- The check of the nodes that are declared looks at what their definitions say. -/
theorem validate_eq_ok_iff
    (h : List.Forall₂ NodeDefinition.Declares definition.nodes schema.nodes) :
    schema.validate = .ok () ↔
      ∀ node ∈ definition.nodes, (node.fields.map (·.name)).Nodup ∧
        ∀ field ∈ node.fields, ∀ relationship, field.relationship = some relationship →
          relationship.target ∈ definition.nodes.map (·.name) := by
  rw [Schema.validate, Schema.checkNodes_eq_ok_iff]
  refine (forall_mem_iff_of_forall₂ h ?_).symm
  intro declared node hnode
  have hnames : declared.fields.map (·.name) = node.fields.map (·.name) :=
    map_eq_of_forall₂ hnode.fields fun _ _ hfield => hfield.name_eq
  rw [hnames]
  refine and_congr_right fun _ => forall_mem_iff_of_forall₂ hnode.fields ?_
  intro field found hfield
  rw [Schema.Reaches, ← hfield.target_eq, names_eq h]
  simp

/-- Resolving succeeds exactly on coherent definitions. -/
theorem exists_resolve_iff : (∃ schema, definition.resolve = .ok schema) ↔ definition.Coherent := by
  constructor
  · rintro ⟨schema, h⟩
    obtain ⟨hdeclared, hdistinct, hvalid⟩ := resolve_eq_ok_iff.mp h
    have hnodes := (validate_eq_ok_iff hdeclared).mp hvalid
    have hkinded := exists_declared_iff.mp ⟨schema.nodes, hdeclared⟩
    exact ⟨hkinded, hdistinct, fun node hnode => (hnodes node hnode).1,
      fun node hnode => (hnodes node hnode).2⟩
  · rintro ⟨hkinded, hdistinct, hfields, htargets⟩
    obtain ⟨nodes, hdeclared⟩ := exists_declared_iff.mpr hkinded
    refine ⟨⟨nodes⟩, resolve_eq_ok_iff.mpr ⟨hdeclared, hdistinct, ?_⟩⟩
    apply (validate_eq_ok_iff hdeclared).mpr
    exact fun node hnode => ⟨hfields node hnode, htargets node hnode⟩

/-- A schema that is resolved holds what its definition describes. -/
theorem describes_of_resolve (h : definition.resolve = .ok schema) :
    definition.Describes schema := by
  obtain ⟨hdeclared, hdistinct, -⟩ := resolve_eq_ok_iff.mp h
  refine ⟨hdeclared, ?_, ?_⟩
  · intro declared hmem
    obtain ⟨node, hnode, hdeclares⟩ := exists_partner hdeclared hmem
    rw [names_eq hdeclared] at hdistinct
    have hfound : schema.node? declared.name = some node := by
      rw [← hdeclares.name]
      exact find?_of_nodup hdistinct hnode
    refine ⟨node, hdeclares, ?_⟩
    rw [Schema.node, hfound]
  · intro name hname
    rw [names_eq hdeclared] at hname
    have hmissing : schema.node? name = none := by
      refine List.find?_eq_none.mpr ?_
      intro node hnode heq
      exact hname (List.mem_map.mpr ⟨node, hnode, of_decide_eq_true heq⟩)
    rw [Schema.node, hmissing]

/-- The order in which a definition lists its nodes changes nothing but the order in which they
are registered. -/
theorem exists_resolve_of_perm {other : SchemaDefinition}
    (hperm : other.nodes.Perm definition.nodes) (h : definition.resolve = .ok schema) :
    ∃ moved, other.resolve = .ok moved ∧ moved.nodes.Perm schema.nodes := by
  obtain ⟨hdeclared, hdistinct, hvalid⟩ := resolve_eq_ok_iff.mp h
  obtain ⟨nodes, hmoved, hnodes⟩ := List.perm_comp_forall₂ hperm hdeclared
  refine ⟨⟨nodes⟩, resolve_eq_ok_iff.mpr ⟨hmoved, ?_, ?_⟩, hnodes⟩
  · exact ((hperm.map _).nodup_iff).mpr hdistinct
  · apply (validate_eq_ok_iff hmoved).mpr
    have hchecked := (validate_eq_ok_iff hdeclared).mp hvalid
    intro node hnode
    obtain ⟨hfields, htargets⟩ := hchecked node (hperm.mem_iff.mp hnode)
    refine ⟨hfields, ?_⟩
    intro field hfield relationship hrelationship
    exact (hperm.map _).mem_iff.mpr (htargets field hfield relationship hrelationship)

/-- Definitions that say what their fields are, but repeat the name of a node, are refused for
the first definition that repeats one. -/
theorem exists_duplicate_of_kinded (hkinded : definition.Kinded)
    (h : ¬ (definition.nodes.map (·.name)).Nodup) :
    ∃ before repeated after, definition.nodes = before ++ repeated :: after ∧
      (before.map (·.name)).Nodup ∧ repeated.name ∈ before.map (·.name) ∧
        definition.resolve = .error (.duplicateNode repeated.name) := by
  obtain ⟨before, repeated, after, hsplit, hbefore, hrepeated⟩ := exists_first_repeated h
  refine ⟨before, repeated, after, hsplit, hbefore, hrepeated, ?_⟩
  obtain ⟨nodes, hdeclared⟩ := exists_declared_iff.mpr hkinded
  have hnodes : definition.nodes.mapM NodeDefinition.resolve = .ok nodes :=
    mapM_eq_ok_iff.mpr (hdeclared.imp fun _ _ => NodeDefinition.resolve_eq_ok_iff.mpr)
  have hnames : nodes.map (·.name) =
      before.map (·.name) ++ repeated.name :: after.map (·.name) := by
    have heq : definition.nodes.map (·.name) = nodes.map (·.name) :=
      map_eq_of_forall₂ hdeclared fun _ _ hdeclares => hdeclares.name.symm
    rw [← heq, hsplit, List.map_append, List.map_cons]
  rw [resolve, hnodes]
  change Schema.ofNodes nodes = _
  rw [Schema.ofNodes, Schema.insertAll_of_repeated hnames hbefore hrepeated]
  rfl

/-- Resolving succeeds exactly on the coherent definitions, and the schema then holds what the
definition describes. Neither the order of the definitions nor that in which the registered nodes
are checked matters for success. Where only the kinds of the fields are known to be in order, a
repeated name of a node is reported, whatever else is wrong. -/
theorem resolve_accepts_coherent (definition : SchemaDefinition) :
    ((∃ schema, definition.resolve = .ok schema) ↔ definition.Coherent) ∧
    (∀ schema, definition.resolve = .ok schema → definition.Describes schema) ∧
    (∀ other : SchemaDefinition, other.nodes.Perm definition.nodes →
      ∀ schema, definition.resolve = .ok schema →
        ∃ moved, other.resolve = .ok moved ∧ moved.nodes.Perm schema.nodes) ∧
    (∀ (schema : Schema) (visited : List Node), visited.Perm schema.nodes →
      (schema.checkNodes visited = .ok () ↔ schema.validate = .ok ())) ∧
    (definition.Kinded → ¬ (definition.nodes.map (·.name)).Nodup →
      ∃ before repeated after, definition.nodes = before ++ repeated :: after ∧
        (before.map (·.name)).Nodup ∧ repeated.name ∈ before.map (·.name) ∧
          definition.resolve = .error (.duplicateNode repeated.name)) := by
  refine ⟨exists_resolve_iff, fun _ => describes_of_resolve,
    fun _ hperm _ => exists_resolve_of_perm hperm, ?_, exists_duplicate_of_kinded⟩
  intro schema visited hperm
  rw [Schema.validate, Schema.checkNodes_eq_ok_iff, Schema.checkNodes_eq_ok_iff]
  exact forall_congr' fun node => imp_congr_left hperm.mem_iff

/-- Two nodes that refer to each other. -/
def library : SchemaDefinition :=
  ⟨some "library",
    [⟨"Author", none,
        [⟨"name", some .string, false, none, some [.contains], none⟩,
          ⟨"books", none, false, none, none, some ⟨"WROTE", .outgoing, "Book", true,
            [⟨"year", some .int, false, some "writtenIn", none, none⟩]⟩⟩]⟩,
      ⟨"Book", some ["Book", "Volume"],
        [⟨"author", none, false, none, none, some ⟨"WROTE", .incoming, "Author", false, []⟩⟩]⟩]⟩

/-- Two nodes of one name, one with a repeated field and one that leads nowhere. -/
def misfiled : SchemaDefinition :=
  ⟨none,
    [⟨"Book", none,
        [⟨"title", some .string, false, none, none, none⟩,
          ⟨"title", some .string, false, none, none, none⟩]⟩,
      ⟨"Book", none,
        [⟨"shelf", none, false, none, none, some ⟨"STANDS_ON", .outgoing, "Shelf", false, []⟩⟩]⟩]⟩

/-- A library of books is accepted in any order of its nodes. A catalog that repeats a name is
refused for the first repetition. -/
theorem library_accepted :
    (library.Coherent ∧ ∃ schema, library.resolve = .ok schema ∧ library.Describes schema ∧
      (∃ moved, resolve ⟨none, library.nodes.reverse⟩ = .ok moved ∧
        moved.nodes.Perm schema.nodes) ∧
      schema.checkNodes schema.nodes.reverse = .ok ()) ∧
    misfiled.Kinded ∧ ¬ (misfiled.nodes.map (·.name)).Nodup ∧
      ∃ before repeated after, misfiled.nodes = before ++ repeated :: after ∧
        (before.map (·.name)).Nodup ∧ repeated.name ∈ before.map (·.name) ∧
          misfiled.resolve = .error (.duplicateNode repeated.name) := by
  constructor
  · obtain ⟨schema, hschema⟩ : ∃ schema, library.resolve = .ok schema := ⟨_, rfl⟩
    obtain ⟨hcoherent, hdescribes, hmoved, hvisited, -⟩ := resolve_accepts_coherent library
    refine ⟨hcoherent.mp ⟨schema, hschema⟩, schema, hschema, hdescribes schema hschema, ?_, ?_⟩
    · exact hmoved ⟨none, library.nodes.reverse⟩ (List.reverse_perm _) schema hschema
    · have hvalid := (resolve_eq_ok_iff.mp hschema).2.2
      exact (hvisited schema _ (List.reverse_perm _)).mpr hvalid
  · have hkinded : misfiled.Kinded := by
      simp [Kinded, misfiled, FieldDefinition.HasOneKind, FieldDefinition.IsScalar]
    have hrepeats : ¬ (misfiled.nodes.map (·.name)).Nodup := by decide
    obtain ⟨-, -, -, -, hduplicate⟩ := resolve_accepts_coherent misfiled
    exact ⟨hkinded, hrepeats, hduplicate hkinded hrepeats⟩

end SchemaDefinition

end GraphRead
