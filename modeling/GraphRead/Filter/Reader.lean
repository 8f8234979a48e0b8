import GraphRead.Filter.Basic

/-!
# Reading filters

A filter is written as a JSON object. Its entries all have to hold; a junction
key holds a list of further objects, and every other key is resolved against the
element that the filter applies to. Objects may be nested only so deeply: the
budget counts the levels that are left, and a path is one key deeper for every
level that is spent.
-/

namespace GraphRead

/-- The outcome of reading a part of a filter. -/
abbrev FilterResult := Except FilterError

namespace FilterReader

/-- The members of a list all of which have to be objects. -/
def checkObjects (path : KeyPath) : (index : Nat) → List Json → FilterResult Unit
  | _, [] => .ok ()
  | index, item :: rest =>
    if item.isObject then checkObjects path (index + 1) rest
    else .error (.wrongShape (path.index index) .object item.kind)

/-- A list of objects. -/
def objects (path : KeyPath) : Json → FilterResult (List Json)
  | .array items => do
    checkObjects path 0 items
    return items
  | value => .error (.wrongShape path .objects value.kind)

/-- The members of a list, each read at its own path. -/
def members {β : Type} (member : KeyPath → Json → FilterResult β) (path : KeyPath) :
    (index : Nat) → List Json → FilterResult (List β)
  | _, [] => .ok []
  | index, item :: rest => do
    let first ← member (path.index index) item
    let others ← members member path (index + 1) rest
    return first :: others

/-- The entries of an object. Junction keys hold lists of further objects, read by `member`; other
keys are read by `entry`. -/
def entries {β : Type} (join : Junction → List β → β) (member : KeyPath → Json → FilterResult β)
    (entry : KeyPath → String → Json → FilterResult β) (path : KeyPath) :
    List (String × Json) → FilterResult (List β)
  | [] => .ok []
  | (key, value) :: rest => do
    let first ←
      match Junction.ofKey? key with
      | some junction => do
        let items ← objects (path.key key) value
        let parts ← members member (path.key key) 0 items
        pure (join junction parts)
      | none => entry (path.key key) key value
    let others ← entries join member entry path rest
    return first :: others

/-- An object, all of whose entries have to hold. -/
def object {β : Type} (join : Junction → List β → β) (member : KeyPath → Json → FilterResult β)
    (entry : KeyPath → String → Json → FilterResult β) (path : KeyPath) :
    Json → FilterResult β
  | .object parts => do
    let parts ← entries join member entry path parts
    return join .all parts
  | value => .error (.wrongShape path .object value.kind)

/-- The first reading of a key that fits the element. A scalar field takes no marker. -/
def resolve? (element : Element) (key : String) : Option (Reading × Field) :=
  (FilterKey.readings key).findSome? fun reading =>
    (element.field? reading.field).bind fun field =>
      if field.scalar?.isSome ∧ reading.marker.isSome then none else some (reading, field)

/-- The link of a relationship field, if its target is registered. -/
def link (schema : Schema) (field : Field) (relationship : Relationship) : FilterResult Link :=
  match schema.node relationship.target with
  | .ok target => .ok ⟨field.name, relationship, target⟩
  | .error error => .error (.schema error)

/-- The quantifier of a key: at least one, unless an operator says otherwise. -/
def quantifier (path : KeyPath) (field : Field) : Option String → FilterResult Quantifier
  | none => .ok .any
  | some operator =>
    match Quantifier.ofSuffix? operator with
    | some quantifier => .ok quantifier
    | none => .error (.unsupportedOperator path field.name operator)

/-- The operator of a key on a scalar field, which has to allow it. -/
def scalarOperator (path : KeyPath) (field : Field) :
    Option String → FilterResult (Option FilterOperator)
  | none => .ok none
  | some suffix =>
    match FilterOperator.ofSuffix? suffix with
    | some operator =>
      if field.allows operator then .ok (some operator)
      else .error (.unsupportedOperator path field.name suffix)
    | none => .error (.unsupportedOperator path field.name suffix)

/-- Whether an operator compares with the members of a list. -/
def takesList : Option FilterOperator → Bool
  | some .oneOf | some .notOneOf => true
  | _ => false

/-- A test on a scalar field. -/
def scalar (path : KeyPath) (field : Field) (suffix : Option String) (value : Json) :
    FilterResult Filter := do
  let operator ← scalarOperator path field suffix
  if takesList operator ∧ !value.isNull ∧ !value.isArray then
    .error (.wrongShape path .list value.kind)
  else return .property field.property operator value

/-- Null stands for the absence of anything to read. -/
def unlessNull {β : Type} (read : Json → FilterResult β) (value : Json) :
    FilterResult (Option β) :=
  if value.isNull then .ok none else (read value).map some

/-- An entry of a filter on an element, given how nested filters are read. -/
def entry (schema : Schema) (filter : Element → KeyPath → Json → FilterResult Filter)
    (connection : Link → KeyPath → Json → FilterResult ConnectionFilter)
    (aggregate : Link → KeyPath → Json → FilterResult AggregateFilter)
    (element : Element) (path : KeyPath) (key : String) (value : Json) : FilterResult Filter :=
  match resolve? element key with
  | none => .error (.unknownField path element.name key)
  | some (reading, field) =>
    match field.kind, reading.marker with
    | .scalar _, _ => scalar path field reading.operator value
    | .relationship relationship, none => do
      let quantifier ← quantifier path field reading.operator
      let link ← link schema field relationship
      let inner ← unlessNull (filter link.target.element path) value
      return .related link quantifier inner
    | .relationship relationship, some .connection => do
      let quantifier ← quantifier path field reading.operator
      let link ← link schema field relationship
      let inner ← unlessNull (connection link path) value
      return .connected link quantifier inner
    | .relationship relationship, some .aggregate =>
      match reading.operator with
      | some operator => .error (.unsupportedOperator path field.name operator)
      | none => do
        let link ← link schema field relationship
        let inner ← aggregate link path value
        return .aggregated link inner

/-- An entry of a connection filter: a filter on the node or on the relationship, plain or
negated. -/
def connectionEntry (filter : Element → KeyPath → Json → FilterResult Filter) (link : Link)
    (path : KeyPath) (key : String) (value : Json) : FilterResult ConnectionFilter :=
  match key with
  | "node" => (filter link.target.element path value).map (.node false)
  | "node_NOT" => (filter link.target.element path value).map (.node true)
  | "edge" => (filter link.relationship.element path value).map (.edge false)
  | "edge_NOT" => (filter link.relationship.element path value).map (.edge true)
  | _ => .error (.unknownField path (link.field ++ Marker.connection.word) key)

/-- Whether a function can be applied to a scalar. -/
def fits (scalar : Scalar) : AggregateFunction → Bool
  | .average | .sum => !scalar.isList && scalar.type.isNumeric
  | .min | .max => !scalar.isList && scalar.type.isOrderable && !scalar.type.isStringLike
  | .shortestLength | .longestLength | .averageLength =>
    !scalar.isList && scalar.type.isStringLike

/-- An entry of an aggregate filter on one side: a scalar field, a function that fits it, and a
comparison. -/
def sideEntry (side : Side) (element : Element) (path : KeyPath) (key : String) (value : Json) :
    FilterResult AggregateFilter :=
  let unknown := .error (.unknownField path element.name key)
  match FilterKey.aggregate? key with
  | none => unknown
  | some parsed =>
    match element.field? parsed.field with
    | none => unknown
    | some field =>
      match field.scalar? with
      | none => unknown
      | some scalar =>
        if fits scalar parsed.function then
          .ok (.test (.over side field.property parsed.function) parsed.comparison value)
        else
          let suffix := String.ofList (key.toList.drop (parsed.field.length + 1))
          .error (.unsupportedOperator path field.name suffix)

/-- A filter on the aggregates of one side. -/
def side (limit : Nat) (s : Side) (element : Element) :
    (budget : Nat) → KeyPath → Json → FilterResult AggregateFilter
  | 0, path, _ => .error (.tooDeep path limit)
  | budget + 1, path, value =>
    object AggregateFilter.join (side limit s element budget) (sideEntry s element) path value

/-- An entry of an aggregate filter: one of the two sides, or the number of related nodes. -/
def aggregateEntry (side : Side → Element → KeyPath → Json → FilterResult AggregateFilter)
    (link : Link) (path : KeyPath) (key : String) (value : Json) :
    FilterResult AggregateFilter :=
  if key = "node" then side .node link.target.element path value
  else if key = "edge" then side .edge link.relationship.element path value
  else
    match FilterKey.count? key with
    | some comparison => .ok (.test .count comparison value)
    | none => .error (.unknownField path (link.field ++ Marker.aggregate.word) key)

/-- An aggregate filter. -/
def aggregate (limit : Nat) (link : Link) :
    (budget : Nat) → KeyPath → Json → FilterResult AggregateFilter
  | 0, path, _ => .error (.tooDeep path limit)
  | budget + 1, path, value =>
    object AggregateFilter.join (aggregate limit link budget)
      (aggregateEntry (fun s element => side limit s element budget) link) path value

mutual
/-- A filter on an element. -/
def filter (schema : Schema) (limit : Nat) :
    (budget : Nat) → Element → KeyPath → Json → FilterResult Filter
  | 0, _, path, _ => .error (.tooDeep path limit)
  | budget + 1, element, path, value =>
    object Filter.join (filter schema limit budget element)
      (entry schema (filter schema limit budget) (connection schema limit budget)
        (fun link => aggregate limit link budget) element)
      path value
termination_by structural budget => budget

/-- A filter on a connection. -/
def connection (schema : Schema) (limit : Nat) :
    (budget : Nat) → Link → KeyPath → Json → FilterResult ConnectionFilter
  | 0, _, path, _ => .error (.tooDeep path limit)
  | budget + 1, link, path, value =>
    object ConnectionFilter.join (connection schema limit budget link)
      (connectionEntry (filter schema limit budget) link) path value
termination_by structural budget => budget
end

end FilterReader

/-- The filter on an element that a JSON value describes. A value at the depth of the limit may
still be read. -/
def Filter.read (schema : Schema) (limit : Nat) (element : Element) (path : KeyPath)
    (value : Json) : FilterResult Filter :=
  FilterReader.filter schema limit (limit + 1) element path value

/-- The filter on a connection that a JSON value describes. -/
def ConnectionFilter.read (schema : Schema) (limit : Nat) (link : Link) (path : KeyPath)
    (value : Json) : FilterResult ConnectionFilter :=
  FilterReader.connection schema limit (limit + 1) link path value

end GraphRead
