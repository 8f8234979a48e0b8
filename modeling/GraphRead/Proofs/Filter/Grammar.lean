import GraphRead.Filter.Predicate
import GraphRead.Proofs.Filter.Place

/-!
# The grammar of filters

Which JSON values are filters is said by a grammar. At every place certain keys
are allowed, and an allowed key says what may stand under it. A value fits the
grammar if it does so part by part and is not nested too deeply. The reader of
filters accepts exactly the values that fit.
-/

namespace GraphRead

/-- A reading of a key names a field of an element. A scalar field takes no marker. -/
def Reading.Names (reading : Reading) (element : Element) (field : Field) : Prop :=
  element.field? reading.field = some field ∧ (field.scalar?.isSome → reading.marker = none)

/-- A key that is no junction is read in the first of its readings that names a field. -/
structure Element.ReadsKey (element : Element) (key : String) (reading : Reading)
    (field : Field) : Prop where
  notJunction : Junction.ofKey? key = none
  first : ∃ before after, FilterKey.readings key = before ++ reading :: after ∧
    ∀ earlier ∈ before, ∀ other, ¬ earlier.Names element other
  names : reading.Names element field

/-- What may stand under a key. -/
inductive Content where
  | anything
  | listOrNull
  | object (place : Place)
  | objectOrNull (place : Place)
  /-- A list of objects. -/
  | objects (place : Place)

/-- What may stand under the key of a scalar field. -/
def FilterOperator.content : FilterOperator → Content
  | oneOf | notOneOf => .listOrNull
  | _ => .anything

/-- Whether an aggregate can be taken of values of a type. -/
def AggregateFunction.Takes : AggregateFunction → ScalarType → Prop
  | average, type | sum, type => type ∈ [.int, .bigInt, .float]
  | min, type | max, type => type ∉ [.id, .string, .boolean]
  | shortestLength, type | longestLength, type | averageLength, type => type ∈ [.id, .string]

/-- The keys that are allowed at a place, and what may stand under them. -/
inductive Place.Allows (schema : Schema) : Place → String → Content → Prop where
  | junction {place : Place} {key : String} (hkey : key = "AND" ∨ key = "OR") :
    Allows schema place key (.objects place)
  | equal {element : Element} {key : String} {reading : Reading} {field : Field} {scalar : Scalar}
    (hkey : element.ReadsKey key reading field) (hfield : field.kind = .scalar scalar)
    (hoperator : reading.operator = none) :
    Allows schema (.element element) key .anything
  | compared {element : Element} {key : String} {reading : Reading} {field : Field}
    {scalar : Scalar} {operator : FilterOperator}
    (hkey : element.ReadsKey key reading field) (hfield : field.kind = .scalar scalar)
    (hoperator : reading.operator = some operator.suffix) (hallowed : operator ∈ scalar.allowed) :
    Allows schema (.element element) key operator.content
  | related {element : Element} {key : String} {reading : Reading} {field : Field}
    {relationship : Relationship} {target : Node} {quantifier : Quantifier}
    (hkey : element.ReadsKey key reading field) (hfield : field.kind = .relationship relationship)
    (hmarker : reading.marker = none)
    (hquantifier : Quantifier.ofKey? reading.operator = some quantifier)
    (htarget : schema.node? relationship.target = some target) :
    Allows schema (.element element) key (.objectOrNull (.element target.element))
  | connected {element : Element} {key : String} {reading : Reading} {field : Field}
    {relationship : Relationship} {target : Node} {quantifier : Quantifier}
    (hkey : element.ReadsKey key reading field) (hfield : field.kind = .relationship relationship)
    (hmarker : reading.marker = some .connection)
    (hquantifier : Quantifier.ofKey? reading.operator = some quantifier)
    (htarget : schema.node? relationship.target = some target) :
    Allows schema (.element element) key
      (.objectOrNull (.connection ⟨field.name, relationship, target⟩))
  | aggregated {element : Element} {key : String} {reading : Reading} {field : Field}
    {relationship : Relationship} {target : Node}
    (hkey : element.ReadsKey key reading field) (hfield : field.kind = .relationship relationship)
    (hmarker : reading.marker = some .aggregate) (hoperator : reading.operator = none)
    (htarget : schema.node? relationship.target = some target) :
    Allows schema (.element element) key
      (.object (.aggregate ⟨field.name, relationship, target⟩))
  | node {link : Link} {key : String} (hkey : key = "node" ∨ key = "node_NOT") :
    Allows schema (.connection link) key (.object (.element link.target.element))
  | edge {link : Link} {key : String} (hkey : key = "edge" ∨ key = "edge_NOT") :
    Allows schema (.connection link) key (.object (.element link.relationship.element))
  | nodeSide {link : Link} :
    Allows schema (.aggregate link) "node" (.object (.side link.target.element))
  | edgeSide {link : Link} :
    Allows schema (.aggregate link) "edge" (.object (.side link.relationship.element))
  | count {link : Link} {key : String}
    (hkey : key ∈ ["count", "count_GTE", "count_GT", "count_LTE", "count_LT"]) :
    Allows schema (.aggregate link) key .anything
  | test {element : Element} {key : String} {parsed : AggregateKey} {field : Field}
    {scalar : Scalar} (hkey : FilterKey.aggregate? key = some parsed)
    (hnamed : element.field? parsed.field = some field) (hfield : field.kind = .scalar scalar)
    (hsingle : scalar.isList = false) (htype : parsed.function.Takes scalar.type) :
    Allows schema (.side element) key .anything

/-- Whether null may stand under a key. -/
def Content.AdmitsNull : Content → Prop
  | .anything | .listOrNull | .objectOrNull _ => True
  | .object _ | .objects _ => False

mutual
/-- A value may stand where it does, so many keys below the whole filter. -/
def Json.Fits (schema : Schema) (limit : Nat) : Json → Content → (depth : Nat) → Prop
  | .null, content, _ => content.AdmitsNull
  | .array items, content, depth =>
    match content with
    | .anything | .listOrNull => True
    | .objects place => Json.AllFit schema limit items place depth
    | .object _ | .objectOrNull _ => False
  | .object entries, content, depth =>
    match content with
    | .anything => True
    | .object place | .objectOrNull place =>
      depth ≤ limit ∧ Json.EntriesFit schema limit entries place depth
    | .listOrNull | .objects _ => False
  | .bool _, content, _ | .number _, content, _ | .string _, content, _ => content = .anything
termination_by structural value => value

/-- All members of a list are objects that may stand at a place. -/
def Json.AllFit (schema : Schema) (limit : Nat) : List Json → Place → (depth : Nat) → Prop
  | [], _, _ => True
  | item :: rest, place, depth =>
    item.Fits schema limit (.object place) depth ∧ Json.AllFit schema limit rest place depth
termination_by structural items => items

/-- The keys of all entries are allowed at a place, and the values fit. -/
def Json.EntriesFit (schema : Schema) (limit : Nat) :
    List (String × Json) → Place → (depth : Nat) → Prop
  | [], _, _ => True
  | (key, value) :: rest, place, depth =>
    (∃ content, place.Allows schema key content ∧ value.Fits schema limit content (depth + 1)) ∧
      Json.EntriesFit schema limit rest place depth
termination_by structural entries => entries
end

namespace Json

variable {schema : Schema} {limit depth : Nat} {place : Place} {value : Json}

/-- Everything fits where anything is expected. -/
theorem fits_anything : value.Fits schema limit .anything depth := by
  cases value <;> simp [Fits, Content.AdmitsNull]

/-- A list or null fits where one of them is expected. -/
theorem fits_listOrNull :
    value.Fits schema limit .listOrNull depth ↔ value.isNull ∨ value.isArray := by
  cases value <;> simp [Fits, Content.AdmitsNull, isNull, isArray]

/-- An object fits if it is not too deep and its entries fit. -/
theorem fits_object : value.Fits schema limit (.object place) depth ↔
    ∃ entries, value = .object entries ∧ depth ≤ limit ∧
      EntriesFit schema limit entries place depth := by
  cases value <;> simp [Fits, Content.AdmitsNull]

/-- Null fits where it is allowed instead of an object. -/
theorem fits_objectOrNull : value.Fits schema limit (.objectOrNull place) depth ↔
    value.isNull ∨ value.Fits schema limit (.object place) depth := by
  cases value <;> simp [Fits, Content.AdmitsNull, isNull]

/-- A list fits where objects are expected, if its members fit. -/
theorem fits_objects : value.Fits schema limit (.objects place) depth ↔
    ∃ items, value = .array items ∧ AllFit schema limit items place depth := by
  cases value <;> simp [Fits, Content.AdmitsNull]

/-- Below the limit there are no objects. -/
theorem not_fits_object (h : limit < depth) :
    ¬ value.Fits schema limit (.object place) depth := by
  rw [fits_object]
  rintro ⟨entries, -, hdepth, -⟩
  omega

end Json

/-- The two words for junctions. -/
theorem Junction.ofKey?_isSome_iff {key : String} :
    (Junction.ofKey? key).isSome ↔ key = "AND" ∨ key = "OR" := by
  unfold Junction.ofKey?
  split <;> simp_all

/-- A key that is no junction is none of their words. -/
theorem Junction.not_word {key : String} (hkey : Junction.ofKey? key = none) :
    ¬ (key = "AND" ∨ key = "OR") := by
  simp [← ofKey?_isSome_iff, hkey]

/-- Under a junction key stands a list of objects of the same place and nothing else. -/
theorem Place.allows_junction {schema : Schema} {place : Place} {key : String} {content : Content}
    {junction : Junction} (hkey : Junction.ofKey? key = some junction) :
    place.Allows schema key content ↔ content = .objects place := by
  have hwords : key = "AND" ∨ key = "OR" :=
    Junction.ofKey?_isSome_iff.mp (Option.isSome_of_eq_some hkey)
  constructor
  · intro h
    cases h with
    | junction => rfl
    | equal hread | compared hread | related hread | connected hread | aggregated hread =>
      simp [hread.notJunction] at hkey
    | node hnode => rcases hwords with rfl | rfl <;> simp at hnode
    | edge hedge => rcases hwords with rfl | rfl <;> simp at hedge
    | nodeSide | edgeSide => simp at hwords
    | count hcount => rcases hwords with rfl | rfl <;> simp at hcount
    | test htest =>
      have hnone : FilterKey.aggregate? "AND" = none ∧ FilterKey.aggregate? "OR" = none := by
        decide
      rcases hwords with rfl | rfl <;> simp [hnone] at htest
  · rintro rfl
    exact .junction hwords

/-- Objects that fit are objects. -/
theorem Json.isObject_of_allFit {schema : Schema} {limit depth : Nat} {place : Place}
    {items : List Json} (h : AllFit schema limit items place depth) :
    ∀ item ∈ items, item.isObject := by
  induction items with
  | nil => simp
  | cons item rest ih =>
    obtain ⟨hitem, hrest⟩ := h
    obtain ⟨entries, rfl, -⟩ := fits_object.mp hitem
    exact List.forall_mem_cons.mpr ⟨rfl, ih hrest⟩

namespace FilterReader

/-- A part of a filter is accepted. -/
def Accepts {β : Type} (result : FilterResult β) : Prop := ∃ b, result = .ok b

section Results

variable {β γ : Type}

/-- A result is accepted. -/
theorem accepts_ok (b : β) : Accepts (.ok b) := ⟨b, rfl⟩

/-- An error is not accepted. -/
theorem not_accepts_error (error : FilterError) : ¬ Accepts (.error error : FilterResult β) := by
  rintro ⟨b, h⟩
  cases h

/-- Steps in a row are accepted if the first has a result with which the next is. -/
theorem accepts_bind {first : FilterResult β} {next : β → FilterResult γ} :
    Accepts (first >>= next) ↔ ∃ b, first = .ok b ∧ Accepts (next b) := by
  constructor
  · rintro ⟨c, h⟩
    obtain ⟨b, hfirst, hnext⟩ := bind_eq_ok h
    exact ⟨b, hfirst, c, hnext⟩
  · rintro ⟨b, rfl, h⟩
    exact h

/-- A step whose acceptance does not depend on what was read before it. -/
theorem accepts_bind_and {first : FilterResult β} {next : β → FilterResult γ} {p : Prop}
    (hnext : ∀ b, Accepts (next b) ↔ p) : Accepts (first >>= next) ↔ Accepts first ∧ p := by
  rw [accepts_bind]
  simp only [hnext, exists_and_right]
  rfl

/-- Where the next step cannot fail, only the first one counts. -/
theorem accepts_bind_pure {first : FilterResult β} {make : β → γ} :
    Accepts (first >>= fun b => pure (make b)) ↔ Accepts first := by
  have h : Accepts (first >>= fun b => pure (make b)) ↔ Accepts first ∧ True :=
    accepts_bind_and fun b => iff_true_intro (accepts_ok (make b))
  rwa [and_true] at h

/-- What is made of a result is accepted as the result is. -/
theorem accepts_map {first : FilterResult β} {make : β → γ} :
    Accepts (first.map make) ↔ Accepts first := by
  cases first with
  | error error => simp [Except.map, not_accepts_error]
  | ok b => simp [Except.map, accepts_ok]

/-- Where null is allowed, it is accepted, and everything else as it is read. -/
theorem accepts_unlessNull {read : Json → FilterResult β} {value : Json} :
    Accepts (unlessNull read value) ↔ value.isNull ∨ Accepts (read value) := by
  unfold unlessNull
  split
  next h => simp [h, accepts_ok]
  next h => simp [h, accepts_map]

end Results

section Objects

variable {β : Type} {join : Junction → List β → β} {member : KeyPath → Json → FilterResult β}
  {entry : KeyPath → String → Json → FilterResult β} {schema : Schema} {limit depth : Nat}
  {place : Place}

/-- A list of objects passes the check. -/
theorem checkObjects_eq_ok {path : KeyPath} {index : Nat} {items : List Json}
    (h : ∀ item ∈ items, item.isObject) : checkObjects path index items = .ok () := by
  induction items generalizing index with
  | nil => rfl
  | cons item rest ih =>
    rw [List.forall_mem_cons] at h
    rw [checkObjects, if_pos h.1]
    exact ih h.2

/-- A list is accepted if its members are. -/
theorem accepts_members
    (hmember : ∀ path item, Accepts (member path item) ↔
      item.Fits schema limit (.object place) depth)
    {path : KeyPath} {index : Nat} {items : List Json} :
    Accepts (members member path index items) ↔ Json.AllFit schema limit items place depth := by
  induction items generalizing index with
  | nil => simp [members, accepts_ok, Json.AllFit]
  | cons item rest ih =>
    rw [members, Json.AllFit, ← hmember (path.index index)]
    exact accepts_bind_and fun _ => accepts_bind_pure.trans ih

/-- The value under a junction key is accepted if it is a list of objects that are. -/
theorem accepts_junction
    (hmember : ∀ path item, Accepts (member path item) ↔
      item.Fits schema limit (.object place) depth)
    (path : KeyPath) {value : Json} :
    Accepts (objects path value >>= members member path 0) ↔
      value.Fits schema limit (.objects place) depth := by
  rw [accepts_bind, Json.fits_objects]
  simp only [accepts_members hmember]
  constructor
  · rintro ⟨items, hitems, hfit⟩
    exact ⟨items, eq_array_of_objects hitems, hfit⟩
  · rintro ⟨items, rfl, hfit⟩
    refine ⟨items, ?_, hfit⟩
    rw [objects, checkObjects_eq_ok (Json.isObject_of_allFit hfit)]
    rfl

/-- The entries of an object are accepted if their keys are allowed and their values fit. -/
theorem accepts_entries
    (hmember : ∀ path item, Accepts (member path item) ↔
      item.Fits schema limit (.object place) (depth + 1))
    (hentry : ∀ path key value, Junction.ofKey? key = none →
      (Accepts (entry path key value) ↔
        ∃ content, place.Allows schema key content ∧ value.Fits schema limit content (depth + 1)))
    {path : KeyPath} {pairs : List (String × Json)} :
    Accepts (entries join member entry path pairs) ↔
      Json.EntriesFit schema limit pairs place depth := by
  induction pairs with
  | nil => simp [entries, accepts_ok, Json.EntriesFit]
  | cons pair rest ih =>
    obtain ⟨key, value⟩ := pair
    rw [entries, Json.EntriesFit]
    cases hkey : Junction.ofKey? key with
    | none =>
      rw [← hentry (path.key key) key value hkey]
      exact accepts_bind_and fun _ => accepts_bind_pure.trans ih
    | some junction =>
      simp only [Place.allows_junction hkey, exists_eq_left]
      rw [← accepts_junction hmember (path.key key), ← bind_assoc]
      exact accepts_bind_and fun _ => accepts_bind_pure.trans ih

/-- An object is accepted above the limit if its entries are. -/
theorem accepts_object
    (hmember : ∀ path item, Accepts (member path item) ↔
      item.Fits schema limit (.object place) (depth + 1))
    (hentry : ∀ path key value, Junction.ofKey? key = none →
      (Accepts (entry path key value) ↔
        ∃ content, place.Allows schema key content ∧ value.Fits schema limit content (depth + 1)))
    (hdepth : depth ≤ limit) {path : KeyPath} {value : Json} :
    Accepts (object join member entry path value) ↔
      value.Fits schema limit (.object place) depth := by
  rw [Json.fits_object]
  cases value with
  | object pairs =>
    rw [object, accepts_bind_pure, accepts_entries hmember hentry]
    simp [hdepth]
  | _ => simp [object, not_accepts_error]

end Objects

section Entries

variable {schema : Schema} {limit depth : Nat} {element : Element} {key : String} {value : Json}
  {path : KeyPath}

/-- A reading of a key together with the field that it names. -/
def named? (element : Element) (reading : Reading) : Option (Reading × Field) :=
  (element.field? reading.field).bind fun field =>
    if field.scalar?.isSome ∧ reading.marker.isSome then none else some (reading, field)

/-- A reading of a key is taken exactly if it names a field. -/
theorem named?_eq_some_iff {reading result : Reading} {field : Field} :
    named? element reading = some (result, field) ↔
      result = reading ∧ reading.Names element field := by
  unfold named? Reading.Names
  cases element.field? reading.field with
  | none => simp
  | some found =>
    simp only [Option.bind_some, Option.ite_none_left_eq_some, Option.some.injEq, Prod.mk.injEq,
      not_and, Bool.not_eq_true, Option.isSome_eq_false_iff, Option.isNone_iff_eq_none]
    constructor
    · rintro ⟨hmarker, rfl, rfl⟩
      exact ⟨rfl, rfl, hmarker⟩
    · rintro ⟨rfl, rfl, hmarker⟩
      exact ⟨hmarker, rfl, rfl⟩

/-- A reading of a key is not taken exactly if it names no field. -/
theorem named?_eq_none_iff {reading : Reading} :
    named? element reading = none ↔ ∀ field, ¬ reading.Names element field := by
  rw [Option.eq_none_iff_forall_ne_some]
  constructor
  · intro h field hnames
    exact h _ (named?_eq_some_iff.mpr ⟨rfl, hnames⟩)
  · rintro h ⟨result, field⟩ hnamed
    exact h field (named?_eq_some_iff.mp hnamed).2

/-- Resolving a key finds the first of its readings that names a field. -/
theorem resolve?_eq_some_iff (hkey : Junction.ofKey? key = none) {reading : Reading}
    {field : Field} :
    resolve? element key = some (reading, field) ↔ element.ReadsKey key reading field := by
  have hresolve : resolve? element key = (FilterKey.readings key).findSome? (named? element) := rfl
  rw [hresolve, List.findSome?_eq_some_iff]
  constructor
  · rintro ⟨before, first, after, hsplit, hfirst, hbefore⟩
    obtain ⟨rfl, hnames⟩ := named?_eq_some_iff.mp hfirst
    refine ⟨hkey, ⟨before, after, hsplit, ?_⟩, hnames⟩
    exact fun earlier h => named?_eq_none_iff.mp (hbefore earlier h)
  · rintro ⟨-, ⟨before, after, hsplit, hbefore⟩, hnames⟩
    exact ⟨before, reading, after, hsplit, named?_eq_some_iff.mpr ⟨rfl, hnames⟩,
      fun earlier h => named?_eq_none_iff.mpr (hbefore earlier h)⟩

/-- An operator is read from its own suffix only. -/
theorem ofSuffix?_eq_some_iff {suffix : String} {operator : FilterOperator} :
    FilterOperator.ofSuffix? suffix = some operator ↔ suffix = operator.suffix := by
  constructor
  · intro h
    simpa [eq_comm] using List.find?_some h
  · rintro rfl
    cases operator <;> decide

/-- What may stand under the key of a scalar field depends on the operator alone. -/
theorem fits_operator {operator : FilterOperator} :
    value.Fits schema limit operator.content depth ↔
      ¬ (takesList (some operator) ∧ !value.isNull ∧ !value.isArray) := by
  cases operator <;>
    simp [FilterOperator.content, takesList, Json.fits_anything, Json.fits_listOrNull,
      Decidable.or_iff_not_imp_left]

/-- The operators of a scalar field are those that it allows. -/
theorem scalarOperator_eq_ok_iff {field : Field} {s : Scalar} (hfield : field.kind = .scalar s)
    {suffix : Option String} {result : Option FilterOperator} :
    scalarOperator path field suffix = .ok result ↔
      (suffix = none ∧ result = none) ∨ ∃ operator : FilterOperator,
        suffix = some operator.suffix ∧ operator ∈ s.allowed ∧ result = some operator := by
  cases suffix with
  | none => simp [scalarOperator, eq_comm]
  | some suffix =>
    simp only [scalarOperator, Option.some.injEq, ← ofSuffix?_eq_some_iff]
    cases FilterOperator.ofSuffix? suffix with
    | none => simp
    | some operator =>
      by_cases hallowed : operator ∈ s.allowed <;>
        simp [Field.allows, hfield, hallowed, eq_comm]

/-- A test on a scalar field has an operator that the field allows, and a value for it. -/
theorem accepts_scalar (schema : Schema) (limit depth : Nat) {field : Field} {s : Scalar}
    (hfield : field.kind = .scalar s) {suffix : Option String} :
    Accepts (scalar path field suffix value) ↔
      suffix = none ∨ ∃ operator : FilterOperator, suffix = some operator.suffix ∧
        operator ∈ s.allowed ∧ value.Fits schema limit operator.content depth := by
  unfold scalar
  rw [accepts_bind]
  simp only [scalarOperator_eq_ok_iff hfield]
  constructor
  · rintro ⟨result, ⟨rfl, rfl⟩ | ⟨operator, rfl, hallowed, rfl⟩, hvalue⟩
    · exact .inl rfl
    · refine .inr ⟨operator, rfl, hallowed, fits_operator.mpr fun hlist => ?_⟩
      rw [if_pos hlist] at hvalue
      exact not_accepts_error _ hvalue
  · rintro (rfl | ⟨operator, rfl, hallowed, hfits⟩)
    · exact ⟨none, .inl ⟨rfl, rfl⟩, accepts_ok _⟩
    · refine ⟨some operator, .inr ⟨operator, rfl, hallowed, rfl⟩, ?_⟩
      rw [if_neg (fits_operator.mp hfits)]
      exact accepts_ok _

/-- A quantifier is accepted if there is one of that name. -/
theorem accepts_quantifier (path : KeyPath) (field : Field) {suffix : Option String} :
    Accepts (quantifier path field suffix) ↔
      ∃ result, Quantifier.ofKey? suffix = some result := by
  cases suffix with
  | none => simp [quantifier, Quantifier.ofKey?, accepts_ok]
  | some suffix =>
    simp only [quantifier, Quantifier.ofKey?]
    cases Quantifier.ofSuffix? suffix with
    | none => simp [not_accepts_error]
    | some result => simp [accepts_ok]

/-- A link is found if its target is registered. -/
theorem link_eq_ok_iff {field : Field} {relationship : Relationship} {result : Link} :
    link schema field relationship = .ok result ↔
      ∃ target, schema.node? relationship.target = some target ∧
        result = ⟨field.name, relationship, target⟩ := by
  constructor
  · exact node?_of_link
  · rintro ⟨target, htarget, rfl⟩
    simp [link, Schema.node, htarget]

/-- A quantified filter needs a quantifier, a registered target, and an inner filter or null. -/
theorem accepts_quantified {β γ : Type} {read : Link → KeyPath → Json → FilterResult β}
    {place : Link → Place} (hread : ∀ link path value, Accepts (read link path value) ↔
      value.Fits schema limit (.object (place link)) depth)
    {field : Field} {suffix : Option String} {relationship : Relationship}
    {make : Link → Quantifier → Option β → γ} :
    Accepts (do
        let quantifier ← quantifier path field suffix
        let link ← link schema field relationship
        let inner ← unlessNull (read link path) value
        return make link quantifier inner) ↔
      (∃ result, Quantifier.ofKey? suffix = some result) ∧
        ∃ target, schema.node? relationship.target = some target ∧
          value.Fits schema limit (.objectOrNull (place ⟨field.name, relationship, target⟩))
            depth := by
  rw [← accepts_quantifier path field]
  refine accepts_bind_and fun quantifier => ?_
  rw [accepts_bind]
  simp only [accepts_bind_pure, accepts_unlessNull, hread, ← Json.fits_objectOrNull,
    link_eq_ok_iff]
  constructor
  · rintro ⟨link, ⟨target, htarget, rfl⟩, hfits⟩
    exact ⟨target, htarget, hfits⟩
  · rintro ⟨target, htarget, hfits⟩
    exact ⟨_, ⟨target, htarget, rfl⟩, hfits⟩

variable {filter : Element → KeyPath → Json → FilterResult Filter}
  {connection : Link → KeyPath → Json → FilterResult ConnectionFilter}
  {aggregate : Link → KeyPath → Json → FilterResult AggregateFilter}

/-- An entry of a filter on an element is accepted if its key is allowed and its value fits. -/
theorem accepts_entry
    (hfilter : ∀ element path value, Accepts (filter element path value) ↔
      value.Fits schema limit (.object (.element element)) depth)
    (hconnection : ∀ link path value, Accepts (connection link path value) ↔
      value.Fits schema limit (.object (.connection link)) depth)
    (haggregate : ∀ link path value, Accepts (aggregate link path value) ↔
      value.Fits schema limit (.object (.aggregate link)) depth)
    (hkey : Junction.ofKey? key = none) :
    Accepts (entry schema filter connection aggregate element path key value) ↔
      ∃ content, (Place.element element).Allows schema key content ∧
        value.Fits schema limit content depth := by
  have hrelated (link : Link) (path : KeyPath) (value : Json) :
      Accepts (filter link.target.element path value) ↔
        value.Fits schema limit (.object (.element link.target.element)) depth :=
    hfilter link.target.element path value
  unfold entry
  -- Every branch of the reader that accepts is one way in which a key is allowed, and a key that is
  -- allowed in some way takes the reader to its branch.
  constructor
  · intro h
    cases hresolve : resolve? element key with
    | none =>
      simp only [hresolve] at h
      exact absurd h (not_accepts_error _)
    | some resolved =>
      obtain ⟨reading, field⟩ := resolved
      have hreads := (resolve?_eq_some_iff hkey).mp hresolve
      cases hkind : field.kind with
      | scalar s =>
        simp only [hresolve, hkind] at h
        rcases (accepts_scalar schema limit depth hkind).mp h with
          hnone | ⟨operator, hsome, hallowed, hfits⟩
        · exact ⟨_, .equal hreads hkind hnone, Json.fits_anything⟩
        · exact ⟨_, .compared hreads hkind hsome hallowed, hfits⟩
      | relationship relationship =>
        cases hmarker : reading.marker with
        | none =>
          simp only [hresolve, hkind, hmarker] at h
          obtain ⟨⟨_, hquantifier⟩, target, htarget, hfits⟩ := (accepts_quantified hrelated).mp h
          exact ⟨_, .related hreads hkind hmarker hquantifier htarget, hfits⟩
        | some marker =>
          cases marker with
          | connection =>
            simp only [hresolve, hkind, hmarker] at h
            obtain ⟨⟨_, hquantifier⟩, target, htarget, hfits⟩ :=
              (accepts_quantified hconnection).mp h
            exact ⟨_, .connected hreads hkind hmarker hquantifier htarget, hfits⟩
          | aggregate =>
            simp only [hresolve, hkind, hmarker] at h
            cases hoperator : reading.operator with
            | some operator =>
              simp only [hoperator] at h
              exact absurd h (not_accepts_error _)
            | none =>
              simp only [hoperator] at h
              obtain ⟨link, hlink, h⟩ := accepts_bind.mp h
              obtain ⟨target, htarget, rfl⟩ := link_eq_ok_iff.mp hlink
              exact ⟨_, .aggregated hreads hkind hmarker hoperator htarget,
                (haggregate _ _ _).mp (accepts_bind_pure.mp h)⟩
  · rintro ⟨content, hallows, hfits⟩
    cases hallows with
    | junction hwords => exact absurd hwords (Junction.not_word hkey)
    | equal hreads hkind hnone =>
      simp only [(resolve?_eq_some_iff hkey).mpr hreads, hkind]
      exact (accepts_scalar schema limit depth hkind).mpr (.inl hnone)
    | compared hreads hkind hsome hallowed =>
      simp only [(resolve?_eq_some_iff hkey).mpr hreads, hkind]
      exact (accepts_scalar schema limit depth hkind).mpr (.inr ⟨_, hsome, hallowed, hfits⟩)
    | related hreads hkind hmarker hquantifier htarget =>
      simp only [(resolve?_eq_some_iff hkey).mpr hreads, hkind, hmarker]
      exact (accepts_quantified hrelated).mpr ⟨⟨_, hquantifier⟩, _, htarget, hfits⟩
    | connected hreads hkind hmarker hquantifier htarget =>
      simp only [(resolve?_eq_some_iff hkey).mpr hreads, hkind, hmarker]
      exact (accepts_quantified hconnection).mpr ⟨⟨_, hquantifier⟩, _, htarget, hfits⟩
    | aggregated hreads hkind hmarker hoperator htarget =>
      simp only [(resolve?_eq_some_iff hkey).mpr hreads, hkind, hmarker, hoperator]
      exact accepts_bind.mpr ⟨_, link_eq_ok_iff.mpr ⟨_, htarget, rfl⟩,
        accepts_bind_pure.mpr ((haggregate _ _ _).mpr hfits)⟩

/-- An entry of a connection filter is accepted if it is a filter on one of the sides. -/
theorem accepts_connectionEntry {link : Link}
    (hfilter : ∀ element path value, Accepts (filter element path value) ↔
      value.Fits schema limit (.object (.element element)) depth)
    (hkey : Junction.ofKey? key = none) :
    Accepts (connectionEntry filter link path key value) ↔
      ∃ content, (Place.connection link).Allows schema key content ∧
        value.Fits schema limit content depth := by
  unfold connectionEntry
  constructor
  · intro h
    split at h
    · exact ⟨_, .node (.inl rfl), (hfilter ..).mp (accepts_map.mp h)⟩
    · exact ⟨_, .node (.inr rfl), (hfilter ..).mp (accepts_map.mp h)⟩
    · exact ⟨_, .edge (.inl rfl), (hfilter ..).mp (accepts_map.mp h)⟩
    · exact ⟨_, .edge (.inr rfl), (hfilter ..).mp (accepts_map.mp h)⟩
    · exact absurd h (not_accepts_error _)
  · rintro ⟨content, hallows, hfits⟩
    cases hallows with
    | junction hwords => exact absurd hwords (Junction.not_word hkey)
    | node hnode => rcases hnode with rfl | rfl <;> exact accepts_map.mpr ((hfilter ..).mpr hfits)
    | edge hedge => rcases hedge with rfl | rfl <;> exact accepts_map.mpr ((hfilter ..).mpr hfits)

/-- A field with a scalar is of that kind. -/
theorem kind_of_scalar? {field : Field} {s : Scalar} (h : field.scalar? = some s) :
    field.kind = .scalar s := by
  unfold Field.scalar? at h
  split at h <;> simp_all

/-- A function fits a scalar that is no list and has a type that the function takes. -/
theorem fits_iff {s : Scalar} {function : AggregateFunction} :
    fits s function ↔ s.isList = false ∧ function.Takes s.type := by
  obtain ⟨type, isList, operators⟩ := s
  cases function <;> cases type <;>
    simp [fits, AggregateFunction.Takes, ScalarType.isNumeric, ScalarType.isOrderable,
      ScalarType.isStringLike]

/-- An entry of one side of an aggregate filter is accepted if it tests a field by a function
that fits it. -/
theorem accepts_sideEntry {s : Side} (hkey : Junction.ofKey? key = none) :
    Accepts (sideEntry s element path key value) ↔
      ∃ content, (Place.side element).Allows schema key content ∧
        value.Fits schema limit content depth := by
  unfold sideEntry
  constructor
  · intro h
    split at h
    next => exact absurd h (not_accepts_error _)
    next parsed hparsed =>
      split at h
      next => exact absurd h (not_accepts_error _)
      next field hnamed =>
        split at h
        next => exact absurd h (not_accepts_error _)
        next scalar hscalar =>
          split at h
          next hfits =>
            obtain ⟨hsingle, htype⟩ := fits_iff.mp hfits
            exact ⟨_, .test hparsed hnamed (kind_of_scalar? hscalar) hsingle htype,
              Json.fits_anything⟩
          next => exact absurd h (not_accepts_error _)
  · rintro ⟨content, hallows, hfits⟩
    cases hallows with
    | junction hwords => exact absurd hwords (Junction.not_word hkey)
    | test hparsed hnamed hkind hsingle htype =>
      simp only [hparsed, hnamed, Field.scalar?, hkind, if_pos (fits_iff.mpr ⟨hsingle, htype⟩)]
      exact accepts_ok _

/-- The comparisons of the count are read from five keys. -/
theorem count?_isSome_iff : (FilterKey.count? key).isSome ↔
    key ∈ ["count", "count_GTE", "count_GT", "count_LTE", "count_LT"] := by
  unfold FilterKey.count?
  by_cases hcount : key = "count"
  · simp [hcount]
  · simp [hcount, FilterKey.orderings, List.findSome?_isSome_iff]

/-- An entry of an aggregate filter is accepted if it is a side or tests the count. -/
theorem accepts_aggregateEntry {link : Link}
    {side : Side → Element → KeyPath → Json → FilterResult AggregateFilter}
    (hside : ∀ s element path value, Accepts (side s element path value) ↔
      value.Fits schema limit (.object (.side element)) depth)
    (hkey : Junction.ofKey? key = none) :
    Accepts (aggregateEntry side link path key value) ↔
      ∃ content, (Place.aggregate link).Allows schema key content ∧
        value.Fits schema limit content depth := by
  unfold aggregateEntry
  constructor
  · intro h
    split at h
    next hnode => exact ⟨_, hnode ▸ .nodeSide, (hside ..).mp h⟩
    next =>
      split at h
      next hedge => exact ⟨_, hedge ▸ .edgeSide, (hside ..).mp h⟩
      next =>
        cases hcount : FilterKey.count? key with
        | none =>
          simp only [hcount] at h
          exact absurd h (not_accepts_error _)
        | some comparison =>
          exact ⟨_, .count (count?_isSome_iff.mp (Option.isSome_of_eq_some hcount)),
            Json.fits_anything⟩
  · rintro ⟨content, hallows, hfits⟩
    cases hallows with
    | junction hwords => exact absurd hwords (Junction.not_word hkey)
    | nodeSide => exact (hside ..).mpr hfits
    | edgeSide => exact (hside ..).mpr hfits
    | count hword =>
      obtain ⟨comparison, hcount⟩ := Option.isSome_iff_exists.mp (count?_isSome_iff.mpr hword)
      have hnode : key ≠ "node" := by
        rintro rfl
        simp at hword
      have hedge : key ≠ "edge" := by
        rintro rfl
        simp at hword
      simp only [if_neg hnode, if_neg hedge, hcount]
      exact accepts_ok _

end Entries

/-- A filter on the aggregates of one side is accepted if it fits, the budget being the number of
levels above the limit. -/
theorem accepts_side (schema : Schema) {limit budget depth : Nat} (s : Side) (element : Element)
    (h : budget + depth = limit + 1) (path : KeyPath) (value : Json) :
    Accepts (side limit s element budget path value) ↔
      value.Fits schema limit (.object (.side element)) depth := by
  induction budget generalizing depth path value with
  | zero =>
    exact iff_of_false (not_accepts_error _) (Json.not_fits_object (by omega))
  | succ budget ih =>
    exact accepts_object (fun path value => ih (by omega) path value)
      (fun _ _ _ => accepts_sideEntry) (by omega)

/-- An aggregate filter is accepted exactly if it fits, where budget and depth make up the limit. -/
theorem accepts_aggregate (schema : Schema) {limit budget depth : Nat} (link : Link)
    (h : budget + depth = limit + 1) (path : KeyPath) (value : Json) :
    Accepts (aggregate limit link budget path value) ↔
      value.Fits schema limit (.object (.aggregate link)) depth := by
  induction budget generalizing depth path value with
  | zero =>
    exact iff_of_false (not_accepts_error _) (Json.not_fits_object (by omega))
  | succ budget ih =>
    exact accepts_object (fun path value => ih (by omega) path value)
      (fun _ _ _ => accepts_aggregateEntry fun s element =>
        accepts_side schema s element (by omega))
      (by omega)

/-- Filters on elements and on connections are accepted if they fit. -/
theorem accepts_filter_and_connection (schema : Schema) {limit budget depth : Nat}
    (h : budget + depth = limit + 1) :
    (∀ element path value, Accepts (filter schema limit budget element path value) ↔
      value.Fits schema limit (.object (.element element)) depth) ∧
    ∀ link path value, Accepts (connection schema limit budget link path value) ↔
      value.Fits schema limit (.object (.connection link)) depth := by
  induction budget generalizing depth with
  | zero =>
    have hdeep (place : Place) (value : Json) :
        ¬ value.Fits schema limit (.object place) depth := Json.not_fits_object (by omega)
    exact ⟨fun _ _ _ => iff_of_false (not_accepts_error _) (hdeep _ _),
      fun _ _ _ => iff_of_false (not_accepts_error _) (hdeep _ _)⟩
  | succ budget ih =>
    obtain ⟨hfilter, hconnection⟩ := ih (show budget + (depth + 1) = limit + 1 by omega)
    constructor
    · intro element path value
      exact accepts_object (hfilter element)
        (fun _ _ _ => accepts_entry hfilter hconnection fun link =>
          accepts_aggregate schema link (by omega))
        (by omega)
    · intro link path value
      exact accepts_object (hconnection link) (fun _ _ _ => accepts_connectionEntry hfilter)
        (by omega)

end FilterReader

/-- The filters that are accepted are exactly the values that fit the grammar. -/
theorem wherePredicate_accepts_iff_fits (schema : Schema) (limit : Nat) (element : Element)
    (target : Variable) (next : Nat) (value : Json) :
    (∃ predicate, wherePredicate schema limit element target next value = .ok predicate) ↔
      value.Fits schema limit (.object (.element element)) 0 := by
  have hbudget : limit + 1 + 0 = limit + 1 := rfl
  rw [← (FilterReader.accepts_filter_and_connection schema hbudget).1 element .root value]
  exact FilterReader.accepts_bind_pure

end GraphRead
