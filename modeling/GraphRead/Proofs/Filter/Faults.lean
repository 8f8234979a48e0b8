import GraphRead.Proofs.Filter.Depth
import GraphRead.Proofs.Filter.Grammar

/-!
# Faults of filters

A filter that is refused is refused with a path. This file says what a path leads to
inside a filter and how the value there is read, which depends on the keys that lead
to it. It proves that the path of an error always leads to something that is there,
and that it is itself at fault: its key, the operator of its key, its shape or its
depth.
-/

namespace GraphRead

/-- A path leads from a filter to a value inside it, by keys and by the members of the lists under
junction keys. -/
inductive Json.Leads (whole : Json) : KeyPath → Json → Prop where
  | whole : Leads whole .root whole
  | key {path : KeyPath} {entries : List (String × Json)} {key : String} {value : Json}
    (h : Leads whole path (.object entries)) (hentry : (key, value) ∈ entries) :
    Leads whole (path.key key) value
  | member {path : KeyPath} {entries : List (String × Json)} {key : String} {items : List Json}
    {index : Nat} {item : Json} (h : Leads whole path (.object entries))
    (hentry : (key, .array items) ∈ entries) (hkey : key = "AND" ∨ key = "OR")
    (hitem : items[index]? = some item) :
    Leads whole ((path.key key).index index) item

namespace Content

/-- How an object is read that stands where it may. -/
def place? : Content → Option Place
  | object place | objectOrNull place => some place
  | _ => none

/-- The shape of what has to stand somewhere, unless it is null. -/
def shape? : Content → Option Shape
  | anything => none
  | listOrNull => some .list
  | object _ | objectOrNull _ => some .object
  | objects _ => some .objects

/-- Content with a place is an object. -/
theorem shape?_of_place? {content : Content} {place : Place} (h : content.place? = some place) :
    content.shape? = some .object := by
  cases content with
  | object | objectOrNull => rfl
  | _ => cases h

end Content

/-- A value has a shape. -/
def Shape.Describes : Shape → Json → Prop
  | object, value => value.isObject
  | list, value => value.isArray
  | objects, value => ∃ items, value = .array items ∧ ∀ item ∈ items, item.isObject

/-- What may stand where a path leads, if all keys on the way are allowed. -/
inductive Json.Stands (schema : Schema) (start : Place) (whole : Json) :
    KeyPath → Content → Json → Prop where
  | whole : Stands schema start whole .root (.object start) whole
  | under {path : KeyPath} {content inner : Content} {place : Place}
    {entries : List (String × Json)} {key : String} {value : Json}
    (h : Stands schema start whole path content (.object entries))
    (hplace : content.place? = some place) (hentry : (key, value) ∈ entries)
    (hallows : place.Allows schema key inner) :
    Stands schema start whole (path.key key) inner value
  /-- The members of a list are read as the object that holds the list. -/
  | member {path : KeyPath} {content : Content} {place : Place}
    {entries : List (String × Json)} {key : String} {items : List Json} {index : Nat} {item : Json}
    (h : Stands schema start whole path content (.object entries))
    (hplace : content.place? = some place) (hentry : (key, .array items) ∈ entries)
    (hkey : key = "AND" ∨ key = "OR") (hitem : items[index]? = some item) :
    Stands schema start whole ((path.key key).index index) (.object place) item

/-- An entry of an object, at the path of its key. The object is read as a place says. -/
def Json.HasEntry (schema : Schema) (start : Place) (whole : Json) (place : Place) (path : KeyPath)
    (key : String) (value : Json) : Prop :=
  ∃ parent content entries, whole.Stands schema start parent content (.object entries) ∧
    content.place? = some place ∧ (key, value) ∈ entries ∧ path = parent.key key

namespace Place

/-- What the keys at a place belong to. -/
def name : Place → String
  | element e | side e => e.name
  | connection link => link.field ++ "Connection"
  | aggregate link => link.field ++ "Aggregate"

/-- A key that is no junction says nothing at a place. -/
def Unknown (key : String) : Place → Prop
  | element e => ∀ reading ∈ FilterKey.readings key, ∀ field, ¬ reading.Names e field
  | connection _ => key ∉ ["node", "node_NOT", "edge", "edge_NOT"]
  | aggregate _ => key ∉ ["node", "edge", "count", "count_GTE", "count_GT", "count_LTE", "count_LT"]
  | side e => ∀ parsed field scalar, FilterKey.aggregate? key = some parsed →
      e.field? parsed.field = some field → field.kind ≠ .scalar scalar

/-- A key at a place is about a field that does not take the rest of the key. -/
inductive Refuses : Place → (key field rest : String) → Prop where
  | scalar {element : Element} {key suffix : String} {reading : Reading} {field : Field}
    {scalar : Scalar} (hkey : element.ReadsKey key reading field)
    (hfield : field.kind = .scalar scalar) (hoperator : reading.operator = some suffix)
    (hrefused : ∀ operator ∈ scalar.allowed, operator.suffix ≠ suffix) :
    Refuses (.element element) key field.name suffix
  | relationship {element : Element} {key suffix : String} {reading : Reading} {field : Field}
    {relationship : Relationship} (hkey : element.ReadsKey key reading field)
    (hfield : field.kind = .relationship relationship) (hoperator : reading.operator = some suffix)
    (hrefused : suffix ∉ ["SOME", "NONE", "NOT", "ALL", "SINGLE"]) :
    Refuses (.element element) key field.name suffix
  /-- A key for aggregates takes no operator at all. -/
  | aggregate {element : Element} {key suffix : String} {reading : Reading} {field : Field}
    {relationship : Relationship} (hkey : element.ReadsKey key reading field)
    (hfield : field.kind = .relationship relationship)
    (hmarker : reading.marker = some .aggregate) (hoperator : reading.operator = some suffix) :
    Refuses (.element element) key field.name suffix
  | function {element : Element} {rest : String} {key : String} {parsed : AggregateKey}
    {field : Field} {scalar : Scalar} (hkey : FilterKey.aggregate? key = some parsed)
    (hrest : key = parsed.field ++ "_" ++ rest)
    (hnamed : element.field? parsed.field = some field) (hfield : field.kind = .scalar scalar)
    (hrefused : scalar.isList = true ∨ ¬ parsed.function.Takes scalar.type) :
    Refuses (.side element) key field.name rest

end Place

/-- An error is about something inside a filter that is itself at fault. -/
inductive FilterError.AtFault (schema : Schema) (limit : Nat) (start : Place) (whole : Json) :
    FilterError → Prop where
  | unknownField {place : Place} {path : KeyPath} {key : String} {value : Json}
    (h : whole.HasEntry schema start place path key value) (hkey : ¬ (key = "AND" ∨ key = "OR"))
    (hunknown : place.Unknown key) :
    AtFault schema limit start whole (.unknownField path place.name key)
  | unsupportedOperator {place : Place} {path : KeyPath} {key field operator : String}
    {value : Json} (h : whole.HasEntry schema start place path key value)
    (hrefuses : place.Refuses key field operator) :
    AtFault schema limit start whole (.unsupportedOperator path field operator)
  | wrongShape {path : KeyPath} {content : Content} {expected : Shape} {value : Json}
    (h : whole.Stands schema start path content value) (hshape : content.shape? = some expected)
    (hvalue : ¬ expected.Describes value) (hnull : content.AdmitsNull → value.isNull = false) :
    AtFault schema limit start whole (.wrongShape path expected value.kind)
  | tooDeep {path : KeyPath} {content : Content} {place : Place} {value : Json}
    (h : whole.Stands schema start path content value) (hplace : content.place? = some place)
    (hdepth : limit < path.depth) : AtFault schema limit start whole (.tooDeep path limit)

namespace Json

variable {schema : Schema} {start place : Place} {whole value : Json} {path : KeyPath}
  {key : String} {content : Content}

/-- What an entry holds stands where the entry is. -/
theorem HasEntry.stands (h : whole.HasEntry schema start place path key value)
    (hallows : place.Allows schema key content) :
    whole.Stands schema start path content value := by
  obtain ⟨parent, outer, entries, hparent, hplace, hentry, rfl⟩ := h
  exact .under hparent hplace hentry hallows

/-- A member of a junction stands at its index, in the place of the junction. -/
theorem HasEntry.member {items : List Json} {index : Nat} {item : Json}
    (h : whole.HasEntry schema start place path key (.array items))
    (hkey : key = "AND" ∨ key = "OR") (hitem : items[index]? = some item) :
    whole.Stands schema start (path.index index) (.object place) item := by
  obtain ⟨parent, outer, entries, hparent, hplace, hentry, rfl⟩ := h
  exact .member hparent hplace hentry hkey hitem

/-- What stands at a path is what the path leads to. -/
theorem Stands.leads (h : whole.Stands schema start path content value) :
    whole.Leads path value := by
  induction h with
  | whole => exact .whole
  | under _ _ hentry _ ih => exact .key ih hentry
  | member _ _ hentry hkey hitem ih => exact .member ih hentry hkey hitem

/-- What an entry holds is what the path of the entry leads to. -/
theorem HasEntry.leads (h : whole.HasEntry schema start place path key value) :
    whole.Leads path value := by
  obtain ⟨parent, outer, entries, hparent, -, hentry, rfl⟩ := h
  exact .key hparent.leads hentry

end Json

/-- What is at fault is inside the filter. -/
theorem FilterError.AtFault.leads {schema : Schema} {limit : Nat} {start : Place} {whole : Json}
    {error : FilterError} (h : error.AtFault schema limit start whole) :
    ∃ path value, error.path? = some path ∧ whole.Leads path value := by
  cases h with
  | unknownField h | unsupportedOperator h => exact ⟨_, _, rfl, h.leads⟩
  | wrongShape h | tooDeep h => exact ⟨_, _, rfl, h.leads⟩

namespace FilterReader

/-- A part of a filter is refused only for certain reasons. -/
def RefusedFor {β : Type} (P : FilterError → Prop) (result : FilterResult β) : Prop :=
  ∀ error, result = .error error → P error

namespace RefusedFor

variable {β γ : Type} {P : FilterError → Prop}

/-- A result is not refused. -/
theorem ok (b : β) : RefusedFor P (.ok b) := by
  intro error h
  cases h

/-- An error is refused for itself. -/
theorem error {reason : FilterError} (h : P reason) :
    RefusedFor P (.error reason : FilterResult β) := by
  intro other hother
  exact Except.error.inj hother ▸ h

/-- Steps in a row are refused for the reasons of each. -/
theorem bind {first : FilterResult β} {next : β → FilterResult γ} (h : RefusedFor P first)
    (hnext : ∀ b, first = .ok b → RefusedFor P (next b)) : RefusedFor P (first >>= next) := by
  cases first with
  | error reason => exact error (h reason rfl)
  | ok b => exact hnext b rfl

/-- What is made of a result is refused as the result is. -/
theorem map {first : FilterResult β} (h : RefusedFor P first) (make : β → γ) :
    RefusedFor P (first.map make) := by
  cases first with
  | error reason => exact error (h reason rfl)
  | ok b => exact ok (make b)

/-- Where null is allowed, only what is not null is refused. -/
theorem unlessNull {read : Json → FilterResult β} {value : Json}
    (h : value.isNull = false → RefusedFor P (read value)) :
    RefusedFor P (unlessNull read value) := by
  unfold FilterReader.unlessNull
  split
  · exact ok none
  · rename_i hnull
    exact (h (eq_false_of_ne_true hnull)).map some

end RefusedFor

/-- An error is one of the schema, or about something at fault that is not too deep to be
seen. -/
def Justified (schema : Schema) (limit : Nat) (start : Place) (whole : Json)
    (error : FilterError) : Prop :=
  (∃ cause, error = .schema cause) ∨
    error.AtFault schema limit start whole ∧
      ∃ path, error.path? = some path ∧ path.depth ≤ limit + 1

variable {schema : Schema} {limit depth : Nat} {start place : Place} {whole : Json} {β : Type}

/-- An error at fault is justified, if its path is not too deep. -/
theorem Justified.of_fault {error : FilterError} {path : KeyPath}
    (h : error.AtFault schema limit start whole) (hpath : path.HasDepth depth)
    (hdepth : depth ≤ limit + 1) (hsome : error.path? = some path) :
    Justified schema limit start whole error := by
  refine .inr ⟨h, path, hsome, ?_⟩
  rw [hpath.depth_eq]
  exact hdepth

/-- The values at a place, so many keys deep, are refused only for a fault that they have. -/
def ReadsAt (schema : Schema) (limit : Nat) (start : Place) (whole : Json) (place : Place)
    (depth : Nat) (read : KeyPath → Json → FilterResult β) : Prop :=
  ∀ path content value, path.HasDepth depth → whole.Stands schema start path content value →
    content.place? = some place → (content.AdmitsNull → value.isNull = false) →
    RefusedFor (Justified schema limit start whole) (read path value)

/-- The entries of an object at a place, so many keys deep, are refused only for a fault that they
have. -/
def ReadsEntriesAt (schema : Schema) (limit : Nat) (start : Place) (whole : Json) (place : Place)
    (depth : Nat) (entry : KeyPath → String → Json → FilterResult β) : Prop :=
  ∀ path key value, path.HasDepth depth → whole.HasEntry schema start place path key value →
    Junction.ofKey? key = none →
    RefusedFor (Justified schema limit start whole) (entry path key value)

/-- If no level is left, the limit is exceeded. -/
theorem readsAt_exhausted (hbudget : 0 + depth = limit + 1) :
    ReadsAt schema limit start whole place depth
      fun path _ => (.error (.tooDeep path limit) : FilterResult β) := by
  intro path content value hpath hstands hplace _
  have hdeep : limit < path.depth := (hpath.budget_eq_zero_iff hbudget).1 rfl
  exact .error (.of_fault (.tooDeep hstands hplace hdeep) hpath (by omega) rfl)

section Objects

variable {join : Junction → List β → β} {member : KeyPath → Json → FilterResult β}
  {entry : KeyPath → String → Json → FilterResult β} {path : KeyPath} {key : String}

/-- A member of a list is refused only if it is no object. The index counts the members before
it. -/
theorem refused_checkObjects (hdepth : depth ≤ limit + 1)
    (hpath : ∀ index, (path.index index).HasDepth depth) {items : List Json} (index : Nat)
    (hitems : ∀ i item, items[i]? = some item →
      whole.Stands schema start (path.index (index + i)) (.object place) item) :
    RefusedFor (Justified schema limit start whole) (checkObjects path index items) := by
  induction items generalizing index with
  | nil => exact .ok ()
  | cons item rest ih =>
    unfold checkObjects
    split
    · refine ih (index + 1) fun i other hother => ?_
      rw [Nat.add_right_comm]
      exact hitems (i + 1) other hother
    · rename_i hobject
      exact .error (.of_fault (.wrongShape (hitems 0 item rfl) rfl hobject (fun h => h.elim))
        (hpath index) hdepth rfl)

/-- The members of a list are refused as each is, at its own index. -/
theorem refused_members (hmember : ReadsAt schema limit start whole place depth member)
    (hpath : ∀ index, (path.index index).HasDepth depth) {items : List Json} (index : Nat)
    (hitems : ∀ i item, items[i]? = some item →
      whole.Stands schema start (path.index (index + i)) (.object place) item) :
    RefusedFor (Justified schema limit start whole) (members member path index items) := by
  induction items generalizing index with
  | nil => exact .ok []
  | cons item rest ih =>
    have hrest (i : Nat) (other : Json) (hother : rest[i]? = some other) :
        whole.Stands schema start (path.index (index + 1 + i)) (.object place) other := by
      rw [Nat.add_right_comm]
      exact hitems (i + 1) other hother
    exact (hmember _ _ _ (hpath index) (hitems 0 item rfl) rfl (fun h => h.elim)).bind fun _ _ =>
      (ih (index + 1) hrest).bind fun _ _ => .ok _

/-- What stands under a junction key has to be a list of objects, which are then read. -/
theorem refused_junction (hdepth : depth ≤ limit + 1)
    (hmember : ReadsAt schema limit start whole place depth member) (hpath : path.HasDepth depth)
    (hmembers : ∀ index, (path.index index).HasDepth depth) {value : Json}
    (h : whole.HasEntry schema start place path key value) (hkey : key = "AND" ∨ key = "OR") :
    RefusedFor (Justified schema limit start whole)
      (objects path value >>= members member path 0) := by
  have hitems {items : List Json} (hvalue : value = .array items) (i : Nat) (item : Json)
      (hitem : items[i]? = some item) :
      whole.Stands schema start (path.index (0 + i)) (.object place) item := by
    rw [Nat.zero_add]
    exact (hvalue ▸ h).member hkey hitem
  have hobjects : RefusedFor (Justified schema limit start whole) (objects path value) := by
    cases value with
    | array items =>
      exact (refused_checkObjects hdepth hmembers 0 (hitems rfl)).bind fun _ _ => .ok items
    | _ =>
      refine .error (.of_fault (.wrongShape (h.stands (.junction hkey)) rfl ?_ (fun h => h.elim))
        hpath hdepth rfl)
      rintro ⟨items, hvalue, -⟩
      cases hvalue
  exact hobjects.bind fun items hok =>
    refused_members hmember hmembers 0 (hitems (eq_array_of_objects hok))

/-- Entries in a row are refused as each is, as a junction or otherwise. -/
theorem refused_entries (hdepth : depth ≤ limit)
    (hmember : ReadsAt schema limit start whole place (depth + 1) member)
    (hentry : ReadsEntriesAt schema limit start whole place (depth + 1) entry)
    (hpath : path.HasDepth depth) {pairs : List (String × Json)}
    (hpairs : ∀ pair ∈ pairs, whole.HasEntry schema start place (path.key pair.1) pair.1 pair.2) :
    RefusedFor (Justified schema limit start whole) (entries join member entry path pairs) := by
  induction pairs with
  | nil => exact .ok []
  | cons pair rest ih =>
    obtain ⟨key, value⟩ := pair
    rw [List.forall_mem_cons] at hpairs
    have hhead : RefusedFor (Justified schema limit start whole)
        (headPart join member entry path key value) := by
      cases hkey : Junction.ofKey? key with
      | none =>
        simp only [headPart, hkey]
        exact hentry _ _ _ (hpath.key key) hpairs.1 hkey
      | some junction =>
        have hword := Junction.ofKey?_isSome_iff.mp (Option.isSome_of_eq_some hkey)
        simp only [headPart, hkey]
        rw [← bind_assoc]
        exact (refused_junction (Nat.succ_le_succ hdepth) hmember (hpath.key key)
          (hpath.member key) hpairs.1 hword).bind fun _ _ => .ok _
    rw [entries_cons]
    exact hhead.bind fun _ _ => (ih hpairs.2).bind fun _ _ => .ok _

/-- An object that is not too deep is read entry by entry, each one key deeper. -/
theorem readsAt_object (hdepth : depth ≤ limit)
    (hmember : ReadsAt schema limit start whole place (depth + 1) member)
    (hentry : ReadsEntriesAt schema limit start whole place (depth + 1) entry) :
    ReadsAt schema limit start whole place depth (object join member entry) := by
  intro path content value hpath hstands hplace hnull
  cases value with
  | object pairs =>
    refine (refused_entries hdepth hmember hentry hpath fun pair hpair => ?_).bind fun _ _ => .ok _
    exact ⟨path, content, pairs, hstands, hplace, hpair, rfl⟩
  | _ =>
    have hshape := Content.shape?_of_place? hplace
    exact .error (.of_fault (.wrongShape hstands hshape Bool.false_ne_true hnull) hpath
      (Nat.le_succ_of_le hdepth) rfl)

end Objects

section Entries

variable {element : Element} {path : KeyPath} {key : String} {value : Json}

/-- A key that says nothing at its place is justly refused as unknown. -/
theorem refused_unknown (hdepth : depth ≤ limit + 1) (hpath : path.HasDepth depth)
    (h : whole.HasEntry schema start place path key value) (hjunction : Junction.ofKey? key = none)
    (hunknown : place.Unknown key) :
    RefusedFor (Justified schema limit start whole)
      (.error (.unknownField path place.name key) : FilterResult β) :=
  .error (.of_fault (.unknownField h (Junction.not_word hjunction) hunknown) hpath hdepth rfl)

/-- An operator that its field does not have is justly refused. -/
theorem refused_operator (hdepth : depth ≤ limit + 1) (hpath : path.HasDepth depth)
    (h : whole.HasEntry schema start place path key value) {name rest : String}
    (hrefuses : place.Refuses key name rest) :
    RefusedFor (Justified schema limit start whole)
      (.error (.unsupportedOperator path name rest) : FilterResult β) :=
  .error (.of_fault (.unsupportedOperator h hrefuses) hpath hdepth rfl)

/-- A key that cannot be resolved has no reading that names a field. -/
theorem resolve?_eq_none_iff : resolve? element key = none ↔
    (Place.element element).Unknown key := by
  have hresolve : resolve? element key = (FilterKey.readings key).findSome? (named? element) := rfl
  rw [hresolve, List.findSome?_eq_none_iff]
  simp only [named?_eq_none_iff]
  rfl

/-- An operator that is not taken is reported together with the field. -/
theorem scalarOperator_cases (path : KeyPath) (field : Field) (operator : Option String) :
    (∃ result, scalarOperator path field operator = .ok result) ∨
      ∃ suffix, operator = some suffix ∧
        scalarOperator path field operator =
          .error (.unsupportedOperator path field.name suffix) := by
  cases operator with
  | none => exact .inl ⟨none, rfl⟩
  | some suffix =>
    simp only [scalarOperator]
    split
    · split
      · exact .inl ⟨_, rfl⟩
      · exact .inr ⟨suffix, rfl, rfl⟩
    · exact .inr ⟨suffix, rfl, rfl⟩

/-- An operator that takes a list expects one, or null. -/
theorem content_of_takesList {operator : FilterOperator} (h : takesList (some operator) = true) :
    operator.content = .listOrNull := by
  cases operator with
  | oneOf | notOneOf => rfl
  | _ => cases h

variable {reading : Reading} {field : Field}

/-- A filter on a scalar is refused for its operator, or because a list is missing. -/
theorem refused_scalar (hdepth : depth ≤ limit + 1) (hpath : path.HasDepth depth)
    (h : whole.HasEntry schema start (.element element) path key value)
    (hkey : element.ReadsKey key reading field) {s : Scalar} (hkind : field.kind = .scalar s) :
    RefusedFor (Justified schema limit start whole)
      (scalar path field reading.operator value) := by
  -- An operator is refused only if no allowed one has its suffix.
  have hoperator : RefusedFor (Justified schema limit start whole)
      (scalarOperator path field reading.operator) := by
    obtain ⟨result, hok⟩ | ⟨suffix, hsuffix, herror⟩ :=
      scalarOperator_cases path field reading.operator
    · exact hok ▸ .ok result
    · have hrefused (operator : FilterOperator) (hallowed : operator ∈ s.allowed) :
          operator.suffix ≠ suffix := by
        rintro rfl
        have hok : scalarOperator path field reading.operator = .ok (some operator) :=
          (scalarOperator_eq_ok_iff hkind).mpr (.inr ⟨operator, hsuffix, hallowed, rfl⟩)
        rw [hok] at herror
        cases herror
      rw [herror]
      exact refused_operator hdepth hpath h (.scalar hkey hkind hsuffix hrefused)
  refine hoperator.bind fun operator hok => ?_
  split
  next hlist =>
    obtain ⟨htakes, hnull, harray⟩ := hlist
    obtain ⟨-, rfl⟩ | ⟨taken, hsuffix, hallowed, rfl⟩ := (scalarOperator_eq_ok_iff hkind).mp hok
    · cases htakes
    · have hstands := h.stands (.compared hkey hkind hsuffix hallowed)
      rw [content_of_takesList htakes] at hstands
      refine .error (.of_fault (.wrongShape hstands rfl ?_ fun _ => by simpa using hnull) hpath
        hdepth rfl)
      simpa [Shape.Describes] using harray
  next => exact .ok _

/-- A suffix that is no quantifier is none of their words. -/
theorem ofSuffix?_eq_none {suffix : String} (h : Quantifier.ofSuffix? suffix = none) :
    suffix ∉ ["SOME", "NONE", "NOT", "ALL", "SINGLE"] := by
  intro hword
  simp only [List.mem_cons, List.not_mem_nil, or_false] at hword
  rcases hword with rfl | rfl | rfl | rfl | rfl <;> cases h

/-- A relationship is refused for the schema only. -/
theorem refused_link (schema : Schema) (field : Field) (relationship : Relationship) :
    RefusedFor (Justified schema limit start whole) (link schema field relationship) := by
  unfold link
  split
  · exact .ok _
  · exact .error (.inl ⟨_, rfl⟩)

/-- A quantified filter is refused for its quantifier, for the schema, or for what is in it. -/
theorem refused_quantified {γ : Type} {read : Link → KeyPath → Json → FilterResult β}
    {inside : Link → Place} (hread : ∀ link,
      ReadsAt schema limit start whole (inside link) depth (read link))
    (hdepth : depth ≤ limit + 1) (hpath : path.HasDepth depth)
    (h : whole.HasEntry schema start (.element element) path key value)
    (hkey : element.ReadsKey key reading field) {relationship : Relationship}
    (hkind : field.kind = .relationship relationship)
    (hallows : ∀ quantifier target, Quantifier.ofKey? reading.operator = some quantifier →
      schema.node? relationship.target = some target →
      (Place.element element).Allows schema key
        (.objectOrNull (inside ⟨field.name, relationship, target⟩)))
    {make : Link → Quantifier → Option β → γ} :
    RefusedFor (Justified schema limit start whole) (do
      let quantifier ← quantifier path field reading.operator
      let link ← link schema field relationship
      let inner ← unlessNull (read link path) value
      return make link quantifier inner) := by
  have hquantifier : RefusedFor (Justified schema limit start whole)
      (quantifier path field reading.operator) := by
    cases hoperator : reading.operator with
    | none => exact .ok _
    | some suffix =>
      cases hsuffix : Quantifier.ofSuffix? suffix with
      | some result =>
        simp only [quantifier, hsuffix]
        exact .ok result
      | none =>
        simp only [quantifier, hsuffix]
        exact refused_operator hdepth hpath h
          (.relationship hkey hkind hoperator (ofSuffix?_eq_none hsuffix))
  refine hquantifier.bind fun result hresult => ?_
  refine (refused_link schema field relationship).bind fun found hfound => ?_
  obtain ⟨target, htarget, rfl⟩ := link_eq_ok_iff.mp hfound
  have hstands := h.stands (hallows result target (ofKey?_of_quantifier hresult) htarget)
  exact RefusedFor.unlessNull
    (fun hnull => hread _ path _ value hpath hstands rfl fun _ => hnull) |>.bind fun _ _ => .ok _

variable {filter : Element → KeyPath → Json → FilterResult Filter}
  {connection : Link → KeyPath → Json → FilterResult ConnectionFilter}
  {aggregate : Link → KeyPath → Json → FilterResult AggregateFilter}

/-- Entries of a filter are justly refused, if the filters that they nest are. -/
theorem readsEntriesAt_entry (hdepth : depth ≤ limit + 1)
    (hfilter : ∀ element,
      ReadsAt schema limit start whole (.element element) depth (filter element))
    (hconnection : ∀ link,
      ReadsAt schema limit start whole (.connection link) depth (connection link))
    (haggregate : ∀ link,
      ReadsAt schema limit start whole (.aggregate link) depth (aggregate link))
    (element : Element) :
    ReadsEntriesAt schema limit start whole (.element element) depth
      (entry schema filter connection aggregate element) := by
  intro path key value hpath h hjunction
  unfold entry
  cases hresolve : resolve? element key with
  | none =>
    exact refused_unknown hdepth hpath h hjunction (resolve?_eq_none_iff.mp hresolve)
  | some resolved =>
    obtain ⟨reading, field⟩ := resolved
    have hkey := (resolve?_eq_some_iff hjunction).mp hresolve
    cases hkind : field.kind with
    | scalar s =>
      simp only [hkind]
      exact refused_scalar hdepth hpath h hkey hkind
    | relationship relationship =>
      cases hmarker : reading.marker with
      | none =>
        simp only [hkind, hmarker]
        exact refused_quantified (fun link => hfilter link.target.element) hdepth hpath h hkey hkind
          fun _ _ hquantifier htarget => .related hkey hkind hmarker hquantifier htarget
      | some marker =>
        cases marker with
        | connection =>
          simp only [hkind, hmarker]
          exact refused_quantified hconnection hdepth hpath h hkey hkind
            fun _ _ hquantifier htarget => .connected hkey hkind hmarker hquantifier htarget
        | aggregate =>
          simp only [hkind, hmarker]
          cases hoperator : reading.operator with
          | some suffix =>
            exact refused_operator hdepth hpath h (.aggregate hkey hkind hmarker hoperator)
          | none =>
            refine (refused_link schema field relationship).bind fun found hfound => ?_
            obtain ⟨target, htarget, rfl⟩ := link_eq_ok_iff.mp hfound
            have hstands := h.stands (.aggregated hkey hkind hmarker hoperator htarget)
            exact (haggregate _ path _ value hpath hstands rfl (fun h => h.elim)).bind
              fun _ _ => .ok _

/-- Entries of a connection filter are justly refused, if filters on nodes and relationships are. -/
theorem readsEntriesAt_connectionEntry (hdepth : depth ≤ limit + 1)
    (hfilter : ∀ element,
      ReadsAt schema limit start whole (.element element) depth (filter element))
    (link : Link) :
    ReadsEntriesAt schema limit start whole (.connection link) depth
      (connectionEntry filter link) := by
  intro path key value hpath h hjunction
  have hinside {element : Element} (hallows : (Place.connection link).Allows schema key
      (.object (.element element))) :
      RefusedFor (Justified schema limit start whole) (filter element path value) :=
    hfilter element path _ value hpath (h.stands hallows) rfl (fun h => h.elim)
  unfold connectionEntry
  split
  · exact (hinside (.node (.inl rfl))).map _
  · exact (hinside (.node (.inr rfl))).map _
  · exact (hinside (.edge (.inl rfl))).map _
  · exact (hinside (.edge (.inr rfl))).map _
  · refine refused_unknown hdepth hpath h hjunction ?_
    simp_all [Place.Unknown]

/-- What follows the field in a key for aggregates is set off by an underscore. -/
theorem aggregate?_eq_append {parsed : AggregateKey} (h : FilterKey.aggregate? key = some parsed) :
    key = parsed.field ++ "_" ++ String.ofList (key.toList.drop (parsed.field.length + 1)) := by
  unfold FilterKey.aggregate? at h
  split at h
  · obtain ⟨⟨field, function, comparison⟩, hsplit, rfl⟩ := Option.map_eq_some_iff.mp h
    obtain ⟨-, rest, htext, haccept⟩ := FilterKey.eq_append_of_shortestSplit hsplit
    obtain ⟨⟨word, f⟩, -, haccept⟩ := List.exists_of_findSome?_eq_some haccept
    obtain ⟨⟨word', c⟩, -, heq⟩ := List.exists_of_findSome?_eq_some haccept
    simp only [Option.ite_none_right_eq_some] at heq
    obtain ⟨rfl, -⟩ := heq
    rw [← String.toList_inj]
    simp [htext]
  · cases h

/-- Entries of a filter on one side are justly refused. -/
theorem readsEntriesAt_sideEntry (hdepth : depth ≤ limit + 1) (s : Side) (element : Element) :
    ReadsEntriesAt schema limit start whole (.side element) depth (sideEntry s element) := by
  intro path key value hpath h hjunction
  unfold sideEntry
  split
  next hparsed =>
    refine refused_unknown hdepth hpath h hjunction ?_
    intro parsed field scalar hkey
    simp [hparsed] at hkey
  next parsed hparsed =>
    split
    next hfield =>
      refine refused_unknown hdepth hpath h hjunction ?_
      intro other field scalar hkey
      obtain rfl : parsed = other := Option.some.inj (hparsed.symm.trans hkey)
      simp [hfield]
    next field hfield =>
      split
      next hscalar =>
        refine refused_unknown hdepth hpath h hjunction ?_
        intro other found scalar hkey hfound hkind
        obtain rfl : parsed = other := Option.some.inj (hparsed.symm.trans hkey)
        obtain rfl : field = found := Option.some.inj (hfield.symm.trans hfound)
        simp [Field.scalar?, hkind] at hscalar
      next scalar hscalar =>
        split
        next => exact .ok _
        next hfits =>
          refine refused_operator hdepth hpath h (.function hparsed
            (aggregate?_eq_append hparsed) hfield (kind_of_scalar? hscalar) ?_)
          rw [fits_iff, not_and_or, Bool.not_eq_false] at hfits
          exact hfits

/-- Entries of an aggregate filter are justly refused, if filters on both sides are. -/
theorem readsEntriesAt_aggregateEntry
    {side : Side → Element → KeyPath → Json → FilterResult AggregateFilter}
    (hdepth : depth ≤ limit + 1)
    (hside : ∀ s element,
      ReadsAt schema limit start whole (.side element) depth (side s element))
    (link : Link) :
    ReadsEntriesAt schema limit start whole (.aggregate link) depth
      (aggregateEntry side link) := by
  intro path key value hpath h hjunction
  unfold aggregateEntry
  split
  next hnode =>
    subst hnode
    exact hside .node _ path _ value hpath (h.stands .nodeSide) rfl (fun h => h.elim)
  next hnode =>
    split
    next hedge =>
      subst hedge
      exact hside .edge _ path _ value hpath (h.stands .edgeSide) rfl (fun h => h.elim)
    next hedge =>
      split
      next => exact .ok _
      next hcount =>
        refine refused_unknown hdepth hpath h hjunction ?_
        have hword : key ∉ ["count", "count_GTE", "count_GT", "count_LTE", "count_LT"] := by
          rw [← count?_isSome_iff, hcount]
          exact Bool.false_ne_true
        exact List.not_mem_cons_of_ne_of_not_mem hnode
          (List.not_mem_cons_of_ne_of_not_mem hedge hword)

end Entries

/-- The budget is the number of levels above the limit. -/
theorem readsAt_side {budget : Nat} (hbudget : budget + depth = limit + 1) (s : Side)
    (element : Element) :
    ReadsAt schema limit start whole (.side element) depth (side limit s element budget) := by
  induction budget generalizing depth with
  | zero => exact readsAt_exhausted hbudget
  | succ budget ih =>
    exact readsAt_object (by omega) (ih (by omega)) (readsEntriesAt_sideEntry (by omega) s element)

/-- Aggregate filters are justly refused. The budget and the depth make up the limit. -/
theorem readsAt_aggregate {budget : Nat} (hbudget : budget + depth = limit + 1) (link : Link) :
    ReadsAt schema limit start whole (.aggregate link) depth (aggregate limit link budget) := by
  induction budget generalizing depth with
  | zero => exact readsAt_exhausted hbudget
  | succ budget ih =>
    exact readsAt_object (by omega) (ih (by omega)) (readsEntriesAt_aggregateEntry (by omega)
      (fun s element => readsAt_side (by omega) s element) link)

/-- Filters and connection filters are justly refused. They nest each other, so that the induction
on the budget is for both. -/
theorem readsAt_filter_and_connection {budget : Nat} (hbudget : budget + depth = limit + 1) :
    (∀ element, ReadsAt schema limit start whole (.element element) depth
      (filter schema limit budget element)) ∧
    ∀ link, ReadsAt schema limit start whole (.connection link) depth
      (connection schema limit budget link) := by
  induction budget generalizing depth with
  | zero =>
    exact ⟨fun _ => readsAt_exhausted hbudget, fun _ => readsAt_exhausted hbudget⟩
  | succ budget ih =>
    -- Every key costs one level and makes the path one key longer, so the sum stays the same.
    obtain ⟨hfilter, hconnection⟩ := ih (show budget + (depth + 1) = limit + 1 by omega)
    constructor
    · intro element
      exact readsAt_object (by omega) (hfilter element) (readsEntriesAt_entry (by omega) hfilter
        hconnection (fun link => readsAt_aggregate (by omega) link) element)
    · intro link
      exact readsAt_object (by omega) (hconnection link)
        (readsEntriesAt_connectionEntry (by omega) hfilter link)

end FilterReader

/-- The path of an error leads to what is at fault. If a filter is refused for anything but the
schema, the path leads, by keys and by members of junctions, to something inside the filter, at
most one key below the limit. What is there is itself at fault: a key that says nothing at its
place, a key with an operator that its field does not take, a value that has the reported kind and
not the shape that is demanded there, or an object that is nested too deeply. -/
theorem refused_filter_is_at_fault (schema : Schema) (limit : Nat) (element : Element)
    (target : Variable) (next : Nat) (whole : Json) (error : FilterError)
    (h : wherePredicate schema limit element target next whole = .error error)
    (hother : ∀ cause, error ≠ .schema cause) :
    error.AtFault schema limit (.element element) whole ∧
      ∃ path value, error.path? = some path ∧ whole.Leads path value ∧
        path.depth ≤ limit + 1 := by
  have hread : FilterReader.RefusedFor
      (FilterReader.Justified schema limit (.element element) whole)
      (Filter.read schema limit element .root whole) :=
    (FilterReader.readsAt_filter_and_connection (Nat.add_zero (limit + 1))).1 element .root _ whole
      KeyPath.hasDepth_root .whole rfl (fun h => h.elim)
  obtain ⟨cause, hcause⟩ | ⟨hfault, path, hpath, hdepth⟩ :=
    hread.bind (fun _ _ => .ok _) error h
  · exact absurd hcause (hother cause)
  · obtain ⟨path', value, hpath', hleads⟩ := hfault.leads
    obtain rfl : path' = path := Option.some.inj (hpath'.symm.trans hpath)
    exact ⟨hfault, path', value, hpath', hleads, hdepth⟩

/-- A value that is no list, under the second member of a junction and a relationship. -/
theorem refused_riverFilter_is_at_fault :
    let whole : Json := .object [("OR", .array [.object [("name", .string "Elbe")],
      .object [("into_SOME", .object [("name_IN", .string "Rhine")])]])]
    let path : KeyPath := (((KeyPath.root.key "OR").index 1).key "into_SOME").key "name_IN"
    let error : FilterError := .wrongShape path .list "a string"
    wherePredicate ⟨[riverNode]⟩ 2 riverNode.element (.namedNode 0 "this" []) 1 whole =
      .error error ∧
    error.AtFault ⟨[riverNode]⟩ 2 (.element riverNode.element) whole ∧
      (∃ value, whole.Leads path value) ∧ path.depth ≤ 3 := by
  intro whole path error
  have h : wherePredicate ⟨[riverNode]⟩ 2 riverNode.element (.namedNode 0 "this" []) 1 whole =
    .error error := rfl
  obtain ⟨hfault, found, value, hpath, hleads, hdepth⟩ :=
    refused_filter_is_at_fault _ _ _ _ _ _ _ h (by simp [error])
  obtain rfl : path = found := Option.some.inj hpath
  exact ⟨h, hfault, ⟨value, hleads⟩, hdepth⟩

end GraphRead
