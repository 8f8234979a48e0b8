import GraphRead.Proofs.Filter.Grammar
import GraphRead.Proofs.Filter.Shape

/-!
# Empty objects in junctions

A filter on an element, on a connection or on aggregates may contain lists of
further objects. An empty object in such a list says nothing, at whatever depth it
stands. This file proves it for the three kinds of filters at once: they are read by
one function, and they are compiled by joining what their parts are compiled to, so
that one law about joining decides the matter. Nothing depends on the path at which
a filter is read, and a filter that is read within a budget is read in the same way
within a larger one.
-/

namespace GraphRead

mutual
/-- The second value is the first with empty objects put into lists of objects that are read at a
place, or deeper inside. -/
inductive Json.Padded (schema : Schema) : Place → Json → Json → Prop where
  | object {place : Place} {entries entries' : List (String × Json)}
    (h : Json.PaddedEntries schema place entries entries') :
    Padded schema place (.object entries) (.object entries')
  | other {place : Place} {value : Json} (h : value.isObject = false) :
    Padded schema place value value

/-- The second list is the first with empty objects put into it or into its members. -/
inductive Json.PaddedItems (schema : Schema) : Place → List Json → List Json → Prop where
  | nil {place : Place} : PaddedItems schema place [] []
  | cons {place : Place} {item item' : Json} {rest rest' : List Json}
    (hitem : Json.Padded schema place item item')
    (hrest : Json.PaddedItems schema place rest rest') :
    PaddedItems schema place (item :: rest) (item' :: rest')
  | insert {place : Place} {items items' : List Json}
    (h : Json.PaddedItems schema place items items') :
    PaddedItems schema place items (.object [] :: items')

/-- The second list of entries is the first with empty objects put into the lists under junction
keys, or into the filters under other keys. -/
inductive Json.PaddedEntries (schema : Schema) :
    Place → List (String × Json) → List (String × Json) → Prop where
  | nil {place : Place} : PaddedEntries schema place [] []
  | same {place : Place} (entry : String × Json) {rest rest' : List (String × Json)}
    (hrest : Json.PaddedEntries schema place rest rest') :
    PaddedEntries schema place (entry :: rest) (entry :: rest')
  | junction {place : Place} {key : String} {junction : Junction} {items items' : List Json}
    {rest rest' : List (String × Json)} (hkey : Junction.ofKey? key = some junction)
    (hitems : Json.PaddedItems schema place items items')
    (hrest : Json.PaddedEntries schema place rest rest') :
    PaddedEntries schema place ((key, .array items) :: rest) ((key, .array items') :: rest')
  | nested {place inner : Place} {key : String} {value value' : Json}
    {rest rest' : List (String × Json)} (hkey : Junction.ofKey? key = none)
    (hslot : place.keySlot schema key = .nested inner)
    (hvalue : Json.Padded schema inner value value')
    (hrest : Json.PaddedEntries schema place rest rest') :
    PaddedEntries schema place ((key, value) :: rest) ((key, value') :: rest')
end

namespace Json

variable {schema : Schema}

/-- Entries are padded by nothing. -/
theorem PaddedEntries.refl (place : Place) (entries : List (String × Json)) :
    PaddedEntries schema place entries entries := by
  induction entries with
  | nil => exact .nil
  | cons entry rest ih => exact .same entry ih

/-- Nothing has to be put in. -/
theorem Padded.refl (place : Place) (value : Json) : Padded schema place value value := by
  cases value with
  | object entries => exact .object (.refl place entries)
  | _ => exact .other rfl

/-- Members of a list are padded by nothing. -/
theorem PaddedItems.refl (place : Place) (items : List Json) :
    PaddedItems schema place items items := by
  induction items with
  | nil => exact .nil
  | cons item rest ih => exact .cons (.refl place item) ih

/-- Padding an object gives an object. -/
theorem Padded.isObject_eq {place : Place} {value value' : Json}
    (h : Padded schema place value value') : value.isObject = value'.isObject := by
  cases h <;> rfl

/-- Only objects are put in. -/
theorem PaddedItems.forall_isObject {place : Place} {items items' : List Json}
    (h : PaddedItems schema place items items') (hobjects : ∀ item ∈ items', item.isObject) :
    ∀ item ∈ items, item.isObject := by
  match h with
  | .nil => exact List.forall_mem_nil _
  | .cons hitem hrest =>
    rw [List.forall_mem_cons] at hobjects ⊢
    rw [hitem.isObject_eq]
    exact ⟨hobjects.1, hrest.forall_isObject hobjects.2⟩
  | .insert hitems =>
    rw [List.forall_mem_cons] at hobjects
    exact hitems.forall_isObject hobjects.2
termination_by structural h

end Json

/-- Values that differ at most by empty objects in a filter, if they stand for one. -/
def Slot.Pads (schema : Schema) (value value' : Json) : Slot → Prop
  | .nested inner => Json.Padded schema inner value value'
  | .scalar _ | .comparison | .unknown => value = value'

/-- Whatever a key stands for, its value is padded by nothing. -/
theorem Slot.pads_refl (schema : Schema) (value : Json) (slot : Slot) :
    slot.Pads schema value value := by
  cases slot with
  | nested inner => exact .refl inner value
  | _ => rfl

/-! ### Joining what parts are compiled to -/

/-- How a kind of filters is compiled: a junction takes what its parts are compiled to, one after
another, and closes it. Closing a single part gives that part, and a junction of nothing can be left
out. -/
structure Junctive {β ε α : Type} (join : Junction → List β → β) (compile : ε → β → Fresh α)
    (close : Junction → List α → α) : Prop where
  joined : ∀ junction parts env,
    compile env (join junction parts) = close junction <$> parts.mapM (compile env)
  single : ∀ junction a, close junction [a] = a
  unit : ∀ junction before after,
    close junction (before ++ close .all [] :: after) = close junction (before ++ after)

/-- Two filters are compiled to the same. -/
def CompiledAlike {β ε α : Type} (compile : ε → β → Fresh α) (b b' : β) : Prop :=
  ∀ env, compile env b = compile env b'

/-- The second list of parts is the first with parts put in that say nothing. -/
inductive PaddedParts {β ε α : Type} (join : Junction → List β → β) (compile : ε → β → Fresh α) :
    List β → List β → Prop where
  | nil : PaddedParts join compile [] []
  | cons {part part' : β} {rest rest' : List β} (hpart : CompiledAlike compile part part')
    (hrest : PaddedParts join compile rest rest') :
    PaddedParts join compile (part :: rest) (part' :: rest')
  | insert {empty : β} {parts parts' : List β}
    (hempty : CompiledAlike compile (join .all []) empty)
    (h : PaddedParts join compile parts parts') :
    PaddedParts join compile parts (empty :: parts')

namespace Junctive

variable {β ε α : Type} {join : Junction → List β → β} {compile : ε → β → Fresh α}
  {close : Junction → List α → α}

/-- Parts that say nothing do not change a junction, whatever stands before them. -/
theorem close_padded (h : Junctive join compile close) {parts parts' : List β}
    (hparts : PaddedParts join compile parts parts') (junction : Junction) (env : ε)
    (before : List α) :
    (fun after => close junction (before ++ after)) <$> parts.mapM (compile env) =
      (fun after => close junction (before ++ after)) <$> parts'.mapM (compile env) := by
  induction hparts generalizing before with
  | nil => rfl
  | cons hpart _ ih =>
    simp only [List.mapM_cons, map_bind, hpart env]
    refine bind_congr fun a => ?_
    simpa using ih (before ++ [a])
  | insert hempty _ ih =>
    have hnothing := hempty env
    rw [h.joined] at hnothing
    simp only [List.mapM_nil, map_pure] at hnothing
    simp only [List.mapM_cons, ← hnothing, pure_bind, map_bind, map_pure, h.unit]
    rw [ih before, bind_pure_comp]

/-- A junction is compiled alike if parts that say nothing are put in. -/
theorem join_padded (h : Junctive join compile close) {parts parts' : List β}
    (hparts : PaddedParts join compile parts parts') (junction : Junction) :
    CompiledAlike compile (join junction parts) (join junction parts') := by
  intro env
  rw [h.joined, h.joined]
  exact h.close_padded hparts junction env []

/-- A junction of one part is compiled as the part. -/
theorem join_single (h : Junctive join compile close) (junction : Junction) (part : β) :
    CompiledAlike compile (join junction [part]) part := by
  intro env
  simp [h.joined, h.single]

end Junctive

/-- Combining a single part gives it back. -/
theorem Predicate.combine_singleton (wrap : List Predicate → Predicate) (part : Option Predicate) :
    combine wrap [part] = part := by
  cases part <;> rfl

/-- Parts that are missing are not combined. -/
theorem Predicate.combine_insert_none (wrap : List Predicate → Predicate)
    (before after : List (Option Predicate)) :
    combine wrap (before ++ none :: after) = combine wrap (before ++ after) := by
  simp [combine]

/-- What the parts of a junction make together. -/
def Junction.combine : Junction → List (Option Predicate) → Option Predicate
  | .all => Predicate.allOf
  | .any => Predicate.anyOf

/-- Filters are compiled part by part, and closed by combining the predicates. -/
theorem Filter.junctive : Junctive Filter.join Filter.predicate Junction.combine where
  joined junction parts target := by
    cases junction <;>
      simp only [Filter.join, Filter.predicate, Filter.predicates_eq_mapM, bind_pure_comp] <;> rfl
  single junction part := by
    cases junction <;> exact Predicate.combine_singleton _ part
  unit junction before after := by
    cases junction <;> exact Predicate.combine_insert_none _ before after

/-- The predicate of a filter on a connection, given its two variables. -/
def ConnectionFilter.compile (pair : Variable × Variable) (f : ConnectionFilter) :
    Fresh (Option Predicate) :=
  f.predicate pair.1 pair.2

/-- Connection filters are compiled part by part, and closed by combining the predicates. -/
theorem ConnectionFilter.junctive :
    Junctive ConnectionFilter.join ConnectionFilter.compile Junction.combine where
  joined junction parts pair := by
    cases junction <;>
      simp only [ConnectionFilter.join, ConnectionFilter.compile, ConnectionFilter.predicate,
        ConnectionFilter.predicates_eq_mapM, bind_pure_comp] <;> rfl
  single junction part := by
    cases junction <;> exact Predicate.combine_singleton _ part
  unit junction before after := by
    cases junction <;> exact Predicate.combine_insert_none _ before after

/-- The aggregates of a filter and the condition on them, given the variables of the connection. -/
def AggregateFilter.compile (pair : Variable × Variable) (f : AggregateFilter) :
    Fresh (List Item × Option Predicate) :=
  f.predicate pair.1 pair.2

/-- The aggregates of all parts, and what their conditions make together. -/
def AggregateFilter.close (junction : Junction) (parts : List (List Item × Option Predicate)) :
    List Item × Option Predicate :=
  (parts.flatMap Prod.fst, junction.combine (parts.map Prod.snd))

/-- Aggregate filters in a row are compiled one by one. Their aggregates are collected, and their
conditions are listed. -/
theorem AggregateFilter.predicates_eq_mapM (pair : Variable × Variable)
    (fs : List AggregateFilter) :
    AggregateFilter.predicates pair.1 pair.2 fs =
      (fun parts => (parts.flatMap Prod.fst, parts.map Prod.snd)) <$>
        fs.mapM (AggregateFilter.compile pair) := by
  induction fs with
  | nil => rfl
  | cons f rest ih =>
    simp only [AggregateFilter.predicates, ih, List.mapM_cons, AggregateFilter.compile, map_bind,
      bind_map_left, map_pure, List.flatMap_cons, List.map_cons]

/-- Aggregate filters are compiled part by part, and closed by combining the conditions. -/
theorem AggregateFilter.junctive :
    Junctive AggregateFilter.join AggregateFilter.compile AggregateFilter.close where
  joined junction parts pair := by
    cases junction <;>
      simp only [AggregateFilter.join, AggregateFilter.compile, AggregateFilter.predicate,
        AggregateFilter.predicates_eq_mapM, bind_pure_comp] <;> rfl
  single junction part := by
    cases junction <;>
      simp [close, Junction.combine, Predicate.allOf, Predicate.anyOf, Predicate.combine_singleton]
  unit junction before after := by
    cases junction <;>
      simp [close, Junction.combine, Predicate.allOf, Predicate.anyOf, Predicate.combine]

/-! ### Reading what has been padded -/

namespace FilterReader

/-- What is read in the first way is read in the second way to something that is compiled alike. -/
def Carries {β ε α : Type} (compile : ε → β → Fresh α) (read' read : FilterResult β) : Prop :=
  ∀ b', read' = .ok b' → ∃ b, read = .ok b ∧ CompiledAlike compile b b'

section Objects

variable {β ε α : Type} {join : Junction → List β → β} {compile : ε → β → Fresh α}
  {close : Junction → List α → α} {member member' : KeyPath → Json → FilterResult β}
  {entry entry' : KeyPath → String → Json → FilterResult β} {schema : Schema} {place : Place}

/-- Padded members are read as the members are, an empty object is read to a part that says nothing,
and padded values under other keys are read as the values are. -/
structure ReadsPadded (schema : Schema) (place : Place) (join : Junction → List β → β)
    (compile : ε → β → Fresh α) (member' member : KeyPath → Json → FilterResult β)
    (entry' entry : KeyPath → String → Json → FilterResult β) : Prop where
  member : ∀ item item', Json.Padded schema place item item' → ∀ path path',
    Carries compile (member' path' item') (member path item)
  empty : ∀ path' b', member' path' (.object []) = .ok b' → b' = join .all []
  entry : ∀ key value value', Junction.ofKey? key = none →
    (place.keySlot schema key).Pads schema value value' → ∀ path path',
    Carries compile (entry' path' key value') (entry path key value)

namespace ReadsPadded

/-- The members of a padded list are read as those of the list, and the empty objects between them
to parts that say nothing. -/
theorem members (h : ReadsPadded schema place join compile member' member entry' entry)
    {path path' : KeyPath} {items items' : List Json} :
    Json.PaddedItems schema place items items' → ∀ {index index' : Nat} {parts' : List β},
      members member' path' index' items' = .ok parts' →
      ∃ parts, members member path index items = .ok parts ∧
        PaddedParts join compile parts parts' := by
  intro hitems
  induction items' generalizing items with
  | nil =>
    intro _ _ _ hread
    cases hitems
    obtain rfl := Except.ok.inj hread
    exact ⟨[], rfl, .nil⟩
  | cons item' rest' ih =>
    intro index _ _ hread
    obtain ⟨first', hfirst', hread⟩ := bind_eq_ok hread
    obtain ⟨others', hothers', hread⟩ := bind_eq_ok hread
    obtain rfl := Except.ok.inj hread
    cases hitems with
    | cons hitem hrest =>
      obtain ⟨first, hfirst, hsame⟩ := h.member _ _ hitem (path.index index) _ first' hfirst'
      obtain ⟨others, hothers, hparts⟩ := ih hrest hothers'
      refine ⟨first :: others, ?_, .cons hsame hparts⟩
      rw [FilterReader.members, hfirst, hothers]
      rfl
    | insert hitems =>
      obtain ⟨parts, hparts, hpadded⟩ := ih hitems hothers'
      exact ⟨parts, hparts, .insert (fun _ => h.empty _ _ hfirst' ▸ rfl) hpadded⟩

end ReadsPadded

/-- An entry of an object: a junction of members, or something else. -/
def headPart (join : Junction → List β → β) (member : KeyPath → Json → FilterResult β)
    (entry : KeyPath → String → Json → FilterResult β) (path : KeyPath) (key : String)
    (value : Json) : FilterResult β :=
  match Junction.ofKey? key with
  | some junction => do
    let items ← objects (path.key key) value
    let parts ← members member (path.key key) 0 items
    pure (join junction parts)
  | none => entry (path.key key) key value

/-- Entries are read one after the other. -/
theorem entries_cons (path : KeyPath) (key : String) (value : Json)
    (rest : List (String × Json)) :
    entries join member entry path ((key, value) :: rest) = (do
      let first ← headPart join member entry path key value
      let others ← entries join member entry path rest
      return first :: others) := by
  cases hkey : Junction.ofKey? key with
  | none => simp only [entries, headPart, hkey]
  | some junction => simp only [entries, headPart, hkey, bind_assoc, pure_bind]

/-- Members that pass the check are objects. -/
theorem isObject_of_checkObjects {path : KeyPath} {index : Nat} {items : List Json}
    (h : checkObjects path index items = .ok ()) : ∀ item ∈ items, item.isObject := by
  induction items generalizing index with
  | nil => exact List.forall_mem_nil _
  | cons item rest ih =>
    rw [checkObjects] at h
    split at h
    next hobject => exact List.forall_mem_cons.mpr ⟨hobject, ih h⟩
    next => simp at h

namespace ReadsPadded

variable {path path' : KeyPath} {key : String} {value value' : Json}

/-- A padded list under a junction key is read as the list is. -/
theorem head_junction (h : ReadsPadded schema place join compile member' member entry' entry)
    (hjunctive : Junctive join compile close) {junction : Junction}
    (hkey : Junction.ofKey? key = some junction) {items items' : List Json}
    (hitems : Json.PaddedItems schema place items items') :
    Carries compile (headPart join member' entry' path' key (.array items'))
      (headPart join member entry path key (.array items)) := by
  intro b' hread
  simp only [headPart, hkey] at hread ⊢
  obtain ⟨found, hfound, hread⟩ := bind_eq_ok hread
  obtain ⟨parts', hparts', hread⟩ := bind_eq_ok hread
  obtain rfl := Except.ok.inj hread
  obtain rfl : items' = found := Json.array.inj (eq_array_of_objects hfound)
  obtain ⟨_, hobjects, -⟩ := bind_eq_ok hfound
  obtain ⟨parts, hparts, hpadded⟩ := h.members hitems hparts'
  refine ⟨join junction parts, ?_, hjunctive.join_padded hpadded junction⟩
  rw [objects, checkObjects_eq_ok (hitems.forall_isObject (isObject_of_checkObjects hobjects))]
  show (FilterReader.members member (path.key key) 0 items >>= _) = _
  rw [hparts]
  rfl

/-- An entry that is no junction carries over, if its value is padded. -/
theorem head_other (h : ReadsPadded schema place join compile member' member entry' entry)
    (hkey : Junction.ofKey? key = none)
    (hvalue : (place.keySlot schema key).Pads schema value value') :
    Carries compile (headPart join member' entry' path' key value')
      (headPart join member entry path key value) := by
  simp only [headPart, hkey]
  exact h.entry key value value' hkey hvalue _ _

/-- An entry that stays as it is is read as before, also within a larger budget. -/
theorem head_same (h : ReadsPadded schema place join compile member' member entry' entry)
    (hjunctive : Junctive join compile close) :
    Carries compile (headPart join member' entry' path' key value)
      (headPart join member entry path key value) := by
  cases hkey : Junction.ofKey? key with
  | none => exact h.head_other hkey (Slot.pads_refl schema value _)
  | some junction =>
    cases value with
    | array items => exact h.head_junction hjunctive hkey (.refl place items)
    | _ =>
      intro b' hread
      simp [headPart, hkey, objects, bind, Except.bind] at hread

/-- One more entry that is read as before. -/
theorem entries_step {rest rest' : List (String × Json)} {parts' : List β}
    (hhead : Carries compile (headPart join member' entry' path' key value')
      (headPart join member entry path key value))
    (hrest : ∀ {parts' : List β},
      FilterReader.entries join member' entry' path' rest' = .ok parts' →
      ∃ parts, FilterReader.entries join member entry path rest = .ok parts ∧
        PaddedParts join compile parts parts')
    (hread : FilterReader.entries join member' entry' path' ((key, value') :: rest') =
      .ok parts') :
    ∃ parts, FilterReader.entries join member entry path ((key, value) :: rest) = .ok parts ∧
      PaddedParts join compile parts parts' := by
  rw [entries_cons] at hread
  obtain ⟨first', hfirst', hread⟩ := bind_eq_ok hread
  obtain ⟨others', hothers', hread⟩ := bind_eq_ok hread
  obtain rfl := Except.ok.inj hread
  obtain ⟨first, hfirst, hsame⟩ := hhead first' hfirst'
  obtain ⟨others, hothers, hpadded⟩ := hrest hothers'
  refine ⟨first :: others, ?_, .cons hsame hpadded⟩
  rw [entries_cons, hfirst, hothers]
  rfl

/-- Padded entries are read as the entries are. -/
theorem entries (h : ReadsPadded schema place join compile member' member entry' entry)
    (hjunctive : Junctive join compile close) {pairs pairs' : List (String × Json)}
    (hpairs : Json.PaddedEntries schema place pairs pairs') {parts' : List β}
    (hread : FilterReader.entries join member' entry' path' pairs' = .ok parts') :
    ∃ parts, FilterReader.entries join member entry path pairs = .ok parts ∧
      PaddedParts join compile parts parts' := by
  match hpairs with
  | .nil =>
    obtain rfl := Except.ok.inj hread
    exact ⟨[], rfl, .nil⟩
  | .same _ hrest => exact entries_step (h.head_same hjunctive) (h.entries hjunctive hrest) hread
  | .junction hkey hitems hrest =>
    exact entries_step (h.head_junction hjunctive hkey hitems) (h.entries hjunctive hrest) hread
  | .nested hkey hslot hvalue hrest =>
    refine entries_step (h.head_other hkey ?_) (h.entries hjunctive hrest) hread
    rw [hslot]
    exact hvalue
termination_by structural hpairs

/-- A padded object is read as the object is. -/
theorem object (h : ReadsPadded schema place join compile member' member entry' entry)
    (hjunctive : Junctive join compile close)
    (hvalue : Json.Padded schema place value value') :
    Carries compile (object join member' entry' path' value')
      (object join member entry path value) := by
  intro b' hread
  obtain ⟨_, _, rfl, -, -⟩ := eq_object_of_object hread
  cases hvalue with
  | other hobject => simp [Json.isObject] at hobject
  | @object _ pairs pairs' hpairs =>
    obtain ⟨parts', hparts', hread⟩ := bind_eq_ok hread
    obtain rfl := Except.ok.inj hread
    obtain ⟨parts, hparts, hpadded⟩ := h.entries hjunctive hpairs hparts'
    refine ⟨join .all parts, ?_, hjunctive.join_padded hpadded .all⟩
    rw [FilterReader.object, hparts]
    rfl

end ReadsPadded

end Objects

section Entries

variable {schema : Schema} {limit limit' : Nat} {path path' : KeyPath} {key : String}
  {value value' : Json}

/-- A quantifier that is read at one path is read at any other. -/
theorem quantifier_at {field : Field} {operator : Option String} {result : Quantifier}
    (h : quantifier path' field operator = .ok result) :
    quantifier path field operator = .ok result := by
  cases operator with
  | none => exact h
  | some operator =>
    simp only [quantifier] at h ⊢
    cases hsuffix : Quantifier.ofSuffix? operator with
    | none => simp [hsuffix] at h
    | some found => simpa [hsuffix] using h

/-- An operator that is read at one path is read at any other. -/
theorem scalarOperator_at {field : Field} {suffix : Option String}
    {result : Option FilterOperator} (h : scalarOperator path' field suffix = .ok result) :
    scalarOperator path field suffix = .ok result := by
  cases suffix with
  | none => exact h
  | some suffix =>
    simp only [scalarOperator] at h ⊢
    cases hsuffix : FilterOperator.ofSuffix? suffix with
    | none => simp [hsuffix] at h
    | some operator =>
      simp only [hsuffix] at h ⊢
      split at h
      next hallowed => rw [if_pos hallowed, h]
      next => simp at h

/-- A filter on a scalar that is read at one path is read at any other. -/
theorem scalar_at {field : Field} {suffix : Option String} {result : Filter}
    (h : scalar path' field suffix value = .ok result) :
    scalar path field suffix value = .ok result := by
  unfold scalar at h ⊢
  obtain ⟨operator, hoperator, h⟩ := bind_eq_ok h
  rw [scalarOperator_at hoperator]
  show (if _ then _ else _ : FilterResult Filter) = _
  split at h
  · simp at h
  next hlist => rw [if_neg hlist, ← h]

/-- An entry for one side that is read at one path is read at any other. -/
theorem sideEntry_at {s : Side} {element : Element} {result : AggregateFilter}
    (h : sideEntry s element path' key value = .ok result) :
    sideEntry s element path key value = .ok result := by
  unfold sideEntry at h ⊢
  cases hkey : FilterKey.aggregate? key with
  | none => simp [hkey] at h
  | some parsed =>
    cases hfield : element.field? parsed.field with
    | none => simp [hkey, hfield] at h
    | some field =>
      cases hscalar : field.scalar? with
      | none => simp [hkey, hfield, hscalar] at h
      | some scalar =>
        simp only [hkey, hfield, hscalar] at h ⊢
        split at h
        next hfits => rw [if_pos hfits, h]
        next => simp at h

/-- A key for one side of a connection reads a filter on that side. -/
theorem connectionEntry_eq {s : Side} {negated : Bool}
    (hkey : connectionPart? key = some (s, negated))
    (filter : Element → KeyPath → Json → FilterResult Filter) (link : Link) :
    connectionEntry filter link path key value =
      (filter (link.element s) path value).map (ofSide negated · s) := by
  unfold connectionPart? at hkey
  split at hkey <;> cases hkey <;> rfl

/-- A key for one side of aggregates reads a filter on that side. -/
theorem aggregateEntry_eq {s : Side} (hkey : Side.ofWord? key = some s)
    (side : Side → Element → KeyPath → Json → FilterResult AggregateFilter) (link : Link) :
    aggregateEntry side link path key value = side s (link.element s) path value := by
  unfold Side.ofWord? at hkey
  split at hkey <;> cases hkey <;> rfl

/-- A key that is read as no side is none of their words. -/
theorem ne_of_sideOfWord? (h : Side.ofWord? key = none) : key ≠ "node" ∧ key ≠ "edge" := by
  constructor <;> rintro rfl <;> simp [Side.ofWord?] at h

/-- A key that compares the count is a test on it, with any value. -/
theorem aggregateEntry_count {comparison : Comparison} (hkey : Side.ofWord? key = none)
    (hcount : FilterKey.count? key = some comparison)
    (side : Side → Element → KeyPath → Json → FilterResult AggregateFilter) (link : Link) :
    aggregateEntry side link path key value = .ok (.test .count comparison value) := by
  obtain ⟨hnode, hedge⟩ := ne_of_sideOfWord? hkey
  rw [aggregateEntry, if_neg hnode, if_neg hedge, hcount]

/-- Padding neither adds nor removes null. -/
theorem isNull_of_padded {place : Place} (h : Json.Padded schema place value value') :
    value.isNull = value'.isNull := by
  cases h <;> rfl

/-- What is read unless it is null is carried over with what is read otherwise. -/
theorem unlessNull_carried {β ε α : Type} {compile : ε → β → Fresh α} {place : Place}
    {read read' : Json → FilterResult β} (hvalue : Json.Padded schema place value value')
    (hread : Carries compile (read' value') (read value)) {inner' : Option β}
    (h : unlessNull read' value' = .ok inner') :
    (inner' = none ∧ unlessNull read value = .ok none) ∨
      ∃ b b', inner' = some b' ∧ unlessNull read value = .ok (some b) ∧
        CompiledAlike compile b b' := by
  obtain ⟨rfl, rfl⟩ | ⟨hnull, b', hread', rfl⟩ := unlessNull_eq_ok h
  · refine .inl ⟨rfl, if_pos ?_⟩
    rw [isNull_of_padded hvalue]
    rfl
  · obtain ⟨b, hb, hsame⟩ := hread b' hread'
    refine .inr ⟨b, b', rfl, ?_, hsame⟩
    rw [unlessNull, if_neg (by rw [isNull_of_padded hvalue, hnull]; exact Bool.false_ne_true), hb]
    rfl

/-- A filter under a quantifier is carried over if what is under the quantifier is. -/
theorem quantified_carried {β ε α : Type} {compile : ε → β → Fresh α}
    {read read' : Link → Json → FilterResult β} {place : Link → Place}
    {make : Link → Quantifier → Option β → Filter}
    (hread : ∀ link, Json.Padded schema (place link) value value' →
      Carries compile (read' link value') (read link value))
    (hmake : ∀ link quantifier b b', CompiledAlike compile b b' →
      CompiledAlike Filter.predicate (make link quantifier (some b))
        (make link quantifier (some b')))
    {field : Field} {operator : Option String} {relationship : Relationship}
    (hvalue : ∀ target, schema.node? relationship.target = some target →
      Json.Padded schema (place ⟨field.name, relationship, target⟩) value value') :
    Carries Filter.predicate
      (do
        let quantifier ← quantifier path' field operator
        let link ← link schema field relationship
        let inner ← unlessNull (read' link) value'
        return make link quantifier inner)
      (do
        let quantifier ← quantifier path field operator
        let link ← link schema field relationship
        let inner ← unlessNull (read link) value
        return make link quantifier inner) := by
  intro f' h
  obtain ⟨found, hquantifier, h⟩ := bind_eq_ok h
  obtain ⟨link, hlink, h⟩ := bind_eq_ok h
  obtain ⟨inner', hinner', h⟩ := bind_eq_ok h
  obtain rfl := Except.ok.inj h
  obtain ⟨target, htarget, rfl⟩ := node?_of_link hlink
  have hpadded := hvalue target htarget
  rw [quantifier_at hquantifier, hlink]
  obtain ⟨rfl, hinner⟩ | ⟨inner, found', rfl, hinner, hsame⟩ :=
    unlessNull_carried hpadded (hread _ hpadded) hinner'
  · refine ⟨make _ found none, ?_, fun _ => rfl⟩
    simp only [bind, Except.bind, hinner]
    rfl
  · refine ⟨make _ found (some inner), ?_, hmake _ found inner found' hsame⟩
    simp only [bind, Except.bind, hinner]
    rfl

/-- A filter on aggregates is carried over if what it says of them is. -/
theorem aggregated_carried {read read' : Link → Json → FilterResult AggregateFilter}
    (hread : ∀ link, Json.Padded schema (.aggregate link) value value' →
      Carries AggregateFilter.compile (read' link value') (read link value))
    {field : Field} {relationship : Relationship}
    (hvalue : ∀ target, schema.node? relationship.target = some target →
      Json.Padded schema (.aggregate ⟨field.name, relationship, target⟩) value value') :
    Carries Filter.predicate
      (do
        let link ← link schema field relationship
        let inner ← read' link value'
        return .aggregated link inner)
      (do
        let link ← link schema field relationship
        let inner ← read link value
        return .aggregated link inner) := by
  intro f' h
  obtain ⟨link, hlink, h⟩ := bind_eq_ok h
  obtain ⟨inner', hinner', h⟩ := bind_eq_ok h
  obtain rfl := Except.ok.inj h
  obtain ⟨target, htarget, rfl⟩ := node?_of_link hlink
  obtain ⟨inner, hinner, hsame⟩ := hread _ (hvalue target htarget) inner' hinner'
  refine ⟨.aggregated ⟨field.name, relationship, target⟩ inner, ?_, fun source => ?_⟩
  · rw [hlink]
    simp only [bind, Except.bind, hinner]
    rfl
  · have hpair (related edge : Variable) :
        inner.predicate related edge = inner'.predicate related edge := hsame (related, edge)
    simp only [Filter.predicate, AggregateFilter.subquery, hpair]

/-- An entry of a filter on an element, with a padded value, is read as before. -/
theorem entry_carried {filter filter' : Element → KeyPath → Json → FilterResult Filter}
    {connection connection' : Link → KeyPath → Json → FilterResult ConnectionFilter}
    {aggregate aggregate' : Link → KeyPath → Json → FilterResult AggregateFilter}
    {element : Element}
    (hfilter : ∀ element value value', Json.Padded schema (.element element) value value' →
      Carries Filter.predicate (filter' element path' value') (filter element path value))
    (hconnection : ∀ link value value', Json.Padded schema (.connection link) value value' →
      Carries ConnectionFilter.compile (connection' link path' value') (connection link path value))
    (haggregate : ∀ link value value', Json.Padded schema (.aggregate link) value value' →
      Carries AggregateFilter.compile (aggregate' link path' value') (aggregate link path value))
    (hvalue : ((Place.element element).keySlot schema key).Pads schema value value') :
    Carries Filter.predicate
      (entry schema filter' connection' aggregate' element path' key value')
      (entry schema filter connection aggregate element path key value) := by
  intro f' hread
  obtain ⟨meaning, hmeaning, -⟩ := reads_of_entry hread
  have hpads : meaning.slot.Pads schema value value' := by
    simpa only [Place.keySlot, hmeaning] using hvalue
  unfold Element.meaning? at hmeaning
  unfold entry at hread ⊢
  cases hresolve : resolve? element key with
  | none => simp [hresolve] at hread
  | some resolved =>
    obtain ⟨reading, field⟩ := resolved
    simp only [hresolve, Option.bind_some] at hread hmeaning ⊢
    cases hkind : field.kind with
    | scalar scalar =>
      simp only [hkind] at hread hmeaning ⊢
      obtain ⟨operator, -, rfl⟩ := Option.map_eq_some_iff.mp hmeaning
      obtain rfl : value = value' := hpads
      exact ⟨f', scalar_at hread, fun _ => rfl⟩
    | relationship relationship =>
      simp only [hkind] at hread hmeaning ⊢
      obtain ⟨target, htarget, hmeaning⟩ := Option.bind_eq_some_iff.mp hmeaning
      -- The target is the only one that the name of the relationship can lead to.
      have hunique (place : Link → Place)
          (h : Json.Padded schema (place ⟨field.name, relationship, target⟩) value value')
          (other : Node) (hother : schema.node? relationship.target = some other) :
          Json.Padded schema (place ⟨field.name, relationship, other⟩) value value' := by
        obtain rfl : target = other := Option.some.inj (htarget.symm.trans hother)
        exact h
      cases hmarker : reading.marker with
      | none =>
        simp only [hmarker, Link.meaning?] at hread hmeaning ⊢
        obtain ⟨_, -, rfl⟩ := Option.map_eq_some_iff.mp hmeaning
        refine quantified_carried (fun link => hfilter link.target.element value value')
          (fun link quantifier f f' hsame target => ?_)
          (hunique (fun link => .element link.target.element) hpads) f' hread
        simp only [Filter.predicate, hsame _]
      | some marker =>
        cases marker with
        | connection =>
          simp only [hmarker, Link.meaning?] at hread hmeaning ⊢
          obtain ⟨_, -, rfl⟩ := Option.map_eq_some_iff.mp hmeaning
          refine quantified_carried (fun link => hconnection link value value')
            (fun link quantifier f f' hsame target => ?_)
            (hunique (fun link => .connection link) hpads) f' hread
          have hpair (related edge : Variable) :
              f.predicate related edge = f'.predicate related edge :=
            hsame (related, edge)
          simp only [Filter.predicate, hpair]
        | aggregate =>
          simp only [hmarker] at hread hmeaning ⊢
          cases hoperator : reading.operator with
          | some operator => simp [hoperator] at hread
          | none =>
            simp only [hoperator, Link.meaning?] at hread hmeaning ⊢
            obtain rfl := Option.some.inj hmeaning
            exact aggregated_carried (fun link => haggregate link value value')
              (hunique (fun link => .aggregate link) hpads) f' hread

/-- An entry of a filter on a connection, with a padded value, is read as before. -/
theorem connectionEntry_carried {filter filter' : Element → KeyPath → Json → FilterResult Filter}
    {link : Link}
    (hfilter : ∀ element value value', Json.Padded schema (.element element) value value' →
      Carries Filter.predicate (filter' element path' value') (filter element path value))
    (hvalue : ((Place.connection link).keySlot schema key).Pads schema value value') :
    Carries ConnectionFilter.compile (connectionEntry filter' link path' key value')
      (connectionEntry filter link path key value) := by
  intro f' hread
  obtain ⟨s, negated, inner', hkey, hinner', rfl⟩ := eq_ofSide_of_connectionEntry hread
  simp only [Place.keySlot, hkey] at hvalue
  obtain ⟨inner, hinner, hsame⟩ := hfilter (link.element s) value value' hvalue inner' hinner'
  refine ⟨ofSide negated inner s, ?_, fun pair => ?_⟩
  · rw [connectionEntry_eq hkey, hinner]
    rfl
  · cases s <;>
      simp only [ofSide, ConnectionFilter.compile, ConnectionFilter.predicate, hsame _]

/-- An entry of an aggregate filter, with a padded value, is read as before. -/
theorem aggregateEntry_carried
    {side side' : Side → Element → KeyPath → Json → FilterResult AggregateFilter} {link : Link}
    (hside : ∀ s element value value', Json.Padded schema (.side element) value value' →
      Carries AggregateFilter.compile (side' s element path' value') (side s element path value))
    (hvalue : ((Place.aggregate link).keySlot schema key).Pads schema value value') :
    Carries AggregateFilter.compile (aggregateEntry side' link path' key value')
      (aggregateEntry side link path key value) := by
  intro f' hread
  obtain ⟨s, hkey, hinner'⟩ | ⟨hkey, comparison, hcount, rfl⟩ := aggregateEntry_eq_ok hread
  · simp only [Place.keySlot, hkey] at hvalue
    rw [aggregateEntry_eq hkey]
    exact hside s (link.element s) value value' hvalue f' hinner'
  · simp only [Place.keySlot, hkey, hcount, Option.isSome_some, if_true] at hvalue
    obtain rfl : value = value' := hvalue
    exact ⟨.test .count comparison value, aggregateEntry_count hkey hcount side link, fun _ => rfl⟩

/-- An entry of one side of an aggregate filter, with a padded value, is read as before. -/
theorem sideEntry_carried {s : Side} {element : Element}
    (hvalue : ((Place.side element).keySlot schema key).Pads schema value value') :
    Carries AggregateFilter.compile (sideEntry s element path' key value')
      (sideEntry s element path key value) := by
  intro f' hread
  obtain ⟨hkey, -⟩ := sideEntry_eq_ok hread
  simp only [Place.keySlot, hkey, if_true] at hvalue
  obtain rfl : value = value' := hvalue
  exact ⟨f', sideEntry_at hread, fun _ => rfl⟩

end Entries

/-! ### Larger budgets -/

/-- A padded filter on one side of an aggregate filter is read as the filter is, within any budget
that is not smaller. -/
theorem side_carried (schema : Schema) (limit limit' : Nat) (s : Side) (element : Element)
    {budget budget' : Nat} (hle : budget' ≤ budget) (value value' : Json)
    (hvalue : Json.Padded schema (.side element) value value') (path path' : KeyPath) :
    Carries AggregateFilter.compile (side limit' s element budget' path' value')
      (side limit s element budget path value) := by
  induction budget' generalizing budget value value' path path' with
  | zero =>
    intro f' hread
    simp [side] at hread
  | succ rest' ih =>
    obtain ⟨rest, rfl⟩ := Nat.exists_eq_add_of_le' (Nat.lt_of_lt_of_le rest'.succ_pos hle)
    rw [side, side]
    refine ReadsPadded.object ⟨ih (Nat.le_of_succ_le_succ hle), fun _ f' hread => ?_,
      fun key value value' _ hvalue path path' => sideEntry_carried hvalue⟩
      AggregateFilter.junctive hvalue
    cases rest' with
    | zero => simp [side] at hread
    | succ _ => exact (Except.ok.inj hread).symm

/-- A padded aggregate filter is read as the filter is, within any budget that is not smaller. -/
theorem aggregate_carried (schema : Schema) (limit limit' : Nat) (link : Link)
    {budget budget' : Nat} (hle : budget' ≤ budget) (value value' : Json)
    (hvalue : Json.Padded schema (.aggregate link) value value') (path path' : KeyPath) :
    Carries AggregateFilter.compile (aggregate limit' link budget' path' value')
      (aggregate limit link budget path value) := by
  induction budget' generalizing budget value value' path path' with
  | zero =>
    intro f' hread
    simp [aggregate] at hread
  | succ rest' ih =>
    obtain ⟨rest, rfl⟩ := Nat.exists_eq_add_of_le' (Nat.lt_of_lt_of_le rest'.succ_pos hle)
    have hrest := Nat.le_of_succ_le_succ hle
    rw [aggregate, aggregate]
    refine ReadsPadded.object ⟨ih hrest, fun _ f' hread => ?_,
      fun key value value' _ hvalue path path' => aggregateEntry_carried
        (fun s element value value' hvalue =>
          side_carried schema limit limit' s element hrest value value' hvalue path path') hvalue⟩
      AggregateFilter.junctive hvalue
    cases rest' with
    | zero => simp [aggregate] at hread
    | succ _ => exact (Except.ok.inj hread).symm

/-- A padded filter is read as the filter is, within any budget that is not smaller, and so is a
padded filter on a connection. -/
theorem filter_and_connection_carried (schema : Schema) (limit limit' : Nat) {budget budget' : Nat}
    (hle : budget' ≤ budget) :
    (∀ element value value', Json.Padded schema (.element element) value value' → ∀ path path',
      Carries Filter.predicate (filter schema limit' budget' element path' value')
        (filter schema limit budget element path value)) ∧
    ∀ link value value', Json.Padded schema (.connection link) value value' → ∀ path path',
      Carries ConnectionFilter.compile (connection schema limit' budget' link path' value')
        (connection schema limit budget link path value) := by
  -- The induction is on the budget of the padded value. An empty object that was put in needs one
  -- level of it, which the other value need not have.
  induction budget' generalizing budget with
  | zero =>
    constructor
    · intro element value value' _ path path' f' hread
      simp [filter] at hread
    · intro link value value' _ path path' f' hread
      simp [connection] at hread
  | succ rest' ih =>
    obtain ⟨rest, rfl⟩ := Nat.exists_eq_add_of_le' (Nat.lt_of_lt_of_le rest'.succ_pos hle)
    have hrest := Nat.le_of_succ_le_succ hle
    obtain ⟨hfilter, hconnection⟩ := ih hrest
    constructor
    · intro element value value' hvalue path path'
      rw [filter, filter]
      refine ReadsPadded.object ⟨hfilter element, fun _ f' hread => ?_,
        fun key value value' _ hvalue path path' => entry_carried
          (fun element value value' h => hfilter element value value' h path path')
          (fun link value value' h => hconnection link value value' h path path')
          (fun link value value' h =>
            aggregate_carried schema limit limit' link hrest value value' h path path') hvalue⟩
        Filter.junctive hvalue
      cases rest' with
      | zero => simp [filter] at hread
      | succ _ =>
        rw [filter] at hread
        exact (Except.ok.inj hread).symm
    · intro link value value' hvalue path path'
      rw [connection, connection]
      refine ReadsPadded.object ⟨hconnection link, fun _ f' hread => ?_,
        fun key value value' _ hvalue path path' => connectionEntry_carried
          (fun element value value' h => hfilter element value value' h path path') hvalue⟩
        ConnectionFilter.junctive hvalue
      cases rest' with
      | zero => simp [connection] at hread
      | succ _ =>
        rw [connection] at hread
        exact (Except.ok.inj hread).symm

end FilterReader

end GraphRead
