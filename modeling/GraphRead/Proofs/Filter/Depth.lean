import GraphRead.Proofs.Filter.Junctions

/-!
# The limit of depth

A filter may be nested only so deeply. This file proves that the limit does nothing
else: a higher limit changes an outcome only if the lower one is exceeded, which is
then said of a place just below it. Nothing below the limit is looked at, so that an
object there may as well be any other. Both follow from one comparison of two
readings, under two limits and of two values that differ only below the lower limit.

The readers count a budget down, which is used up exactly on the paths that are deeper
than the limit. So they may as well compare the depth of every path with the limit.
-/

namespace GraphRead

namespace KeyPath

/-- There are so many keys on a path below its location. -/
def HasDepth (path : KeyPath) (depth : Nat) : Prop := path.segments.length = path.base + depth

/-- The path of a whole filter has no keys. -/
theorem hasDepth_root : root.HasDepth 0 := rfl

/-- A location is not counted. -/
theorem hasDepth_located (location : String) : (located location).HasDepth 0 := rfl

variable {path : KeyPath} {depth : Nat}

/-- The depth that is reported of a path is the number of its keys. -/
theorem HasDepth.depth_eq (h : path.HasDepth depth) : path.depth = depth := by
  rw [KeyPath.depth, h, Nat.add_sub_cancel_left]

/-- A reader has as much budget left as its path is above the limit. So its budget is used up
exactly if the path is deeper than the limit. -/
theorem HasDepth.budget_eq_zero_iff (h : path.HasDepth depth) {limit budget : Nat}
    (hbudget : budget + depth = limit + 1) : budget = 0 ↔ limit < path.depth := by
  rw [h.depth_eq]
  omega

/-- A path is one key deeper below a key. -/
theorem HasDepth.key (h : path.HasDepth depth) (key : String) :
    (path.key key).HasDepth (depth + 1) := by
  rw [HasDepth, KeyPath.key, List.length_append, h]
  rfl

/-- An index is written behind the last key and adds none. -/
theorem length_indexed (index : Nat) {segments : List String} (h : segments ≠ []) :
    (indexed index segments).length = segments.length := by
  fun_induction indexed index segments with
  | case1 => exact absurd rfl h
  | case2 => rfl
  | case3 segment next rest ih =>
    rw [List.length_cons, List.length_cons, ih (List.cons_ne_nil _ _)]

/-- The members of a list are as deep as the key that it stands under. -/
theorem HasDepth.member (h : path.HasDepth depth) (key : String) (index : Nat) :
    ((path.key key).index index).HasDepth (depth + 1) := by
  have hne : (path.key key).segments ≠ [] := List.append_ne_nil_of_right_ne_nil _ (by simp)
  rw [HasDepth, KeyPath.index, length_indexed index hne]
  exact h.key key

end KeyPath

/-! ### Values that agree down to a limit -/

mutual
/-- Two values at a place, so many keys below the filter, differ only in objects that are read as
filters, if at all, and that are deeper than the limit. -/
inductive Json.SameWithin (schema : Schema) (limit : Nat) : Nat → Place → Json → Json → Prop where
  | same {depth : Nat} {place : Place} (value : Json) :
    SameWithin schema limit depth place value value
  /-- An object that is too deep may be any other. -/
  | replaced {depth : Nat} {place : Place} (hdepth : limit < depth)
    (entries entries' : List (String × Json)) :
    SameWithin schema limit depth place (.object entries) (.object entries')
  | object {depth : Nat} {place : Place} {entries entries' : List (String × Json)}
    (h : Json.SameEntriesWithin schema limit depth place entries entries') :
    SameWithin schema limit depth place (.object entries) (.object entries')

/-- Two lists whose members differ only in such objects. -/
inductive Json.SameItemsWithin (schema : Schema) (limit : Nat) :
    Nat → Place → List Json → List Json → Prop where
  | nil {depth : Nat} {place : Place} : SameItemsWithin schema limit depth place [] []
  | cons {depth : Nat} {place : Place} {item item' : Json} {rest rest' : List Json}
    (hitem : Json.SameWithin schema limit depth place item item')
    (hrest : Json.SameItemsWithin schema limit depth place rest rest') :
    SameItemsWithin schema limit depth place (item :: rest) (item' :: rest')

/-- The entries of two objects differ only in such objects. Every key leads one deeper. -/
inductive Json.SameEntriesWithin (schema : Schema) (limit : Nat) :
    Nat → Place → List (String × Json) → List (String × Json) → Prop where
  | nil {depth : Nat} {place : Place} : SameEntriesWithin schema limit depth place [] []
  | same {depth : Nat} {place : Place} (entry : String × Json) {rest rest' : List (String × Json)}
    (hrest : Json.SameEntriesWithin schema limit depth place rest rest') :
    SameEntriesWithin schema limit depth place (entry :: rest) (entry :: rest')
  | junction {depth : Nat} {place : Place} {key : String} {junction : Junction}
    {items items' : List Json} {rest rest' : List (String × Json)}
    (hkey : Junction.ofKey? key = some junction)
    (hitems : Json.SameItemsWithin schema limit (depth + 1) place items items')
    (hrest : Json.SameEntriesWithin schema limit depth place rest rest') :
    SameEntriesWithin schema limit depth place ((key, .array items) :: rest)
      ((key, .array items') :: rest')
  | nested {depth : Nat} {place inner : Place} {key : String} {value value' : Json}
    {rest rest' : List (String × Json)} (hkey : Junction.ofKey? key = none)
    (hslot : place.keySlot schema key = .nested inner)
    (hvalue : Json.SameWithin schema limit (depth + 1) inner value value')
    (hrest : Json.SameEntriesWithin schema limit depth place rest rest') :
    SameEntriesWithin schema limit depth place ((key, value) :: rest) ((key, value') :: rest')
  /-- What stands under a key that says nothing is not read at all. -/
  | unread {depth : Nat} {place : Place} {key : String} (value value' : Json)
    {rest rest' : List (String × Json)} (hkey : Junction.ofKey? key = none)
    (hslot : place.keySlot schema key = .unknown)
    (hrest : Json.SameEntriesWithin schema limit depth place rest rest') :
    SameEntriesWithin schema limit depth place ((key, value) :: rest) ((key, value') :: rest')
end

namespace Json

variable {schema : Schema} {limit depth : Nat} {place : Place}

/-- Entries are the same as themselves. -/
theorem SameEntriesWithin.refl (entries : List (String × Json)) :
    SameEntriesWithin schema limit depth place entries entries := by
  induction entries with
  | nil => exact .nil
  | cons entry rest ih => exact .same entry ih

/-- Members of a list are the same as themselves. -/
theorem SameItemsWithin.refl (items : List Json) :
    SameItemsWithin schema limit depth place items items := by
  induction items with
  | nil => exact .nil
  | cons item rest ih => exact .cons (.same item) ih

/-- An object stays an object, and nothing else becomes one. -/
theorem SameWithin.isObject_eq {value value' : Json}
    (h : SameWithin schema limit depth place value value') : value.isObject = value'.isObject := by
  cases h <;> rfl

/-- Null stays null, and nothing else becomes it. -/
theorem SameWithin.isNull_eq {value value' : Json}
    (h : SameWithin schema limit depth place value value') : value.isNull = value'.isNull := by
  cases h <;> rfl

/-- Values that differ only below the limit are of one kind, so that errors name the same. -/
theorem SameWithin.kind_eq {value value' : Json}
    (h : SameWithin schema limit depth place value value') : value.kind = value'.kind := by
  cases h <;> rfl

/-- Both lists pass the check for objects, or fail it at the same member. -/
theorem SameItemsWithin.checkObjects_eq {items items' : List Json}
    (h : SameItemsWithin schema limit depth place items items') (path : KeyPath) (index : Nat) :
    FilterReader.checkObjects path index items = FilterReader.checkObjects path index items' := by
  induction items generalizing items' index with
  | nil =>
    cases h
    rfl
  | cons item rest ih =>
    cases h with
    | cons hitem hrest =>
      rw [FilterReader.checkObjects, FilterReader.checkObjects, hitem.isObject_eq, hitem.kind_eq,
        ih hrest]

end Json

/-- Two values under a key, so many keys deep, differ only in such objects. -/
def Slot.SameWithin (schema : Schema) (limit depth : Nat) (value value' : Json) : Slot → Prop
  | .nested inner => Json.SameWithin schema limit depth inner value value'
  | .scalar _ | .comparison => value = value'
  | .unknown => True

/-- Whatever a key stands for, a value is the same as itself. -/
theorem Slot.sameWithin_refl (schema : Schema) (limit depth : Nat) (value : Json) (slot : Slot) :
    slot.SameWithin schema limit depth value value := by
  cases slot with
  | nested inner => exact .same value
  | unknown => trivial
  | _ => rfl

/-! ### Outcomes under two limits -/

/-- The outcome under a limit is the outcome under another that is not lower, unless the lower one
is exceeded. -/
def Truncates {α : Type} (limit limit' : Nat) (result result' : FilterResult α) : Prop :=
  result = result' ∨
    limit < limit' ∧ ∃ path, result = .error (.tooDeep path limit) ∧ path.depth = limit + 1

namespace Truncates

variable {α β : Type} {limit limit' : Nat} {result result' : FilterResult α}

/-- Equal outcomes are compared under any two limits. -/
theorem of_eq (h : result = result') : Truncates limit limit' result result' := .inl h

/-- Under one limit, nothing is cut off. -/
theorem eq_of_same (h : Truncates limit limit result result') : result = result' := by
  obtain heq | ⟨hlt, -⟩ := h
  · exact heq
  · exact absurd hlt (Nat.lt_irrefl _)

/-- What follows decides only if the limit is not exceeded before. -/
theorem bind (h : Truncates limit limit' result result') {next next' : α → FilterResult β}
    (hnext : ∀ a, result = .ok a → Truncates limit limit' (next a) (next' a)) :
    Truncates limit limit' (result >>= next) (result' >>= next') := by
  obtain rfl | ⟨hlt, path, rfl, hdepth⟩ := h
  · cases result with
    | error error => exact of_eq rfl
    | ok a => exact hnext a rfl
  · exact .inr ⟨hlt, path, rfl, hdepth⟩

/-- What is made of outcomes is compared as the outcomes are. -/
theorem map (h : Truncates limit limit' result result') (f : α → β) :
    Truncates limit limit' (result.map f) (result'.map f) := by
  obtain rfl | ⟨hlt, path, rfl, hdepth⟩ := h
  · exact of_eq rfl
  · exact .inr ⟨hlt, path, rfl, hdepth⟩

end Truncates

namespace FilterReader

variable {schema : Schema} {limit limit' depth : Nat} {place : Place} {β : Type}

/-- Two ways to read the values at a place, so many keys deep, the second under a limit that is not
lower. -/
def ReadsWithin (schema : Schema) (limit limit' : Nat) (place : Place) (depth : Nat)
    (read read' : KeyPath → Json → FilterResult β) : Prop :=
  ∀ path : KeyPath, path.HasDepth depth → ∀ value value',
    Json.SameWithin schema limit depth place value value' →
    Truncates limit limit' (read path value) (read' path value')

/-- Two ways to read the entries of an object, so many keys deep. -/
def ReadsEntriesWithin (schema : Schema) (limit limit' : Nat) (place : Place) (depth : Nat)
    (entry entry' : KeyPath → String → Json → FilterResult β) : Prop :=
  ∀ path : KeyPath, path.HasDepth depth → ∀ key value value', Junction.ofKey? key = none →
    (place.keySlot schema key).SameWithin schema limit depth value value' →
    Truncates limit limit' (entry path key value) (entry' path key value')

/-- If no level is left under the lower limit, it is exceeded. -/
theorem readsWithin_exhausted (read : (limit budget : Nat) → KeyPath → Json → FilterResult β)
    (hread : ∀ limit path value, read limit 0 path value = .error (.tooDeep path limit))
    {budget' : Nat} (hle : limit ≤ limit') (hbudget : 0 + depth = limit + 1)
    (hbudget' : budget' + depth = limit' + 1) :
    ReadsWithin schema limit limit' place depth (read limit 0) (read limit' budget') := by
  intro path hpath value value' _
  have hdeep : limit < path.depth := (hpath.budget_eq_zero_iff hbudget).1 rfl
  obtain hlt | rfl := Nat.lt_or_eq_of_le hle
  · have hdepth : depth = limit + 1 := by omega
    exact .inr ⟨hlt, path, hread limit path value, hpath.depth_eq.trans hdepth⟩
  · obtain rfl : budget' = 0 := (hpath.budget_eq_zero_iff hbudget').2 hdeep
    exact .of_eq (by rw [hread, hread])

section Objects

variable {join : Junction → List β → β} {member member' : KeyPath → Json → FilterResult β}
  {entry entry' : KeyPath → String → Json → FilterResult β}

/-- Members of a list are compared one by one, at paths of the same depth. -/
theorem members_within (hmember : ReadsWithin schema limit limit' place depth member member')
    {path : KeyPath} (hpath : ∀ index, (path.index index).HasDepth depth)
    {items items' : List Json} (h : Json.SameItemsWithin schema limit depth place items items')
    (index : Nat) :
    Truncates limit limit' (members member path index items)
      (members member' path index items') := by
  induction items generalizing items' index with
  | nil =>
    cases h
    exact .of_eq rfl
  | cons item rest ih =>
    cases h with
    | cons hitem hrest =>
      have hfirst := hmember _ (hpath index) _ _ hitem
      exact hfirst.bind fun _ _ => (ih hrest (index + 1)).bind fun _ _ => .of_eq rfl

variable {path : KeyPath} {key : String} {value value' : Json}

/-- The members under a junction are one key deeper. -/
theorem head_junction_within (hpath : path.HasDepth depth)
    (hmember : ReadsWithin schema limit limit' place (depth + 1) member member')
    {junction : Junction} (hkey : Junction.ofKey? key = some junction) {items items' : List Json}
    (hitems : Json.SameItemsWithin schema limit (depth + 1) place items items') :
    Truncates limit limit' (headPart join member entry path key (.array items))
      (headPart join member' entry' path key (.array items')) := by
  simp only [headPart, hkey, objects, hitems.checkObjects_eq, bind_assoc, pure_bind]
  exact (Truncates.of_eq rfl).bind fun _ _ =>
    (members_within hmember (hpath.member key) hitems 0).bind fun _ _ => .of_eq rfl

/-- The value under any other key is one key deeper. -/
theorem head_other_within (hpath : path.HasDepth depth)
    (hentry : ReadsEntriesWithin schema limit limit' place (depth + 1) entry entry')
    (hkey : Junction.ofKey? key = none)
    (hvalue : (place.keySlot schema key).SameWithin schema limit (depth + 1) value value') :
    Truncates limit limit' (headPart join member entry path key value)
      (headPart join member' entry' path key value') := by
  simp only [headPart, hkey]
  exact hentry _ (hpath.key key) key value value' hkey hvalue

/-- An entry that is the same in both objects is read by both readers. -/
theorem head_same_within (hpath : path.HasDepth depth)
    (hmember : ReadsWithin schema limit limit' place (depth + 1) member member')
    (hentry : ReadsEntriesWithin schema limit limit' place (depth + 1) entry entry') :
    Truncates limit limit' (headPart join member entry path key value)
      (headPart join member' entry' path key value) := by
  cases hkey : Junction.ofKey? key with
  | none => exact head_other_within hpath hentry hkey (Slot.sameWithin_refl ..)
  | some junction =>
    cases value with
    | array items => exact head_junction_within hpath hmember hkey (.refl items)
    | _ => exact .of_eq (by simp [headPart, hkey, objects, bind, Except.bind])

/-- Entries in a row are compared one after the other. -/
theorem entries_cons_within {rest rest' : List (String × Json)}
    (hhead : Truncates limit limit' (headPart join member entry path key value)
      (headPart join member' entry' path key value'))
    (hrest : Truncates limit limit' (entries join member entry path rest)
      (entries join member' entry' path rest')) :
    Truncates limit limit' (entries join member entry path ((key, value) :: rest))
      (entries join member' entry' path ((key, value') :: rest')) := by
  rw [entries_cons, entries_cons]
  exact hhead.bind fun _ _ => hrest.bind fun _ _ => .of_eq rfl

/-- Entries are compared by how they are the same: as they are, as a junction, as a nested filter,
or because nothing of them is read. -/
theorem entries_within (hpath : path.HasDepth depth)
    (hmember : ReadsWithin schema limit limit' place (depth + 1) member member')
    (hentry : ReadsEntriesWithin schema limit limit' place (depth + 1) entry entry')
    {pairs pairs' : List (String × Json)}
    (h : Json.SameEntriesWithin schema limit depth place pairs pairs') :
    Truncates limit limit' (entries join member entry path pairs)
        (entries join member' entry' path pairs') := by
  match h with
  | .nil => exact .of_eq rfl
  | .same _ hrest =>
    refine entries_cons_within ?_ (entries_within hpath hmember hentry hrest)
    exact head_same_within hpath hmember hentry
  | .junction hkey hitems hrest =>
    refine entries_cons_within ?_ (entries_within hpath hmember hentry hrest)
    exact head_junction_within hpath hmember hkey hitems
  | .nested hkey hslot hvalue hrest =>
    refine entries_cons_within (head_other_within hpath hentry hkey ?_)
      (entries_within hpath hmember hentry hrest)
    rw [hslot]
    exact hvalue
  | .unread _ _ hkey hslot hrest =>
    refine entries_cons_within (head_other_within hpath hentry hkey ?_)
      (entries_within hpath hmember hentry hrest)
    rw [hslot]
    trivial
termination_by structural h

/-- An object that is not too deep is read entry by entry, each one key deeper. -/
theorem object_within (hdepth : depth ≤ limit)
    (hmember : ReadsWithin schema limit limit' place (depth + 1) member member')
    (hentry : ReadsEntriesWithin schema limit limit' place (depth + 1) entry entry') :
    ReadsWithin schema limit limit' place depth (object join member entry)
      (object join member' entry') := by
  intro path hpath value value' hvalue
  have hobject {pairs pairs' : List (String × Json)}
      (h : Json.SameEntriesWithin schema limit depth place pairs pairs') :
      Truncates limit limit' (object join member entry path (.object pairs))
        (object join member' entry' path (.object pairs')) :=
    (entries_within hpath hmember hentry h).bind fun _ _ => .of_eq rfl
  cases hvalue with
  | same =>
    cases value with
    | object pairs => exact hobject (.refl pairs)
    | _ => exact .of_eq rfl
  | replaced hdeeper => omega
  | object h => exact hobject h

end Objects

section Entries

variable {path : KeyPath} {key : String} {value value' : Json}

/-- Null is read alike, and anything else is compared as the readers compare it. -/
theorem unlessNull_within {read read' : Json → FilterResult β}
    (hvalue : Json.SameWithin schema limit depth place value value')
    (hread : Truncates limit limit' (read value) (read' value')) :
    Truncates limit limit' (unlessNull read value) (unlessNull read' value') := by
  rw [unlessNull, unlessNull, hvalue.isNull_eq]
  split
  · exact .of_eq rfl
  · exact hread.map some

/-- A key with an operator that there is not is refused whatever its value is. -/
theorem scalar_unread {field : Field} {suffix : Option String}
    (h : FilterOperator.ofKey? suffix = none) :
    scalar path field suffix value = scalar path field suffix value' := by
  cases hoperator : scalarOperator path field suffix with
  | error error => simp only [scalar, hoperator, bind, Except.bind]
  | ok operator => simp [ofKey?_of_scalarOperator hoperator] at h

/-- Under a key that says nothing about a connection, the value is not read. -/
theorem connectionEntry_unread {filter filter' : Element → KeyPath → Json → FilterResult Filter}
    {link : Link} (h : connectionPart? key = none) :
    connectionEntry filter link path key value = connectionEntry filter' link path key value' := by
  unfold connectionPart? at h
  unfold connectionEntry
  split at h <;> simp_all

/-- Under a key that says nothing about an aggregate, the value is not read. -/
theorem aggregateEntry_unread
    {side side' : Side → Element → KeyPath → Json → FilterResult AggregateFilter} {link : Link}
    (hside : Side.ofWord? key = none) (hcount : FilterKey.count? key = none) :
    aggregateEntry side link path key value = aggregateEntry side' link path key value' := by
  obtain ⟨hnode, hedge⟩ := ne_of_sideOfWord? hside
  simp only [aggregateEntry, if_neg hnode, if_neg hedge, hcount]

/-- A filter under a quantifier is read within a limit if what is under the quantifier is. -/
theorem quantified_within {read read' : Link → KeyPath → Json → FilterResult β}
    {make : Link → Quantifier → Option β → Filter} (inner : Link → Place)
    (hread : ∀ link, ReadsWithin schema limit limit' (inner link) depth (read link) (read' link))
    (hpath : path.HasDepth depth) {field : Field} {relationship : Relationship}
    {operator : Option String}
    (hvalue : ∀ target found, schema.node? relationship.target = some target →
      Quantifier.ofKey? operator = some found →
      Json.SameWithin schema limit depth (inner ⟨field.name, relationship, target⟩) value value') :
    Truncates limit limit'
      (do
        let quantifier ← quantifier path field operator
        let link ← link schema field relationship
        let inner ← unlessNull (read link path) value
        return make link quantifier inner)
      (do
        let quantifier ← quantifier path field operator
        let link ← link schema field relationship
        let inner ← unlessNull (read' link path) value'
        return make link quantifier inner) := by
  refine (Truncates.of_eq rfl).bind fun found hfound => (Truncates.of_eq rfl).bind
    fun link hlink => ?_
  obtain ⟨target, htarget, rfl⟩ := node?_of_link hlink
  have hsame := hvalue target found htarget (ofKey?_of_quantifier hfound)
  exact (unlessNull_within hsame (hread _ path hpath _ _ hsame)).bind fun _ _ => .of_eq rfl

/-- The entries of a filter on an element are read within a limit if what they contain is. -/
theorem entry_within {filter filter' : Element → KeyPath → Json → FilterResult Filter}
    {connection connection' : Link → KeyPath → Json → FilterResult ConnectionFilter}
    {aggregate aggregate' : Link → KeyPath → Json → FilterResult AggregateFilter}
    {element : Element}
    (hfilter : ∀ element, ReadsWithin schema limit limit' (.element element) depth
      (filter element) (filter' element))
    (hconnection : ∀ link, ReadsWithin schema limit limit' (.connection link) depth
      (connection link) (connection' link))
    (haggregate : ∀ link, ReadsWithin schema limit limit' (.aggregate link) depth
      (aggregate link) (aggregate' link)) :
    ReadsEntriesWithin schema limit limit' (.element element) depth
      (entry schema filter connection aggregate element)
      (entry schema filter' connection' aggregate' element) := by
  intro path hpath key value value' _ hvalue
  unfold entry
  simp only [Place.keySlot, Element.meaning?] at hvalue
  cases hresolve : resolve? element key with
  | none => exact .of_eq rfl
  | some resolved =>
    obtain ⟨reading, field⟩ := resolved
    simp only [hresolve, Option.bind_some] at hvalue ⊢
    cases hkind : field.kind with
    | scalar scalar =>
      simp only [hkind] at hvalue ⊢
      -- A value under an operator that does not exist may differ, since it is not read.
      cases hoperator : FilterOperator.ofKey? reading.operator with
      | none => exact .of_eq (scalar_unread hoperator)
      | some operator =>
        simp only [hoperator, Option.map_some] at hvalue
        obtain rfl : value = value' := hvalue
        exact .of_eq rfl
    | relationship relationship =>
      simp only [hkind] at hvalue ⊢
      cases hmarker : reading.marker with
      | none =>
        refine quantified_within (fun link => .element link.target.element)
          (fun link => hfilter link.target.element) hpath fun target found htarget hfound => ?_
        simp only [hmarker, htarget, Option.bind_some, Link.meaning?, hfound, Option.map_some]
          at hvalue
        exact hvalue
      | some marker =>
        cases marker with
        | connection =>
          refine quantified_within .connection hconnection hpath
            fun target found htarget hfound => ?_
          simp only [hmarker, htarget, Option.bind_some, Link.meaning?, hfound, Option.map_some]
            at hvalue
          exact hvalue
        | aggregate =>
          simp only [hmarker] at hvalue ⊢
          cases hoperator : reading.operator with
          | some operator => exact .of_eq rfl
          | none =>
            refine (Truncates.of_eq rfl).bind fun link hlink => ?_
            obtain ⟨target, htarget, rfl⟩ := node?_of_link hlink
            simp only [hoperator, htarget, Option.bind_some, Link.meaning?] at hvalue
            exact (haggregate _ path hpath _ _ hvalue).bind fun _ _ => .of_eq rfl

/-- Entries of connection filters are compared as the filters on nodes and relationships are. -/
theorem connectionEntry_within {filter filter' : Element → KeyPath → Json → FilterResult Filter}
    {link : Link}
    (hfilter : ∀ element, ReadsWithin schema limit limit' (.element element) depth
      (filter element) (filter' element)) :
    ReadsEntriesWithin schema limit limit' (.connection link) depth (connectionEntry filter link)
      (connectionEntry filter' link) := by
  intro path hpath key value value' _ hvalue
  cases hkey : connectionPart? key with
  | none => exact .of_eq (connectionEntry_unread hkey)
  | some part =>
    obtain ⟨s, negated⟩ := part
    simp only [Place.keySlot, hkey] at hvalue
    rw [connectionEntry_eq hkey, connectionEntry_eq hkey]
    exact (hfilter _ path hpath _ _ hvalue).map _

/-- Entries of aggregate filters are compared as the filters on both sides are. -/
theorem aggregateEntry_within
    {side side' : Side → Element → KeyPath → Json → FilterResult AggregateFilter} {link : Link}
    (hside : ∀ s element, ReadsWithin schema limit limit' (.side element) depth (side s element)
      (side' s element)) :
    ReadsEntriesWithin schema limit limit' (.aggregate link) depth (aggregateEntry side link)
      (aggregateEntry side' link) := by
  intro path hpath key value value' _ hvalue
  cases hkey : Side.ofWord? key with
  | some s =>
    simp only [Place.keySlot, hkey] at hvalue
    rw [aggregateEntry_eq hkey, aggregateEntry_eq hkey]
    exact hside s _ path hpath _ _ hvalue
  | none =>
    cases hcount : FilterKey.count? key with
    | none => exact .of_eq (aggregateEntry_unread hkey hcount)
    | some comparison =>
      simp only [Place.keySlot, hkey, hcount, Option.isSome_some, if_true] at hvalue
      obtain rfl : value = value' := hvalue
      rw [aggregateEntry_count hkey hcount, aggregateEntry_count hkey hcount]
      exact .of_eq rfl

/-- An entry for one side has no nested filter, so that the limit does not matter. -/
theorem sideEntry_within (s : Side) (element : Element) :
    ReadsEntriesWithin schema limit limit' (.side element) depth (sideEntry s element)
      (sideEntry s element) := by
  intro path _ key value value' _ hvalue
  cases hkey : FilterKey.aggregate? key with
  | none => exact .of_eq (by simp only [sideEntry, hkey])
  | some parsed =>
    simp only [Place.keySlot, hkey, Option.isSome_some, if_true] at hvalue
    obtain rfl : value = value' := hvalue
    exact .of_eq rfl

end Entries

section Budgets

variable {budget budget' : Nat}

/-- Filters on one side are compared along both budgets, which are used up at the same distance from
their limits. -/
theorem side_within (hle : limit ≤ limit') (s : Side) (element : Element)
    (hbudget : budget + depth = limit + 1) (hbudget' : budget' + depth = limit' + 1) :
    ReadsWithin schema limit limit' (.side element) depth (side limit s element budget)
      (side limit' s element budget') := by
  induction budget generalizing budget' depth with
  | zero =>
    exact readsWithin_exhausted (fun limit => side limit s element) (fun _ _ _ => rfl) hle hbudget
      hbudget'
  | succ budget ih =>
    obtain ⟨budget', rfl⟩ : ∃ less, budget' = less + 1 := ⟨budget' - 1, by omega⟩
    exact object_within (by omega) (ih (by omega) (by omega)) (sideEntry_within s element)

/-- Aggregate filters are compared along both budgets. -/
theorem aggregate_within (hle : limit ≤ limit') (link : Link)
    (hbudget : budget + depth = limit + 1) (hbudget' : budget' + depth = limit' + 1) :
    ReadsWithin schema limit limit' (.aggregate link) depth (aggregate limit link budget)
      (aggregate limit' link budget') := by
  induction budget generalizing budget' depth with
  | zero =>
    exact readsWithin_exhausted (fun limit => aggregate limit link) (fun _ _ _ => rfl) hle hbudget
      hbudget'
  | succ budget ih =>
    obtain ⟨budget', rfl⟩ : ∃ less, budget' = less + 1 := ⟨budget' - 1, by omega⟩
    exact object_within (by omega) (ih (by omega) (by omega)) (aggregateEntry_within
      fun s element => side_within hle s element (by omega) (by omega))

/-- A filter is read under a limit as under a higher one, unless the lower one is exceeded, and
whatever stands below the lower one. -/
theorem filter_and_connection_within (schema : Schema) (hle : limit ≤ limit')
    (hbudget : budget + depth = limit + 1) (hbudget' : budget' + depth = limit' + 1) :
    (∀ element, ReadsWithin schema limit limit' (.element element) depth
      (filter schema limit budget element) (filter schema limit' budget' element)) ∧
    ∀ link, ReadsWithin schema limit limit' (.connection link) depth
      (connection schema limit budget link) (connection schema limit' budget' link) := by
  induction budget generalizing budget' depth with
  | zero =>
    constructor
    · intro element
      exact readsWithin_exhausted (fun limit budget => filter schema limit budget element)
        (fun _ _ _ => rfl) hle hbudget hbudget'
    · intro link
      exact readsWithin_exhausted (fun limit budget => connection schema limit budget link)
        (fun _ _ _ => rfl) hle hbudget hbudget'
  | succ budget ih =>
    obtain ⟨budget', rfl⟩ : ∃ less, budget' = less + 1 := ⟨budget' - 1, by omega⟩
    obtain ⟨hfilter, hconnection⟩ := @ih (depth + 1) budget' (by omega) (by omega)
    have haggregate (link : Link) : ReadsWithin schema limit limit' (.aggregate link) (depth + 1)
        (aggregate limit link budget) (aggregate limit' link budget') :=
      aggregate_within hle link (by omega) (by omega)
    constructor
    · intro element
      exact object_within (by omega) (hfilter element)
        (entry_within hfilter hconnection haggregate)
    · intro link
      exact object_within (by omega) (hconnection link) (connectionEntry_within hfilter)

end Budgets

section Checks

/-- A reader that is given, at every path, the budget that is left there. -/
def metered (limit : Nat) (read : (budget : Nat) → KeyPath → Json → FilterResult β)
    (path : KeyPath) (value : Json) : FilterResult β :=
  read (limit + 1 - path.depth) path value

/-- The filters on an element at a path, whatever budget was spent to get there. -/
abbrev meteredFilter (schema : Schema) (limit : Nat) (element : Element) :
    KeyPath → Json → FilterResult Filter :=
  metered limit fun budget => filter schema limit budget element

/-- The filters on a connection at a path. -/
abbrev meteredConnection (schema : Schema) (limit : Nat) (link : Link) :
    KeyPath → Json → FilterResult ConnectionFilter :=
  metered limit fun budget => connection schema limit budget link

/-- The aggregate filters at a path. -/
abbrev meteredAggregate (limit : Nat) (link : Link) :
    KeyPath → Json → FilterResult AggregateFilter :=
  metered limit fun budget => aggregate limit link budget

/-- The filters on the aggregates of one side at a path. -/
abbrev meteredSide (limit : Nat) (s : Side) (element : Element) :
    KeyPath → Json → FilterResult AggregateFilter :=
  metered limit fun budget => side limit s element budget

/-- Where the rest of a budget is what is left at a path, it is given to the reader there. -/
theorem readsWithin_metered (read : (budget : Nat) → KeyPath → Json → FilterResult β)
    {budget : Nat} (hbudget : budget + depth = limit + 1)
    (h : ReadsWithin schema limit limit place depth (read budget) (read budget)) :
    ReadsWithin schema limit limit place depth (read budget) (metered limit read) := by
  intro path hpath value value' hvalue
  obtain rfl : limit + 1 - path.depth = budget := by
    rw [hpath.depth_eq]
    omega
  exact h path hpath value value' hvalue

section Readers

variable {budget : Nat}

/-- A filter is read with the budget that is left at its path. -/
theorem filter_metered (hbudget : budget + depth = limit + 1) (element : Element) :
    ReadsWithin schema limit limit (.element element) depth (filter schema limit budget element)
      (meteredFilter schema limit element) := by
  have hfilters := (filter_and_connection_within schema (Nat.le_refl _) hbudget hbudget).1
  exact readsWithin_metered (fun budget => filter schema limit budget element) hbudget
    (hfilters element)

/-- So is a filter on a connection. -/
theorem connection_metered (hbudget : budget + depth = limit + 1) (link : Link) :
    ReadsWithin schema limit limit (.connection link) depth (connection schema limit budget link)
      (meteredConnection schema limit link) := by
  have hconnections := (filter_and_connection_within schema (Nat.le_refl _) hbudget hbudget).2
  exact readsWithin_metered (fun budget => connection schema limit budget link) hbudget
    (hconnections link)

/-- So is an aggregate filter. -/
theorem aggregate_metered (hbudget : budget + depth = limit + 1) (link : Link) :
    ReadsWithin schema limit limit (.aggregate link) depth (aggregate limit link budget)
      (meteredAggregate limit link) := by
  refine readsWithin_metered (aggregate limit link) hbudget ?_
  exact aggregate_within (Nat.le_refl _) link hbudget hbudget

/-- So is a filter on the aggregates of one side. -/
theorem side_metered (hbudget : budget + depth = limit + 1) (s : Side) (element : Element) :
    ReadsWithin schema limit limit (.side element) depth (side limit s element budget)
      (meteredSide limit s element) := by
  refine readsWithin_metered (side limit s element) hbudget ?_
  exact side_within (Nat.le_refl _) s element hbudget hbudget

end Readers

/-- A reader that fails without a budget, and otherwise reads the entries of an object with one
level less, compares the depth of its path with the limit. -/
theorem metered_eq_ite (schema : Schema) (place : Place)
    {read : (budget : Nat) → KeyPath → Json → FilterResult β}
    {next : KeyPath → Json → FilterResult β} {path : KeyPath} (hpath : path.HasDepth depth)
    (hzero : ∀ path value, read 0 path value = .error (.tooDeep path limit))
    (hsucc : ∀ budget, budget + 1 + depth = limit + 1 →
      ReadsWithin schema limit limit place depth (read (budget + 1)) next) (value : Json) :
    metered limit read path value =
      if limit < path.depth then .error (.tooDeep path limit) else next path value := by
  rw [metered, hpath.depth_eq]
  split
  next hdeep =>
    obtain hleft : limit + 1 - depth = 0 := by omega
    rw [hleft, hzero]
  next hdeep =>
    obtain ⟨budget, hleft⟩ : ∃ budget, limit + 1 - depth = budget + 1 := ⟨limit - depth, by omega⟩
    rw [hleft]
    exact (hsucc budget (by omega) path hpath value value (.same value)).eq_of_same

/-- Every reader checks the depth of its path before it looks at the value, and passes its paths
on to readers that do so as well. The budget is not needed to say so. -/
theorem readers_check_depth (schema : Schema) (limit : Nat) {path : KeyPath}
    (hpath : path.HasDepth depth) (value : Json) :
    (∀ element, meteredFilter schema limit element path value =
      if limit < path.depth then .error (.tooDeep path limit)
      else object Filter.join (meteredFilter schema limit element)
        (entry schema (meteredFilter schema limit) (meteredConnection schema limit)
          (meteredAggregate limit) element) path value) ∧
    (∀ link, meteredConnection schema limit link path value =
      if limit < path.depth then .error (.tooDeep path limit)
      else object ConnectionFilter.join (meteredConnection schema limit link)
        (connectionEntry (meteredFilter schema limit) link) path value) ∧
    (∀ link, meteredAggregate limit link path value =
      if limit < path.depth then .error (.tooDeep path limit)
      else object AggregateFilter.join (meteredAggregate limit link)
        (aggregateEntry (meteredSide limit) link) path value) ∧
    ∀ s element, meteredSide limit s element path value =
      if limit < path.depth then .error (.tooDeep path limit)
      else object AggregateFilter.join (meteredSide limit s element) (sideEntry s element) path
        value := by
  -- One key deeper the budget is one less, so that together they make up the limit again.
  refine ⟨fun element => ?_, fun link => ?_, fun link => ?_, fun s element => ?_⟩
  · refine metered_eq_ite schema (.element element) hpath (fun _ _ => rfl)
      (fun budget hbudget => ?_) value
    have hnext : budget + (depth + 1) = limit + 1 := by omega
    exact object_within (by omega) (filter_metered hnext element) (entry_within
      (filter_metered hnext) (connection_metered hnext) (aggregate_metered hnext))
  · refine metered_eq_ite schema (.connection link) hpath (fun _ _ => rfl)
      (fun budget hbudget => ?_) value
    have hnext : budget + (depth + 1) = limit + 1 := by omega
    exact object_within (by omega) (connection_metered hnext link)
      (connectionEntry_within (filter_metered hnext))
  · refine metered_eq_ite schema (.aggregate link) hpath (fun _ _ => rfl)
      (fun budget hbudget => ?_) value
    have hnext : budget + (depth + 1) = limit + 1 := by omega
    exact object_within (by omega) (aggregate_metered hnext link)
      (aggregateEntry_within (side_metered hnext))
  · refine metered_eq_ite schema (.side element) hpath (fun _ _ => rfl)
      (fun budget hbudget => ?_) value
    have hnext : budget + (depth + 1) = limit + 1 := by omega
    exact object_within (by omega) (side_metered hnext s element) (sideEntry_within s element)

/-- A whole filter is read with all of the budget. -/
theorem read_eq_metered (schema : Schema) (limit : Nat) {path : KeyPath}
    (hpath : path.HasDepth 0) (value : Json) :
    (∀ element, Filter.read schema limit element path value =
      meteredFilter schema limit element path value) ∧
    ∀ link, ConnectionFilter.read schema limit link path value =
      meteredConnection schema limit link path value := by
  have hleft : limit + 1 - path.depth = limit + 1 := by rw [hpath.depth_eq, Nat.sub_zero]
  constructor
  · intro element
    rw [Filter.read, meteredFilter, metered, hleft]
  · intro link
    rw [ConnectionFilter.read, meteredConnection, metered, hleft]

end Checks

end FilterReader

/-- What becomes of the values at a place depends on a limit only in that it may be exceeded. -/
structure RespectsLimit {α : Type} (schema : Schema) (place : Place)
    (outcome : Nat → Json → FilterResult α) : Prop where
  /-- What succeeds under a limit succeeds in the same way under a higher one. -/
  monotone : ∀ {limit limit' : Nat} {value : Json} {result : α}, limit ≤ limit' →
    outcome limit value = .ok result → outcome limit' value = .ok result
  /-- What fails only under the lower of two limits is one key too deep for it. -/
  exceeds : ∀ {limit limit' : Nat} {value : Json} {result : α} {error : FilterError},
    limit ≤ limit' → outcome limit' value = .ok result → outcome limit value = .error error →
    ∃ path : KeyPath, error = .tooDeep path limit ∧ path.depth = limit + 1
  /-- Filters below the limit are not looked at. -/
  ignores : ∀ {limit : Nat} {value value' : Json},
    Json.SameWithin schema limit 0 place value value' →
    outcome limit value = outcome limit value'

namespace RespectsLimit

variable {α β : Type} {schema : Schema} {place : Place}

/-- Readers that are compared under all pairs of limits respect the limit. -/
theorem of_readsWithin {read : Nat → KeyPath → Json → FilterResult α} {path : KeyPath}
    (hpath : path.HasDepth 0)
    (h : ∀ {limit limit'}, limit ≤ limit' →
      FilterReader.ReadsWithin schema limit limit' place 0 (read limit) (read limit')) :
    RespectsLimit schema place fun limit value => read limit path value where
  monotone {_ _ value _} hle hresult := by
    obtain heq | ⟨-, place, heq, -⟩ := h hle path hpath value value (.same value)
    · exact heq ▸ hresult
    · simp [hresult] at heq
  exceeds {_ _ value _ _} hle hresult herror := by
    obtain heq | ⟨-, place, heq, hdepth⟩ := h hle path hpath value value (.same value)
    · simp [hresult, herror] at heq
    · exact ⟨place, Except.error.inj (herror.symm.trans heq), hdepth⟩
  ignores hvalue := (h (Nat.le_refl _) path hpath _ _ hvalue).eq_of_same

/-- What is made of an outcome respects the limit as the outcome does. -/
theorem map {outcome : Nat → Json → FilterResult α} (h : RespectsLimit schema place outcome)
    (f : α → β) : RespectsLimit schema place fun limit value => (outcome limit value).map f where
  monotone {limit limit' value result} hle hresult := by
    cases hfound : outcome limit value with
    | error error => simp [hfound, Except.map] at hresult
    | ok found =>
      rw [h.monotone hle hfound]
      rwa [hfound] at hresult
  exceeds {limit limit' value result error} hle hresult herror := by
    cases hfound : outcome limit' value with
    | error error => simp [hfound, Except.map] at hresult
    | ok found =>
      cases hfailed : outcome limit value with
      | ok other => simp [hfailed, Except.map] at herror
      | error other =>
        rw [hfailed] at herror
        exact Except.error.inj herror ▸ h.exceeds hle hfound hfailed
  ignores hvalue := congrArg _ (h.ignores hvalue)

end RespectsLimit

/-- Reading a filter respects the limit. -/
theorem respectsLimit_filter (schema : Schema) (element : Element) {path : KeyPath}
    (hpath : path.HasDepth 0) : RespectsLimit schema (.element element)
      fun limit value => Filter.read schema limit element path value := by
  refine .of_readsWithin hpath fun hle => ?_
  have hreads := FilterReader.filter_and_connection_within schema hle (Nat.add_zero _)
    (Nat.add_zero _)
  exact hreads.1 element

/-- Reading a filter on a connection respects the limit. -/
theorem respectsLimit_connection (schema : Schema) (link : Link) {path : KeyPath}
    (hpath : path.HasDepth 0) : RespectsLimit schema (.connection link)
      fun limit value => ConnectionFilter.read schema limit link path value := by
  refine .of_readsWithin hpath fun hle => ?_
  have hreads := FilterReader.filter_and_connection_within schema hle (Nat.add_zero _)
    (Nat.add_zero _)
  exact hreads.2 link

/-- The print of a filter is made from the filter that is read, whatever the limit. -/
theorem renderedWhere_eq_map (schema : Schema) (limit : Nat) (element : Element)
    (target : Variable) (next : Nat) (options : RenderOptions) (value : Json) :
    renderedWhere schema limit element target next options value =
      (Filter.read schema limit element .root value).map fun f =>
        ((f.predicate target).run next).1.map fun predicate => predicate.build options := by
  rw [renderedWhere, wherePredicate]
  cases Filter.read schema limit element .root value <;> rfl

/-- The limit of depth is exact. It is respected by the print of a filter, and also by the
conditions that filters and filters on connections at a location are compiled to. -/
theorem filters_respect_limit (schema : Schema) :
    (∀ (element : Element) (target : Variable) (next : Nat) (options : RenderOptions),
      RespectsLimit schema (.element element) fun limit value =>
        renderedWhere schema limit element target next options value) ∧
    (∀ (element : Element) (location : String) (target : Variable) (next : Nat),
      RespectsLimit schema (.element element) fun limit value =>
        (Filter.read schema limit element (.located location) value).map fun f =>
          (f.predicate target).run next) ∧
    ∀ (link : Link) (location : String) (related edge : Variable) (next : Nat),
      RespectsLimit schema (.connection link) fun limit value =>
        (ConnectionFilter.read schema limit link (.located location) value).map fun f =>
          (f.predicate related edge).run next := by
  refine ⟨fun element target next options => ?_, fun element location target next => ?_,
    fun link location related edge next => ?_⟩
  · simp only [renderedWhere_eq_map]
    exact (respectsLimit_filter schema element KeyPath.hasDepth_root).map _
  · exact (respectsLimit_filter schema element (KeyPath.hasDepth_located location)).map _
  · exact (respectsLimit_connection schema link (KeyPath.hasDepth_located location)).map _

/-- A river with the rivers that it flows into. -/
def riverNode : Node where
  name := "River"
  labels := ["River"]
  fields :=
    [⟨"name", none, .scalar ⟨.string, false, none⟩⟩,
      ⟨"into", none, .relationship ⟨"FLOWS_INTO", .outgoing, "River", true, []⟩⟩]

/-- A filter on the rivers that a river flows into, in a list. It is two keys deep. -/
def riverFilter (inner : List (String × Json)) : Json :=
  .object [("OR", .array [.object [("into", .object inner)]])]

/-- What a filter on a river is printed as under a limit. -/
def renderedRiver (limit : Nat) (value : Json) :
    FilterResult (Option (Except BuildError (Option Query))) :=
  renderedWhere ⟨[riverNode]⟩ limit riverNode.element (.namedNode 0 "this" []) 1 {} value

/-- A filter on rivers that needs two levels: it is read alike under a limit of two and of seven.
Under a limit of one it is refused, and what stands below does not matter. -/
theorem riverFilter_respects_limit :
    (∃ result, renderedRiver 2 (riverFilter [("name", .string "A")]) = .ok result ∧
      renderedRiver 7 (riverFilter [("name", .string "A")]) = .ok result) ∧
    (∃ path : KeyPath, renderedRiver 1 (riverFilter [("name", .string "A")]) =
      .error (.tooDeep path 1) ∧ path.depth = 2) ∧
    renderedRiver 1 (riverFilter [("name", .string "A")]) =
      renderedRiver 1 (riverFilter [("nothing", .null)]) := by
  obtain ⟨hrendered, -⟩ := filters_respect_limit ⟨[riverNode]⟩
  have h := hrendered riverNode.element (.namedNode 0 "this" []) 1 {}
  obtain ⟨result, hresult⟩ : ∃ result,
      renderedRiver 2 (riverFilter [("name", .string "A")]) = .ok result := ⟨_, rfl⟩
  obtain ⟨error, herror⟩ : ∃ error,
      renderedRiver 1 (riverFilter [("name", .string "A")]) = .error error := ⟨_, rfl⟩
  obtain ⟨path, rfl, hdepth⟩ := h.exceeds (show 1 ≤ 2 by decide) hresult herror
  refine ⟨⟨result, hresult, h.monotone (show 2 ≤ 7 by decide) hresult⟩,
    ⟨path, herror, hdepth⟩, h.ignores ?_⟩
  exact .object (.junction rfl (.cons (.object (.nested rfl rfl
    (.replaced (by decide) _ _) .nil)) .nil) .nil)

end GraphRead
