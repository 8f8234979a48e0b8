import GraphRead.Json.Part
import GraphRead.Read.Request
import Mathlib.Data.List.Forall2

/-!
# Texts are read as their values

Requests are read from JSON values and, part by part, from JSON texts. A part of a text
has a value if everything in it stands for one and if it is not nested too deeply. This
file proves that such a part is read as its value: each way of looking at a document
gives the same for both, or gives parts that have the values on the other side, and so
the readers of requests give the same result. It also proves that the text of a value
has this value wherever there is room for its depth.
-/

namespace GraphRead

open Document FreeDocument

namespace Json

/-- The part of a text stands for the value. -/
def Part.Has (part : Part) (value : Json) : Prop := part.value? = some value

/-- The entries have the same key, and the part in the first has the value in the second. -/
structure Part.HasEntry (entry : String × Part) (entry' : String × Json) : Prop where
  key : entry.1 = entry'.1
  value : entry.2.Has entry'.2

/-- Where a key is looked up, nothing is found on both sides, or a part with the value that is
found. -/
def Part.HasFields (field : String → Option Part) (field' : String → Option Json) : Prop :=
  ∀ key, Option.Rel Part.Has (field key) (field' key)

/-! ### Parts with values -/

section Values

variable {room : Nat}

/-- The values of items belong to them one by one. -/
theorem Source.has_of_values {items : List Source} {values : List Json}
    (h : Source.values? room items = some values) :
    List.Forall₂ Part.Has (items.map (Part.mk · room)) values := by
  induction items generalizing values with
  | nil =>
    obtain rfl : [] = values := Option.some.inj h
    exact .nil
  | cons item items ih =>
    simp only [Source.values?, Option.bind_eq_bind, Option.bind_eq_some_iff, Option.pure_def,
      Option.some.injEq] at h
    obtain ⟨value, hvalue, rest, hrest, rfl⟩ := h
    exact .cons hvalue (ih hrest)

/-- The values of entries belong to them one by one, under the same keys. -/
theorem Source.has_of_entryValues {entries : List (Option String × Source)}
    {values : List (String × Json)} (h : Source.entryValues? room entries = some values) :
    ∃ parts, entries.mapM (fun entry => entry.1.map fun key => (key, Part.mk entry.2 room)) =
      some parts ∧ List.Forall₂ Part.HasEntry parts values := by
  induction entries generalizing values with
  | nil =>
    obtain rfl : [] = values := Option.some.inj h
    exact ⟨[], rfl, .nil⟩
  | cons entry entries ih =>
    obtain ⟨key?, source⟩ := entry
    simp only [Source.entryValues?, Option.bind_eq_bind, Option.bind_eq_some_iff, Option.pure_def,
      Option.some.injEq] at h
    obtain ⟨key, rfl, value, hvalue, rest, hrest, rfl⟩ := h
    obtain ⟨parts, hparts, hhas⟩ := ih hrest
    refine ⟨(key, ⟨source, room⟩) :: parts, ?_, .cons ⟨rfl, hvalue⟩ hhas⟩
    simp [hparts]

/-- How a part with a value looks: it is open if it is an array or an object, and then what is in
it has the values that are in the value. -/
inductive Part.Shape : Part → Json → Prop where
  | object {sources : List (Option String × Source)} {room : Nat} {parts : List (String × Part)}
    {entries : List (String × Json)}
    (hparts : Part.entries? ⟨.object sources, room⟩ = some parts)
    (hhas : List.Forall₂ Part.HasEntry parts entries) :
    Part.Shape ⟨.object sources, room⟩ (.object entries)
  | array {items : List Source} {room : Nat} {parts : List Part} {values : List Json}
    (hparts : Part.items? ⟨.array items, room⟩ = some parts)
    (hhas : List.Forall₂ Part.Has parts values) : Part.Shape ⟨.array items, room⟩ (.array values)
  | null {room : Nat} : Part.Shape ⟨.null, room⟩ .null
  | bool {room : Nat} (flag : Bool) : Part.Shape ⟨.bool flag, room⟩ (.bool flag)
  | number {room : Nat} (number : Number) :
    Part.Shape ⟨.number (some number), room⟩ (.number number)
  | string {room : Nat} (text : String) : Part.Shape ⟨.string (some text), room⟩ (.string text)

/-- A part that has a value looks like it. -/
theorem Part.Has.shape {part : Part} {value : Json} (h : part.Has value) :
    Part.Shape part value := by
  obtain ⟨source, room⟩ := part
  cases source with
  | null =>
    obtain rfl : Json.null = value := Option.some.inj h
    exact .null
  | bool flag =>
    obtain rfl : Json.bool flag = value := Option.some.inj h
    exact .bool flag
  | number number? =>
    obtain ⟨number, rfl, rfl⟩ := Option.map_eq_some_iff.mp h
    exact .number number
  | string text? =>
    obtain ⟨text, rfl, rfl⟩ := Option.map_eq_some_iff.mp h
    exact .string text
  | array items =>
    cases room with
    | zero => cases h
    | succ room =>
      obtain ⟨values, hvalues, rfl⟩ := Option.map_eq_some_iff.mp h
      exact .array rfl (Source.has_of_values hvalues)
  | object sources =>
    cases room with
    | zero => cases h
    | succ room =>
      obtain ⟨entries, hentries, rfl⟩ := Option.map_eq_some_iff.mp h
      obtain ⟨parts, hparts, hhas⟩ := Source.has_of_entryValues hentries
      exact .object hparts hhas

mutual
/-- A text that has a value is as deep as the value. -/
theorem Source.depth_of_value {room : Nat} {source : Source} {value : Json}
    (h : source.value? room = some value) : source.depth = value.depth := by
  match room, source with
  | _, .null => cases h; rfl
  | _, .bool _ => cases h; rfl
  | _, .number _ =>
    obtain ⟨number, -, rfl⟩ := Option.map_eq_some_iff.mp h
    rfl
  | _, .string _ =>
    obtain ⟨text, -, rfl⟩ := Option.map_eq_some_iff.mp h
    rfl
  | 0, .array _ => cases h
  | 0, .object _ => cases h
  | room + 1, .array items =>
    obtain ⟨values, hvalues, rfl⟩ := Option.map_eq_some_iff.mp h
    rw [Source.depth, Json.depth, Source.depth_of_values hvalues]
  | room + 1, .object entries =>
    obtain ⟨values, hvalues, rfl⟩ := Option.map_eq_some_iff.mp h
    rw [Source.depth, Json.depth, Source.depth_of_entryValues hvalues]
termination_by structural source

/-- Items that have values are as deep as these. -/
theorem Source.depth_of_values {room : Nat} {items : List Source} {values : List Json}
    (h : Source.values? room items = some values) :
    Source.depthItems items = Json.depthItems values := by
  match items with
  | [] =>
    obtain rfl : [] = values := Option.some.inj h
    rfl
  | item :: items =>
    simp only [Source.values?, Option.bind_eq_bind, Option.bind_eq_some_iff, Option.pure_def,
      Option.some.injEq] at h
    obtain ⟨value, hvalue, rest, hrest, rfl⟩ := h
    rw [Source.depthItems, Json.depthItems, Source.depth_of_value hvalue,
      Source.depth_of_values hrest]
termination_by structural items

/-- Entries that have values are as deep as these. -/
theorem Source.depth_of_entryValues {room : Nat} {entries : List (Option String × Source)}
    {values : List (String × Json)} (h : Source.entryValues? room entries = some values) :
    Source.depthEntries entries = Json.depthEntries values := by
  match entries with
  | [] =>
    obtain rfl : [] = values := Option.some.inj h
    rfl
  | (key?, source) :: entries =>
    simp only [Source.entryValues?, Option.bind_eq_bind, Option.bind_eq_some_iff, Option.pure_def,
      Option.some.injEq] at h
    obtain ⟨key, rfl, value, hvalue, rest, hrest, rfl⟩ := h
    rw [Source.depthEntries, Json.depthEntries, Source.depth_of_value hvalue,
      Source.depth_of_entryValues hrest]
termination_by structural entries
end

end Values

/-! ### Ways of looking at a part -/

section Looking

variable {parts : List (String × Part)} {entries : List (String × Json)}

/-- Looking up a key among entries finds a part that has the value. -/
theorem Part.rel_lookup (h : List.Forall₂ Part.HasEntry parts entries) :
    Part.HasFields (fun key => parts.lookup key) (fun key => entries.lookup key) := by
  intro key
  induction h with
  | nil => exact .none
  | @cons entry entry' parts entries hentry _ ih =>
    obtain ⟨found, part⟩ := entry
    obtain ⟨found', value⟩ := entry'
    obtain rfl : found = found' := hentry.key
    by_cases hkey : key = found
    · subst hkey
      simpa using hentry.value
    · have hne : (key == found) = false := beq_eq_false_iff_ne.mpr hkey
      simpa only [List.lookup_cons, hne] using ih

/-- Entries with the same keys are refused for the same repeated ones. -/
theorem Part.rel_keyed (h : List.Forall₂ Part.HasEntry parts entries) (known : List String) :
    Option.Rel Part.HasFields (keyed known parts) (keyed known entries) := by
  have hcount (key : String) :
      parts.countP (fun entry => entry.1 = key) = entries.countP fun entry => entry.1 = key := by
    induction h with
    | nil => rfl
    | cons hentry _ ih => rw [List.countP_cons, List.countP_cons, ih, hentry.key]
  have hknown : (known.all fun key => parts.countP (fun entry => entry.1 = key) ≤ 1) =
      known.all fun key => entries.countP (fun entry => entry.1 = key) ≤ 1 := by
    simp only [hcount]
  unfold keyed
  rw [hknown]
  split
  · exact .some (Part.rel_lookup h)
  · exact .none

/-- Items belong to keys by their position on both sides. -/
theorem Part.rel_positional {items : List Part} {values : List Json}
    (h : List.Forall₂ Part.Has items values) (known : List String) :
    Option.Rel Part.HasFields (positional known items) (positional known values) := by
  have hzip : List.Forall₂ Part.HasEntry (known.zip items) (known.zip values) := by
    induction h generalizing known with
    | nil => simp
    | cons hitem _ ih =>
      cases known with
      | nil => exact .nil
      | cons key known => exact .cons ⟨rfl, hitem⟩ (ih known)
  unfold positional
  rw [h.length_eq]
  split
  · exact .some (Part.rel_lookup hzip)
  · exact .none

variable {part : Part} {value : Json}

/-- A part is a record exactly if its value is one, with the same fields. -/
theorem Part.Has.record (h : part.Has value) (known : List String) :
    Option.Rel Part.HasFields (record? known part) (record? known value) := by
  cases h.shape with
  | @object sources room parts entries hparts hhas =>
    change Option.Rel Part.HasFields ((Part.entries? ⟨.object sources, room⟩).bind (keyed known)) _
    rw [hparts]
    exact Part.rel_keyed hhas known
  | @array items room parts values hparts hhas =>
    change Option.Rel Part.HasFields ((Part.items? ⟨.array items, room⟩).bind (positional known)) _
    rw [hparts]
    exact Part.rel_positional hhas known
  | _ => exact .none

/-- A part with a value has values under all keys, so it is an open record if the value is one. -/
theorem Part.Has.openRecord (h : part.Has value) (known : List String) :
    Option.Rel Part.HasFields (openRecord? known part) (openRecord? known value) := by
  cases h.shape with
  | @object sources room parts entries hparts hhas =>
    -- Unknown fields are skipped, but their values have to be well formed, as they are here.
    have hall : (parts.all fun entry => entry.2.value?.isSome) = true := by
      refine List.all_eq_true.mpr fun entry hentry => ?_
      obtain ⟨index, hlt, rfl⟩ := List.mem_iff_getElem.mp hentry
      have hvalue := (List.Forall₂.get hhas hlt (hhas.length_eq ▸ hlt)).value
      exact Option.isSome_iff_exists.mpr ⟨_, hvalue⟩
    have hopen : openRecord? known (⟨.object sources, room⟩ : Part) = keyed known parts := by
      change (Part.entries? ⟨.object sources, room⟩).bind (fun parts =>
        if parts.all fun entry => entry.2.value?.isSome then keyed known parts else none) = _
      rw [hparts]
      exact if_pos hall
    rw [hopen]
    exact Part.rel_keyed hhas known
  | _ => exact .none

/-- A part is a list exactly if its value is one, of as many items. -/
theorem Part.Has.list (h : part.Has value) :
    Option.Rel (List.Forall₂ Part.Has) (list? part) (list? value) := by
  cases h.shape with
  | @array items room parts values hparts hhas =>
    change Option.Rel _ (Part.items? ⟨.array items, room⟩) (some values)
    rw [hparts]
    exact .some hhas
  | _ => exact .none

/-- A part is the text that its value is. -/
theorem Part.Has.text (h : part.Has value) : text? part = text? value := by
  cases h.shape <;> rfl

/-- A part is the count that its value is. -/
theorem Part.Has.count (h : part.Has value) :
    Document.count? part = Document.count? value := by
  cases h.shape <;> rfl

/-- A part is absent exactly if its value is. -/
theorem Part.Has.isAbsent (h : part.Has value) :
    Document.isAbsent part = Document.isAbsent value := by
  cases h.shape <;> rfl

/-- A part is as deep as its value. -/
theorem Part.Has.depth (h : part.Has value) : Document.depth part = Document.depth value :=
  Source.depth_of_value h

/-- A part is the name of an enumeration that its value is. An object is one if it has a single
entry with nothing under its key. -/
theorem Part.Has.name (h : part.Has value) : Document.name? part = Document.name? value := by
  obtain ⟨source, room⟩ := part
  match room, source with
  | _, .null | _, .bool _ | _, .number _ | _, .string _ | _, .array _ =>
    cases h.shape
    rfl
  | 0, .object _ => cases h
  | room + 1, .object sources =>
    obtain ⟨entries, hentries, rfl⟩ := Option.map_eq_some_iff.mp h
    match sources with
    | [] =>
      obtain rfl : [] = entries := Option.some.inj hentries
      rfl
    | [(key?, source)] =>
      simp only [Source.entryValues?, Option.bind_eq_bind, Option.bind_eq_some_iff,
        Option.pure_def, Option.some.injEq] at hentries
      obtain ⟨key, rfl, inner, hinner, -, rfl, rfl⟩ := hentries
      have hhas : Part.Has ⟨source, room⟩ inner := hinner
      cases hhas.shape <;> rfl
    | first :: second :: rest =>
      simp only [Source.entryValues?, Option.bind_eq_bind, Option.bind_eq_some_iff,
        Option.pure_def, Option.some.injEq] at hentries
      obtain ⟨_, -, _, -, _, ⟨_, -, _, -, _, -, rfl⟩, rfl⟩ := hentries
      have hpart : Part.name? ⟨.object (first :: second :: rest), room + 1⟩ = none := by
        simp [Part.name?]
      exact hpart.trans (by simp [Document.name?, Json.name?])

end Looking

/-! ### The text of a value -/

mutual
/-- The text of a value, taken apart. -/
def source : Json → Source
  | .null => .null
  | .bool flag => .bool flag
  | .number value => .number (some value)
  | .string text => .string (some text)
  | .array items => .array (sources items)
  | .object entries => .object (entrySources entries)
termination_by structural value => value

/-- The texts of items. -/
def sources : List Json → List Source
  | [] => []
  | item :: items => item.source :: sources items
termination_by structural items => items

/-- The texts of entries. -/
def entrySources : List (String × Json) → List (Option String × Source)
  | [] => []
  | (key, value) :: rest => (some key, value.source) :: entrySources rest
termination_by structural rest => rest
end

mutual
/-- The text of a value has this value if there is room for its depth. -/
theorem value?_source (value : Json) {room : Nat} (h : value.depth ≤ room) :
    value.source.value? room = some value := by
  match value, room with
  | .null, _ | .bool _, _ | .number _, _ | .string _, _ => rfl
  | .array _, 0 | .object _, 0 => cases h
  | .array items, room + 1 =>
    rw [depth] at h
    rw [source, Source.value?, values?_sources items (Nat.le_of_succ_le_succ h), Option.map_some]
  | .object entries, room + 1 =>
    rw [depth] at h
    rw [source, Source.value?, entryValues?_entrySources entries (Nat.le_of_succ_le_succ h),
      Option.map_some]
termination_by structural value

/-- The texts of items have these values if there is room for their depth. -/
theorem values?_sources (items : List Json) {room : Nat} (h : depthItems items ≤ room) :
    Source.values? room (sources items) = some items := by
  match items with
  | [] => rfl
  | item :: items =>
    rw [depthItems, Nat.max_le] at h
    rw [sources, Source.values?, value?_source item h.1, values?_sources items h.2]
    rfl
termination_by structural items

/-- The texts of entries have these values if there is room for their depth. -/
theorem entryValues?_entrySources (entries : List (String × Json)) {room : Nat}
    (h : depthEntries entries ≤ room) :
    Source.entryValues? room (entrySources entries) = some entries := by
  match entries with
  | [] => rfl
  | (key, value) :: rest =>
    rw [depthEntries, Nat.max_le] at h
    rw [entrySources, Source.entryValues?, value?_source value h.1,
      entryValues?_entrySources rest h.2]
    rfl
termination_by structural entries
end

end Json

/-! ### Readers -/

/-- What is done with related results is the same if it is the same for each pair of them. -/
theorem bind_eq_of_rel {α α' β : Type} {related : α → α' → Prop} {result : Option α}
    {result' : Option α'} (h : Option.Rel related result result') {next : α → Option β}
    {next' : α' → Option β} (hnext : ∀ a a', related a a' → next a = next' a') :
    result.bind next = result'.bind next' := by
  cases h with
  | none => rfl
  | some h => exact hnext _ _ h

section Fields

variable {β : Type} {field : Option Json.Part} {field' : Option Json} {read : Json.Part → Option β}
  {read' : Json → Option β}
  (hread : ∀ {part value}, Json.Part.Has part value → read part = read' value)

include hread

/-- A field that has to be there is read as its value. -/
theorem required_of_has (h : Option.Rel Json.Part.Has field field') :
    required read field = required read' field' := by
  refine bind_eq_of_rel h fun value part hhas => ?_
  exact hread hhas

/-- A field with a default is read as its value. -/
theorem defaulted_of_has (h : Option.Rel Json.Part.Has field field') (default : β) :
    defaulted read default field = defaulted read' default field' := by
  cases h with
  | none => rfl
  | some h => exact hread h

/-- A field that may be missing or absent is read as its value. -/
theorem optional_of_has (h : Option.Rel Json.Part.Has field field') :
    Document.optional read field = Document.optional read' field' := by
  cases h with
  | none => rfl
  | some h => rw [Document.optional, Document.optional, h.isAbsent, hread h]

/-- A list is read as its value if its items are. -/
theorem listOf_of_has {part : Json.Part} {value : Json} (h : part.Has value) :
    listOf read part = listOf read' value := by
  refine bind_eq_of_rel h.list fun parts values hitems => ?_
  induction hitems with
  | nil => rfl
  | cons hitem _ ih => rw [List.mapM_cons, List.mapM_cons, hread hitem, ih]

end Fields

section Requests

variable {part : Json.Part} {value : Json}

/-- A free-form value is read as the value of the part. -/
theorem freeForm?_of_has (h : part.Has value) : freeForm? part = freeForm? value := by
  have hvalue : FreeDocument.value? part = some value := h
  rw [freeForm?, hvalue]
  rfl

/-- A count of rows is read as its value. -/
theorem rows?_of_has (h : part.Has value) : rows? part = rows? value := by
  rw [rows?, h.count]
  rfl

/-- A direction is read as its value. -/
theorem SortDirection.read?_of_has (h : part.Has value) :
    SortDirection.read? part = SortDirection.read? value := by
  rw [SortDirection.read?, h.name]
  rfl

/-- A side is read as its value. -/
theorem Side.read?_of_has (h : part.Has value) : Side.read? part = Side.read? value := by
  rw [Side.read?, h.name]
  rfl

/-- A sort is read as its value. -/
theorem SortKey.read?_of_has (h : part.Has value) :
    SortKey.read? part = SortKey.read? value := by
  refine bind_eq_of_rel (h.record _) fun field field' hfield => ?_
  rw [required_of_has (fun h => h.text) (hfield "field"),
    defaulted_of_has SortDirection.read?_of_has (hfield "direction")]

/-- A sort of a connection is read as its value. -/
theorem ConnectionSortKey.read?_of_has (h : part.Has value) :
    ConnectionSortKey.read? part = ConnectionSortKey.read? value := by
  refine bind_eq_of_rel (h.record _) fun field field' hfield => ?_
  rw [required_of_has (fun h => h.text) (hfield "field"),
    defaulted_of_has Side.read?_of_has (hfield "on"),
    defaulted_of_has SortDirection.read?_of_has (hfield "direction")]

section Selections

variable {read : Json.Part → Option Selection} {read' : Json → Option Selection}
  (hread : ∀ {part value}, Json.Part.Has part value → read part = read' value)
  {field : String → Option Json.Part} {field' : String → Option Json}

include hread

/-- A request is read from fields as from the values of these. -/
theorem Request.ofFields_of_has (hfield : Json.Part.HasFields field field') :
    Request.ofFields read field = Request.ofFields read' field' := by
  unfold Request.ofFields
  rw [optional_of_has freeForm?_of_has (hfield "where"),
    defaulted_of_has (listOf_of_has SortKey.read?_of_has) (hfield "sort"),
    optional_of_has rows?_of_has (hfield "offset"), optional_of_has rows?_of_has (hfield "limit"),
    defaulted_of_has hread (hfield "selection")]

/-- A selection of related nodes is read as its value. -/
theorem RelationshipSelection.readWith_of_has (h : part.Has value) :
    RelationshipSelection.readWith read part = RelationshipSelection.readWith read' value := by
  refine bind_eq_of_rel (h.openRecord _) fun field field' hfield => ?_
  rw [required_of_has (fun h => h.text) (hfield "field"),
    optional_of_has (fun h => h.text) (hfield "alias"), Request.ofFields_of_has hread hfield]

/-- A selection of a connection is read as its value. -/
theorem ConnectionSelection.readWith_of_has (h : part.Has value) :
    ConnectionSelection.readWith read part = ConnectionSelection.readWith read' value := by
  refine bind_eq_of_rel (h.record _) fun field field' hfield => ?_
  rw [required_of_has (fun h => h.text) (hfield "field"),
    optional_of_has (fun h => h.text) (hfield "alias"),
    optional_of_has freeForm?_of_has (hfield "where"),
    defaulted_of_has (listOf_of_has ConnectionSortKey.read?_of_has) (hfield "sort"),
    defaulted_of_has (listOf_of_has fun h => h.text) (hfield "edge_fields"),
    defaulted_of_has hread (hfield "node")]

end Selections

/-- A selection is read as its value, within any bound. -/
theorem Selection.readWithin_of_has (bound : Nat) (h : part.Has value) :
    Selection.readWithin bound part = Selection.readWithin bound value := by
  induction bound generalizing part value with
  | zero => rfl
  | succ bound ih =>
    refine bind_eq_of_rel (h.record _) fun field field' hfield => ?_
    rw [defaulted_of_has (listOf_of_has fun h => h.text) (hfield "fields"),
      defaulted_of_has (listOf_of_has (RelationshipSelection.readWith_of_has ih))
        (hfield "relationships"),
      defaulted_of_has (listOf_of_has (ConnectionSelection.readWith_of_has ih))
        (hfield "connections")]

/-- A request is read from a text as from its value. -/
theorem Request.read?_of_has (h : part.Has value) : Request.read? part = Request.read? value := by
  refine bind_eq_of_rel (h.record _) fun field field' hfield => ?_
  refine Request.ofFields_of_has (fun hselection => ?_) hfield
  rw [Selection.read?, hselection.depth]
  exact Selection.readWithin_of_has _ hselection

end Requests

end GraphRead
