import GraphRead.Proofs.Json.DistinctKeys
import GraphRead.Proofs.Read.Texts

/-!
# Requests are read back as they were written

A request is written with every field that it has, except for a filter that is
missing, and the request of related nodes stands beside the name of their field. When
it is read, a field may be missing, null or left at its default. This file proves that
both agree at every depth: what is written is read back as the same request, whatever
its sorts, counts, keys and selections are, exactly if none of its filters is null or
repeats a key. The filters of a request that was itself read, from a value or from a
text, are all of this kind.

What was left at its default is written out, which may be nested more deeply than what
was read. Values are read at every depth, but texts only up to a limit: a request is
read back from the text of its value if this is not nested more deeply.
-/

namespace GraphRead

open Document FreeDocument

/-- A filter that can be told from a missing one, with no key repeated in it. -/
structure Json.Settled (filter : Json) : Prop where
  notNull : filter ≠ .null
  keysDistinct : filter.KeysDistinct

mutual
/-- The filters in a request, from the outside in. -/
def Request.filters : Request → List Json
  | ⟨filter, _, _, _, selection⟩ => filter.toList ++ selection.filters
termination_by structural request => request

/-- The filters in a selection. -/
def Selection.filters : Selection → List Json
  | ⟨_, relationships, connections⟩ =>
    RelationshipSelection.filtersOfAll relationships ++ ConnectionSelection.filtersOfAll connections
termination_by structural selection => selection

/-- The filters in selections of related nodes. -/
def RelationshipSelection.filtersOfAll : List RelationshipSelection → List Json
  | [] => []
  | ⟨_, _, request⟩ :: rest => request.filters ++ RelationshipSelection.filtersOfAll rest
termination_by structural selections => selections

/-- The filters in selections of connections. -/
def ConnectionSelection.filtersOfAll : List ConnectionSelection → List Json
  | [] => []
  | ⟨_, _, filter, _, _, node⟩ :: rest =>
    filter.toList ++ node.filters ++ ConnectionSelection.filtersOfAll rest
termination_by structural selections => selections
end

/-- All filters in the selection are settled. -/
def Selection.Settled (selection : Selection) : Prop :=
  ∀ filter ∈ selection.filters, filter.Settled

/-- All filters in the request are settled. -/
def Request.Settled (request : Request) : Prop := ∀ filter ∈ request.filters, filter.Settled

/-- The filter of the connection and all filters in the selection of its node are settled. -/
def ConnectionSelection.Settled (selection : ConnectionSelection) : Prop :=
  (∀ filter ∈ selection.filter, filter.Settled) ∧ selection.node.Settled

/-- The filters in selections of related nodes are those in each request. -/
theorem RelationshipSelection.mem_filtersOfAll {selections : List RelationshipSelection}
    {filter : Json} :
    filter ∈ filtersOfAll selections ↔ ∃ s ∈ selections, filter ∈ s.request.filters := by
  induction selections with
  | nil => simp [filtersOfAll]
  | cons s rest ih =>
    cases s
    simp [filtersOfAll, ih]

/-- The filters in selections of connections are those of each connection and those in its node. -/
theorem ConnectionSelection.mem_filtersOfAll {selections : List ConnectionSelection}
    {filter : Json} :
    filter ∈ filtersOfAll selections ↔
      ∃ s ∈ selections, filter ∈ s.filter ∨ filter ∈ s.node.filters := by
  induction selections with
  | nil => simp [filtersOfAll]
  | cons s rest ih =>
    cases s
    simp [filtersOfAll, ih, or_assoc]

/-- A request is settled if its own filter and its selection are. -/
theorem Request.settled_iff {request : Request} :
    request.Settled ↔
      (∀ filter ∈ request.filter, filter.Settled) ∧ request.selection.Settled := by
  cases request
  simp only [Request.Settled, Request.filters, List.forall_mem_append, Option.mem_toList,
    Option.mem_def, Selection.Settled]

/-- A selection is settled if each of its selections is. -/
theorem Selection.settled_iff {selection : Selection} :
    selection.Settled ↔ (∀ s ∈ selection.relationships, s.request.Settled) ∧
      ∀ s ∈ selection.connections, s.Settled := by
  cases selection
  simp only [Selection.Settled, Selection.filters, List.forall_mem_append, Request.Settled,
    ConnectionSelection.Settled, RelationshipSelection.mem_filtersOfAll,
    ConnectionSelection.mem_filtersOfAll]
  constructor
  · rintro ⟨hrelationships, hconnections⟩
    refine ⟨fun s hs filter hfilter => hrelationships filter ⟨s, hs, hfilter⟩, fun s hs => ?_⟩
    exact ⟨fun filter hfilter => hconnections filter ⟨s, hs, .inl hfilter⟩,
      fun filter hfilter => hconnections filter ⟨s, hs, .inr hfilter⟩⟩
  · rintro ⟨hrelationships, hconnections⟩
    refine ⟨?_, ?_⟩
    · rintro filter ⟨s, hs, hfilter⟩
      exact hrelationships s hs filter hfilter
    · rintro filter ⟨s, hs, hfilter | hfilter⟩
      · exact (hconnections s hs).1 filter hfilter
      · exact (hconnections s hs).2 filter hfilter

/-! ### What is read is settled -/

/-- A format in which only an absent value is null. -/
def FreeDocument.ShowsNull (α : Type) [FreeDocument α] : Prop :=
  ∀ value : α, value? value = some .null → isAbsent value = true

/-- A value that shows null is null, which is absent. -/
theorem Json.showsNull : FreeDocument.ShowsNull Json := by
  intro value hnull
  obtain rfl : value = .null := Option.some.inj hnull
  rfl

/-- A part of a text that shows null is the literal, which is absent. -/
theorem Json.Part.showsNull : FreeDocument.ShowsNull Json.Part := by
  rintro ⟨source, room⟩ hnull
  change source.value? room = some .null at hnull
  cases source with
  | null => rfl
  | bool value => cases hnull
  | number value => cases value <;> cases hnull
  | string value => cases value <;> cases hnull
  | array items => cases room <;> simp [Json.Source.value?] at hnull
  | object entries => cases room <;> simp [Json.Source.value?] at hnull

/-- A result in a list was read from a member. -/
theorem exists_read_of_mem {α β : Type} {read : α → Option β} {items : List α} {results : List β}
    (h : items.mapM read = some results) {result : β} (hmem : result ∈ results) :
    ∃ item, read item = some result := by
  induction items generalizing results with
  | nil =>
    obtain rfl : [] = results := Option.some.inj h
    cases hmem
  | cons item items ih =>
    simp only [List.mapM_cons, Option.bind_eq_bind, Option.bind_eq_some_iff, Option.pure_def,
      Option.some.injEq] at h
    obtain ⟨first, hfirst, others, hothers, rfl⟩ := h
    rcases List.mem_cons.mp hmem with rfl | hmem
    · exact ⟨item, hfirst⟩
    · exact ih hothers hmem

/-- A selection that may be missing is settled, if it is when it is there. The empty one has no
filters. -/
theorem Selection.settled_of_defaulted {α : Type} {read : α → Option Selection}
    (hread : ∀ value s, read value = some s → s.Settled) {value : Option α} {s : Selection}
    (h : defaulted read .empty value = some s) : s.Settled := by
  cases value with
  | none =>
    obtain rfl : Selection.empty = s := Option.some.inj h
    exact List.forall_mem_nil _
  | some value => exact hread value s h

section Reading

variable {α β : Type} [FreeDocument α]

/-- What is in a list that was read was read from something. -/
theorem exists_of_mem_defaulted {read : α → Option β} {field : Option α} {results : List β}
    (h : defaulted (listOf read) [] field = some results) {result : β} (hmem : result ∈ results) :
    ∃ value, read value = some result := by
  cases field with
  | none =>
    obtain rfl : [] = results := Option.some.inj h
    cases hmem
  | some value =>
    obtain ⟨items, -, hitems⟩ := Option.bind_eq_some_iff.mp h
    exact exists_read_of_mem hitems hmem

/-- A filter that was read is settled. -/
theorem settled_of_optional (hnull : ShowsNull α) {field : Option α} {filter : Option Json}
    (h : optional freeForm? field = some filter) : ∀ found ∈ filter, found.Settled := by
  intro found hfound
  obtain rfl : filter = some found := hfound
  cases field with
  | none => cases h
  | some value =>
    cases habsent : isAbsent value with
    | true => simp [Document.optional, habsent] at h
    | false =>
      simp only [Document.optional, habsent, Bool.false_eq_true, if_false, freeForm?,
        Option.map_map, Option.map_eq_some_iff, Function.comp_apply, Option.some.injEq] at h
      obtain ⟨free, hfree, rfl⟩ := h
      refine ⟨fun hmerged => ?_, free.keysDistinct_merged⟩
      rw [Json.merged_eq_null hmerged] at hfree
      simp [hnull value hfree] at habsent

variable {read : α → Option Selection} {field : String → Option α}

/-- A request that is read from fields is settled, if selections are. -/
theorem Request.settled_of_fields (hnull : ShowsNull α)
    (hread : ∀ value s, read value = some s → s.Settled) {request : Request}
    (h : Request.ofFields read field = some request) : request.Settled := by
  simp only [Request.ofFields, Option.bind_eq_bind, Option.bind_eq_some_iff, Option.pure_def,
    Option.some.injEq] at h
  obtain ⟨filter, hfilter, sort, -, offset, -, limit, -, selection, hselection, rfl⟩ := h
  exact Request.settled_iff.mpr
    ⟨settled_of_optional hnull hfilter, Selection.settled_of_defaulted hread hselection⟩

/-- A selection of related nodes that is read is settled, if selections are. -/
theorem RelationshipSelection.settled_of_read (hnull : ShowsNull α)
    (hread : ∀ value s, read value = some s → s.Settled) {value : α} {s : RelationshipSelection}
    (h : RelationshipSelection.readWith read value = some s) : s.request.Settled := by
  simp only [RelationshipSelection.readWith, Option.bind_eq_bind, Option.bind_eq_some_iff,
    Option.pure_def, Option.some.injEq] at h
  obtain ⟨field, -, name, -, key, -, request, hrequest, rfl⟩ := h
  exact Request.settled_of_fields hnull hread hrequest

/-- A selection of a connection that is read is settled, if selections are. -/
theorem ConnectionSelection.settled_of_read (hnull : ShowsNull α)
    (hread : ∀ value s, read value = some s → s.Settled) {value : α} {s : ConnectionSelection}
    (h : ConnectionSelection.readWith read value = some s) : s.Settled := by
  simp only [ConnectionSelection.readWith, Option.bind_eq_bind, Option.bind_eq_some_iff,
    Option.pure_def, Option.some.injEq] at h
  obtain ⟨field, -, name, -, key, -, filter, hfilter, sort, -, edgeFields, -, node, hnode, rfl⟩ := h
  exact ⟨settled_of_optional hnull hfilter, Selection.settled_of_defaulted hread hnode⟩

/-- A selection that was read is settled, however deep it is. -/
theorem Selection.settled_of_readWithin (hnull : ShowsNull α) (bound : Nat) (value : α)
    (s : Selection) (h : Selection.readWithin bound value = some s) : s.Settled := by
  induction bound generalizing value s with
  | zero => cases h
  | succ bound ih =>
    simp only [Selection.readWithin, Option.bind_eq_bind, Option.bind_eq_some_iff, Option.pure_def,
      Option.some.injEq] at h
    obtain ⟨field, -, fields, -, relationships, hrelationships, connections, hconnections, rfl⟩ := h
    refine Selection.settled_iff.mpr ⟨fun s hs => ?_, fun s hs => ?_⟩
    · obtain ⟨value, hvalue⟩ := exists_of_mem_defaulted hrelationships hs
      exact RelationshipSelection.settled_of_read hnull ih hvalue
    · obtain ⟨value, hvalue⟩ := exists_of_mem_defaulted hconnections hs
      exact ConnectionSelection.settled_of_read hnull ih hvalue

/-- A request that was read is settled. -/
theorem Request.settled_of_read (hnull : ShowsNull α) {value : α} {request : Request}
    (h : Request.read? value = some request) : request.Settled := by
  obtain ⟨field, -, hfields⟩ := Option.bind_eq_some_iff.mp h
  exact Request.settled_of_fields hnull
    (fun value s hs => Selection.settled_of_readWithin hnull _ value s hs) hfields

end Reading

/-! ### What is written is read back -/

/-- Entries with different keys can be looked up, whatever keys are known. -/
theorem Document.keyed_of_nodup {α : Type} {entries : List (String × α)}
    (h : (entries.map Prod.fst).Nodup) (known : List String) :
    keyed known entries = some fun key => entries.lookup key := by
  refine if_pos (List.all_eq_true.mpr fun key _ => decide_eq_true ?_)
  have hcount := List.nodup_iff_count_le_one.mp h key
  rw [List.count_eq_countP, List.countP_map] at hcount
  exact hcount

/-- A list is read back from what is written, if each of its members is. -/
theorem listOf_array {β : Type} {read : Json → Option β} {write : β → Json} {items : List β}
    (h : ∀ item ∈ items, read (write item) = some item) :
    listOf read (Json.array (items.map write)) = some items := by
  change (items.map write).mapM read = some items
  induction items with
  | nil => rfl
  | cons item items ih =>
    rw [List.forall_mem_cons] at h
    simp [h.1, ih h.2]

/-- A sort key is read back from what is written. -/
theorem SortKey.read?_toJson (sort : SortKey) : SortKey.read? sort.toJson = some sort := by
  obtain ⟨field, direction⟩ := sort
  cases direction <;> rfl

/-- A sort key of a connection is read back from what is written. -/
theorem ConnectionSortKey.read?_toJson (sort : ConnectionSortKey) :
    ConnectionSortKey.read? sort.toJson = some sort := by
  obtain ⟨side, field, direction⟩ := sort
  cases side <;> cases direction <;> rfl

/-- A list of texts is read back from what is written. -/
theorem listOf_texts (items : List String) : listOf text? (texts items) = some items :=
  listOf_array fun _ _ => rfl

/-- A text that may be missing is read back, since null is no text. -/
theorem optional_optionalText (key : Option String) :
    Document.optional text? (some (optionalText key)) = some key := by
  cases key <;> rfl

/-- A count of 64 bits is read back, however large it is. -/
theorem optional_optionalRows (count : Option UInt64) :
    Document.optional rows? (some (optionalRows count)) = some count := by
  cases count with
  | none => rfl
  | some count =>
    have hcount : Json.count? (.ofNat count.toNat) = some count.toNat :=
      if_pos ⟨Int.natCast_nonneg _, count.toNat_lt⟩
    have hrows : rows? (Json.ofNat count.toNat) = some count := by
      change (Json.count? (.ofNat count.toNat)).map UInt64.ofNat = some count
      rw [hcount, Option.map_some, UInt64.ofNat_toNat]
    exact congrArg (Option.map some) hrows

/-- A settled filter is read back, and so is a missing one. -/
theorem optional_filter {filter : Option Json} (h : ∀ found ∈ filter, found.Settled) :
    Document.optional freeForm? filter = some filter := by
  cases filter with
  | none => rfl
  | some found =>
    obtain ⟨hnull, hkeys⟩ := h found rfl
    have habsent : isAbsent found = false := by
      cases found with
      | null => exact absurd rfl hnull
      | _ => rfl
    have hfree : freeForm? found = some found := congrArg some hkeys.merged_eq
    rw [Document.optional, habsent, hfree]
    rfl

/-- Selections of related nodes are written one by one. -/
theorem RelationshipSelection.toJsons_eq_map (selections : List RelationshipSelection) :
    toJsons selections = selections.map toJson := by
  induction selections with
  | nil => rfl
  | cons s rest ih => rw [toJsons, ih, List.map_cons]

/-- Selections of connections are written one by one. -/
theorem ConnectionSelection.toJsons_eq_map (selections : List ConnectionSelection) :
    toJsons selections = selections.map toJson := by
  induction selections with
  | nil => rfl
  | cons s rest ih => rw [toJsons, ih, List.map_cons]

/-- The keys of a written request are those of requests, perhaps without that of the filter. -/
theorem Request.keys_sublist (request : Request) :
    (request.toEntries.map Prod.fst).Sublist Request.keys := by
  obtain ⟨filter, sort, offset, limit, selection⟩ := request
  cases filter with
  | none => exact List.sublist_cons_self _ _
  | some filter => exact List.Sublist.refl _

/-- What is found under the keys of a written request. A missing filter is left out, while other
things that are missing are written as null. -/
theorem Request.lookup_toEntries (request : Request) :
    request.toEntries.lookup "where" = request.filter ∧
      request.toEntries.lookup "sort" = some (.array (request.sort.map SortKey.toJson)) ∧
      request.toEntries.lookup "offset" = some (optionalRows request.offset) ∧
      request.toEntries.lookup "limit" = some (optionalRows request.limit) ∧
      request.toEntries.lookup "selection" = some request.selection.toJson := by
  obtain ⟨filter, sort, offset, limit, selection⟩ := request
  cases filter <;> exact ⟨rfl, rfl, rfl, rfl, rfl⟩

section Selections

variable {read : Json → Option Selection}

/-- A request is read back from fields that agree with its entries. -/
theorem Request.ofFields_entries {request : Request} (hsettled : request.Settled)
    (hread : read request.selection.toJson = some request.selection) {field : String → Option Json}
    (hfield : ∀ key ∈ Request.keys, field key = request.toEntries.lookup key) :
    Request.ofFields read field = some request := by
  obtain ⟨hwhere, hsort, hoffset, hlimit, hselection⟩ := request.lookup_toEntries
  have hfilter := optional_filter (Request.settled_iff.mp hsettled).1
  have hsorts : listOf SortKey.read? (Json.array (request.sort.map SortKey.toJson)) =
      some request.sort := listOf_array fun sort _ => sort.read?_toJson
  rw [Request.ofFields, hfield "where" (by decide), hfield "sort" (by decide),
    hfield "offset" (by decide), hfield "limit" (by decide), hfield "selection" (by decide)]
  simp only [hwhere, hsort, hoffset, hlimit, hselection, defaulted, hfilter, hsorts,
    optional_optionalRows, hread, Option.bind_eq_bind, Option.bind_some, Option.pure_def]
  cases request
  rfl

/-- A selection of related nodes is read back. The fields of its request stand beside its own. -/
theorem RelationshipSelection.readWith_toJson {s : RelationshipSelection}
    (hsettled : s.request.Settled)
    (hread : read s.request.selection.toJson = some s.request.selection) :
    RelationshipSelection.readWith read s.toJson = some s := by
  obtain ⟨name, key, request⟩ := s
  obtain ⟨field, hrecord, hname, hkey, hfield⟩ : ∃ field,
      openRecord? ("field" :: "alias" :: Request.keys) (toJson ⟨name, key, request⟩) = some field ∧
      field "field" = some (.string name) ∧ field "alias" = some (optionalText key) ∧
      ∀ key ∈ Request.keys, field key = request.toEntries.lookup key := by
    have hkeys : ((("field", Json.string name) :: ("alias", optionalText key)
        :: request.toEntries).map Prod.fst).Nodup :=
      ((request.keys_sublist.cons_cons "alias").cons_cons "field").nodup (by decide)
    refine ⟨_, keyed_of_nodup hkeys _, rfl, rfl, fun key hkey => ?_⟩
    simp only [Request.keys, List.mem_cons, List.not_mem_nil, or_false] at hkey
    rcases hkey with rfl | rfl | rfl | rfl | rfl <;> rfl
  have htext : text? (Json.string name) = some name := rfl
  simp only [RelationshipSelection.readWith, hrecord, hname, hkey, required, htext,
    optional_optionalText, Request.ofFields_entries hsettled hread hfield, Option.bind_eq_bind,
    Option.bind_some, Option.pure_def]

/-- A selection of a connection is read back. -/
theorem ConnectionSelection.readWith_toJson {s : ConnectionSelection} (hsettled : s.Settled)
    (hread : read s.node.toJson = some s.node) :
    ConnectionSelection.readWith read s.toJson = some s := by
  have hfilter := optional_filter hsettled.1
  obtain ⟨name, key, filter, sort, edgeFields, node⟩ := s
  obtain ⟨field, hrecord, hname, hkey, hwhere, hsort, hedge, hnode⟩ : ∃ field,
      record? ["field", "alias", "where", "sort", "edge_fields", "node"]
        (toJson ⟨name, key, filter, sort, edgeFields, node⟩) = some field ∧
      field "field" = some (.string name) ∧ field "alias" = some (optionalText key) ∧
      field "where" = filter ∧
      field "sort" = some (.array (sort.map ConnectionSortKey.toJson)) ∧
      field "edge_fields" = some (texts edgeFields) ∧ field "node" = some node.toJson := by
    cases filter <;>
      exact ⟨_, keyed_of_nodup (by simp [filterEntry]) _, rfl, rfl, rfl, rfl, rfl, rfl⟩
  have htext : text? (Json.string name) = some name := rfl
  have hsorts : listOf ConnectionSortKey.read? (Json.array (sort.map ConnectionSortKey.toJson)) =
      some sort := listOf_array fun sort _ => sort.read?_toJson
  simp only [ConnectionSelection.readWith, hrecord, hname, hkey, hwhere, hsort, hedge, hnode,
    required, htext, optional_optionalText, hfilter, defaulted, hsorts, listOf_texts, hread,
    Option.bind_eq_bind, Option.bind_some, Option.pure_def]

end Selections

/-- How a selection is written. -/
theorem Selection.toJson_eq (fields : List String) (relationships : List RelationshipSelection)
    (connections : List ConnectionSelection) :
    toJson ⟨fields, relationships, connections⟩ = .object
      [("fields", texts fields),
        ("relationships", .array (relationships.map RelationshipSelection.toJson)),
        ("connections", .array (connections.map ConnectionSelection.toJson))] := by
  rw [toJson, RelationshipSelection.toJsons_eq_map, ConnectionSelection.toJsons_eq_map]

/-- What is written for the nodes is less deep than the selection around it. -/
theorem RelationshipSelection.depth_request (s : RelationshipSelection) :
    s.request.selection.toJson.depth < s.toJson.depth := by
  rcases s with ⟨field, key, ⟨filter, sort, offset, limit, inner⟩⟩
  have hentry : ("selection", inner.toJson) ∈ ("field", Json.string field)
      :: ("alias", optionalText key) :: Request.toEntries ⟨filter, sort, offset, limit, inner⟩ := by
    simp [Request.toEntries]
  exact Json.depth_lt_object hentry

/-- What is written for the nodes is less deep than the connection around it. -/
theorem ConnectionSelection.depth_node (s : ConnectionSelection) :
    s.node.toJson.depth < s.toJson.depth := by
  obtain ⟨field, key, filter, sort, edgeFields, node⟩ := s
  have hentry : ("node", node.toJson) ∈ ("field", Json.string field)
      :: ("alias", optionalText key) :: filterEntry filter ++
        [("sort", .array (sort.map ConnectionSortKey.toJson)), ("edge_fields", texts edgeFields),
          ("node", node.toJson)] := by simp
  exact Json.depth_lt_object hentry

/-- What is selected of related nodes is written less deep than the selection around it. -/
theorem Selection.depth_relationship (selection : Selection) {s : RelationshipSelection}
    (hs : s ∈ selection.relationships) :
    s.request.selection.toJson.depth < selection.toJson.depth := by
  obtain ⟨fields, relationships, connections⟩ := selection
  refine Nat.lt_trans s.depth_request ?_
  rw [Selection.toJson_eq]
  exact Json.depth_lt_listed (List.mem_cons_of_mem _ List.mem_cons_self) (List.mem_map_of_mem hs)

/-- What is selected of the node of a connection is written less deep than the selection around
it. -/
theorem Selection.depth_connection (selection : Selection) {s : ConnectionSelection}
    (hs : s ∈ selection.connections) : s.node.toJson.depth < selection.toJson.depth := by
  obtain ⟨fields, relationships, connections⟩ := selection
  refine Nat.lt_trans s.depth_node ?_
  rw [Selection.toJson_eq]
  exact Json.depth_lt_listed
    (List.mem_cons_of_mem _ (List.mem_cons_of_mem _ List.mem_cons_self)) (List.mem_map_of_mem hs)

/-- A selection is read back if it may be nested as deeply as it is written. -/
theorem Selection.readWithin_toJson {bound : Nat} {s : Selection} (hdepth : s.toJson.depth < bound)
    (hsettled : s.Settled) : Selection.readWithin bound s.toJson = some s := by
  -- The bound goes down by one with each level, the depth of what is written by more than one.
  induction bound generalizing s with
  | zero => cases hdepth
  | succ bound ih =>
    obtain ⟨hrelationships, hconnections⟩ := Selection.settled_iff.mp hsettled
    have hrelated : listOf (RelationshipSelection.readWith (Selection.readWithin bound))
        (Json.array (s.relationships.map RelationshipSelection.toJson)) = some s.relationships := by
      refine listOf_array fun inner hinner => ?_
      have hless := s.depth_relationship hinner
      exact RelationshipSelection.readWith_toJson (hrelationships inner hinner)
        (ih (by omega) (Request.settled_iff.mp (hrelationships inner hinner)).2)
    have hconnected : listOf (ConnectionSelection.readWith (Selection.readWithin bound))
        (Json.array (s.connections.map ConnectionSelection.toJson)) = some s.connections := by
      refine listOf_array fun inner hinner => ?_
      have hless := s.depth_connection hinner
      exact ConnectionSelection.readWith_toJson (hconnections inner hinner)
        (ih (by omega) (hconnections inner hinner).2)
    obtain ⟨fields, relationships, connections⟩ := s
    obtain ⟨field, hrecord, hfields, hrelationships, hconnections⟩ : ∃ field,
        record? ["fields", "relationships", "connections"]
          (toJson ⟨fields, relationships, connections⟩) = some field ∧
        field "fields" = some (texts fields) ∧
        field "relationships" = some (.array (relationships.map RelationshipSelection.toJson)) ∧
        field "connections" = some (.array (connections.map ConnectionSelection.toJson)) := by
      rw [Selection.toJson_eq]
      exact ⟨_, keyed_of_nodup (by simp) _, rfl, rfl, rfl⟩
    simp only [Selection.readWithin, hrecord, hfields, hrelationships, hconnections, defaulted,
      listOf_texts, hrelated, hconnected, Option.bind_eq_bind, Option.bind_some, Option.pure_def]

/-- A settled request is read back as it was written. -/
theorem Request.Settled.read?_toJson {request : Request} (h : request.Settled) :
    Request.read? request.toJson = some request := by
  have hselection : Selection.read? request.selection.toJson = some request.selection :=
    Selection.readWithin_toJson (Nat.lt_succ_self _) (Request.settled_iff.mp h).2
  have hkeys : (request.toEntries.map Prod.fst).Nodup := request.keys_sublist.nodup (by decide)
  have hrecord : record? Request.keys request.toJson =
      some fun key => request.toEntries.lookup key := keyed_of_nodup hkeys _
  rw [Request.read?, hrecord]
  exact Request.ofFields_entries h hselection fun _ _ => rfl

/-- A request is read back as it was written exactly if its filters are settled. -/
theorem Request.read?_toJson_iff (request : Request) :
    Request.read? request.toJson = some request ↔ request.Settled :=
  ⟨Request.settled_of_read Json.showsNull, Request.Settled.read?_toJson⟩

/-- A request whose value is not nested too deeply is read from the text of this value as from the
value itself. -/
theorem Request.read?_source {request : Request} (hdepth : request.toJson.depth ≤ Json.maxDepth) :
    Request.read? request.toJson.source.whole = Request.read? request.toJson := by
  have hvalue : Json.Part.Has request.toJson.source.whole request.toJson :=
    Json.value?_source request.toJson hdepth
  exact Request.read?_of_has hvalue

/-- Requests survive being written. A request that was read, from a JSON value or from a JSON text,
is read back from the value that it is written as: with its filters, their keys in order, its sorts,
counts of rows, keys and selections at every depth. So writing what was read from a value gives a
value that is read and written as itself. Among all requests, whatever their counts of 64 bits,
names and selections are, the ones that survive are those in which no filter is null or repeats a
key; and as long as their values are not nested more deeply than texts may be, they also survive
being written as texts. -/
theorem Request.survives_writing :
    (∀ (value : Json) (request : Request), Request.read? value = some request →
      Request.read? request.toJson = some request) ∧
    (∀ (source : Json.Source) (request : Request), Request.read? source.whole = some request →
      Request.read? request.toJson = some request) ∧
    (∀ value written : Json, (Request.read? value).map Request.toJson = some written →
      (Request.read? written).map Request.toJson = some written) ∧
    (∀ request : Request, Request.read? request.toJson = some request ↔
      ∀ filter ∈ request.filters, filter ≠ .null ∧ filter.KeysDistinct) ∧
    ∀ request : Request, request.toJson.depth ≤ Json.maxDepth →
      (Request.read? request.toJson.source.whole = some request ↔
        ∀ filter ∈ request.filters, filter ≠ .null ∧ filter.KeysDistinct) := by
  have hiff (request : Request) : Request.read? request.toJson = some request ↔
      ∀ filter ∈ request.filters, filter ≠ .null ∧ filter.KeysDistinct := by
    rw [Request.read?_toJson_iff]
    exact forall₂_congr fun filter _ => ⟨fun h => ⟨h.notNull, h.keysDistinct⟩, fun h => ⟨h.1, h.2⟩⟩
  refine ⟨fun value request h => ?_, fun source request h => ?_, fun value written h => ?_, hiff,
    fun request hdepth => ?_⟩
  · exact (Request.settled_of_read Json.showsNull h).read?_toJson
  · exact (Request.settled_of_read Json.Part.showsNull h).read?_toJson
  · obtain ⟨request, hrequest, rfl⟩ := Option.map_eq_some_iff.mp h
    rw [(Request.settled_of_read Json.showsNull hrequest).read?_toJson, Option.map_some]
  · rw [Request.read?_source hdepth]
    exact hiff request

/-- A request with a key of its filter repeated, the largest count of rows, a filter beside the
field of related nodes, and a sort on the side of the relationship. -/
theorem Request.creditsRequest_survives :
    let value : Json := .object
      [("where", .object
          [("title", .string "Alien"), ("year", .ofNat 1979), ("title", .string "Aliens")]),
        ("limit", .ofNat 18446744073709551615),
        ("selection", .object
          [("relationships", .array
              [.object [("field", .string "cast"), ("where", .object [("name", .null)])]]),
            ("connections", .array
              [.object
                [("field", .string "cast"), ("alias", .string "credits"), ("where", .null),
                  ("sort", .array
                    [.object [("field", .string "role"), ("on", .string "edge")]])]])])]
    let request : Request :=
      ⟨some (.object [("title", .string "Aliens"), ("year", .ofNat 1979)]), [], none,
        some 18446744073709551615,
        ⟨[], [⟨"cast", none, ⟨some (.object [("name", .null)]), [], none, none, .empty⟩⟩],
          [⟨"cast", some "credits", none, [⟨.edge, "role", .ascending⟩], [], .empty⟩]⟩⟩
    Request.read? value = some request ∧ Request.read? request.toJson = some request ∧
      (Request.read? request.toJson).map Request.toJson = some request.toJson ∧
      Request.read? request.toJson.source.whole = some request := by
  intro value request
  have hread : Request.read? value = some request := rfl
  obtain ⟨hvalues, -, hwritten, hsettled, htexts⟩ := Request.survives_writing
  have hback : Request.read? request.toJson = some request := hvalues value request hread
  refine ⟨hread, hback, hwritten value _ (by rw [hread, Option.map_some]), ?_⟩
  have hdepth : request.toJson.depth ≤ Json.maxDepth := by decide
  exact (htexts request hdepth).mpr ((hsettled request).mp hback)

end GraphRead
