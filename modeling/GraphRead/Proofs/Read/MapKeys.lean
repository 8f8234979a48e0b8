import GraphRead.Catalog.Definition
import GraphRead.Proofs.Read.Wiring
import GraphRead.Proofs.Rendering.Parts

/-!
# The keys of maps

A query makes maps from nodes, from the relationships of a connection and from the
results of subqueries. Of an answered request this file lists the keys of all of
them, and concludes when keys are repeated: if no level of the request asks for a
key twice, then the only key that can be repeated is that of the node in the map of
a connection, and it is repeated exactly if a relationship property of that name is
selected beside it.
-/

namespace GraphRead

/-- The keys of a part that is a map. -/
def Part.keys? : Part → Option (List String)
  | .expr (.map entries) => some (entries.map Prod.fst)
  | .expr (.project _ entries) => some (entries.map MapEntry.key)
  | _ => none

/-- The keys of the maps among parts. -/
def Part.mapKeys (parts : List Part) : List (List String) := parts.filterMap Part.keys?

/-- The keys of every map that stands in a statement. -/
def Statement.mapKeys (s : Statement) : List (List String) := Part.mapKeys s.parts

mutual
/-- The selections at every level of a request. -/
def Request.levels : Request → List Selection
  | ⟨_, _, _, _, selection⟩ => selection.levels
termination_by structural request => request

/-- A selection with those at the levels below it. -/
def Selection.levels : Selection → List Selection
  | ⟨fields, relationships, connections⟩ =>
    ⟨fields, relationships, connections⟩
      :: (RelationshipSelection.levelsAll relationships
        ++ ConnectionSelection.levelsAll connections)
termination_by structural selection => selection

/-- The selections at the levels of related nodes. -/
def RelationshipSelection.levelsAll : List RelationshipSelection → List Selection
  | [] => []
  | ⟨_, _, request⟩ :: rest => request.levels ++ RelationshipSelection.levelsAll rest
termination_by structural selections => selections

/-- The selections at the levels of the nodes of connections. -/
def ConnectionSelection.levelsAll : List ConnectionSelection → List Selection
  | [] => []
  | ⟨_, _, _, _, _, node⟩ :: rest => node.levels ++ ConnectionSelection.levelsAll rest
termination_by structural selections => selections
end

/-- A connection is answered by a map of its edges, each of which is a map of the selected
properties and the node. -/
def ConnectionSelection.Makes (s : ConnectionSelection) (keys : List String) : Prop :=
  keys = s.edgeFields ++ ["node"] ∨ keys = ["edges", "totalCount"]

/-- A level is answered by a map of what is selected there, and by those of its connections. -/
def Selection.Makes (level : Selection) (keys : List String) : Prop :=
  keys = level.resultKeys ∨ ∃ s ∈ level.connections, s.Makes keys

namespace Part

/-- None of the parts is a map. -/
def NoMaps (parts : List Part) : Prop := ∀ part ∈ parts, part.keys? = none

/-- The maps of parts in a row are those of the first and then those of the others. -/
theorem mapKeys_append (first second : List Part) :
    mapKeys (first ++ second) = mapKeys first ++ mapKeys second :=
  List.filterMap_append

/-- Where there are no maps, there are no keys. -/
theorem NoMaps.mapKeys_eq_nil {parts : List Part} (h : NoMaps parts) : mapKeys parts = [] :=
  List.filterMap_eq_nil_iff.mpr h

/-- Parts in a row have no maps, if the first and the others have none. -/
theorem NoMaps.append {first second : List Part} (h : NoMaps first) (h' : NoMaps second) :
    NoMaps (first ++ second) :=
  List.forall_mem_append.mpr ⟨h, h'⟩

/-- A part that is no map adds none. -/
theorem NoMaps.cons {part : Part} {rest : List Part} (hpart : part.keys? = none)
    (h : NoMaps rest) : NoMaps (part :: rest) :=
  List.forall_mem_cons.mpr ⟨hpart, h⟩

end Part

open GraphRead.Part (mapKeys mapKeys_append NoMaps)

/-- There are no maps in the predicates of filters. -/
theorem Predicate.OfFilter.noMaps {vs : List Variable} {p : Predicate} (h : OfFilter vs p) :
    NoMaps p.parts := by
  refine h.forall_parts (fun _ => rfl) fun {e} he => ?_
  cases e with
  | map | project => exact nomatch he
  | _ => rfl

namespace Read

/-- There are no maps in the condition of a filter. -/
theorem Conditions.noMaps {β : Type} {read : Json → FilterResult β}
    {compile : β → Fresh (Option Predicate)} {vs : List Variable}
    (hcompile : ∀ filter next, ∀ p ∈ ((compile filter).run next).1, Predicate.OfFilter vs p)
    {filter : Option Json} {clauses : List Statement}
    (h : Conditions read compile filter clauses) : NoMaps (Statement.partsAll clauses) := by
  cases h with
  | none => exact List.forall_mem_nil _
  | @some value filter next hread =>
    refine .append (fun part hpart => ?_) (List.forall_mem_nil _)
    obtain ⟨p, hp, hpart⟩ := Predicate.mem_partsAll.mp hpart
    exact (hcompile filter next p (Option.mem_toList.mp hp)).noMaps part hpart

/-- Reading a property makes no map. -/
theorem noMaps_property (v : Variable) (path : List String) :
    NoMaps (Expr.property v path).parts :=
  .cons rfl (List.forall_mem_nil _)

/-- There are no maps in a page, since rows are sorted by properties. -/
theorem noMaps_pageClause {vs : List Variable} {keys : List (Expr × SortDirection)}
    (hkeys : KeysOn vs keys) (offset limit : Option UInt64) :
    NoMaps (Statement.partsAll (pageClause keys offset limit)) := by
  have hsorted : NoMaps (Statement.partsKeys keys) := by
    intro part hpart
    obtain ⟨key, hkey, hpart⟩ := Statement.mem_partsKeys.mp hpart
    obtain ⟨v, -, path, hproperty⟩ := hkeys key hkey
    rw [hproperty] at hpart
    exact noMaps_property v path part hpart
  have hpage : Statement.partsAll (pageClause keys offset limit) = Statement.partsKeys keys := by
    cases keys <;> cases offset <;> cases limit <;>
      simp [pageClause, orderClause, Statement.partsAll, Statement.parts, Statement.partsKeys]
  rw [hpage]
  exact hsorted

/-- The values of selected fields are no maps. -/
theorem noMaps_fieldEntries {node : Node} {v : Variable} {names : List String}
    {entries : List MapEntry} (h : List.Forall₂ (FieldEntry node v) names entries) :
    NoMaps (MapEntry.partsAll entries) := by
  induction h with
  | nil => exact List.forall_mem_nil _
  | cons hentry _ ih =>
    obtain ⟨field, -, rfl⟩ := hentry
    split
    · exact ih
    · exact .append (noMaps_property v _) ih

/-- The entries of selected properties of a relationship have their names as keys, and their values
are no maps. -/
theorem keys_of_edgeEntries {link : Link} {edge : Variable} {names : List String}
    {properties : List (String × Expr)}
    (h : List.Forall₂ (EdgeEntry link edge) names properties) :
    properties.map Prod.fst = names ∧ NoMaps (Expr.partsEntries properties) := by
  induction h with
  | nil => exact ⟨rfl, List.forall_mem_nil _⟩
  | cons hentry _ ih =>
    obtain ⟨property, -, rfl⟩ := hentry
    exact ⟨congrArg _ ih.1, .append (noMaps_property edge _) ih.2⟩

/-- The maps in a subquery are those in its clauses. -/
theorem mapKeys_subquery (parent : Variable) (pattern : Pattern) (clauses calls : List Statement) :
    mapKeys (Statement.partsAll (subquery parent pattern clauses :: calls)) =
      mapKeys (Statement.partsAll clauses) ++ mapKeys (Statement.partsAll calls) := by
  simp [subquery, Statement.partsAll, Statement.parts, mapKeys_append]

/-- The only map in the last clauses of a subquery for related nodes is the one that answers the
selection of these. -/
theorem mapKeys_relatedResult (link : Link) (related result : Variable) (projection : Expr) :
    mapKeys (Statement.partsAll (relatedResult link related result projection)) =
      mapKeys projection.parts := by
  unfold relatedResult collected
  cases link.relationship.isList <;>
    simp [Statement.partsAll, Statement.parts, Item.partsAll, Item.parts, Expr.parts,
      Expr.partsAll, mapKeys, Part.keys?]

/-- The last clauses of a subquery for a connection make a map of properties and the node, and a
map of edges. -/
theorem mapKeys_connectionResult {edgeMap edges result : Variable}
    {properties : List (String × Expr)} (hproperties : NoMaps (Expr.partsEntries properties))
    (projection : Expr) :
    mapKeys (Statement.partsAll (connectionResult edgeMap edges result
        (properties ++ [("node", projection)]))) =
      (properties.map Prod.fst ++ ["node"]) :: mapKeys projection.parts
        ++ [["edges", "totalCount"]] := by
  have hnone := hproperties.mapKeys_eq_nil
  unfold mapKeys at *
  simp [connectionResult, Statement.partsAll, Statement.parts, Item.partsAll, Item.parts,
    Expr.parts, Expr.partsAll, Expr.partsEntries, Expr.partsEntries_append, Part.keys?, hnone]
  rfl

/-- A projection makes one map, if its entries make none. -/
theorem mapKeys_project {v : Variable} {entries : List MapEntry}
    (h : NoMaps (MapEntry.partsAll entries)) :
    mapKeys (Expr.project v entries).parts = [entries.map MapEntry.key] := by
  show entries.map MapEntry.key :: mapKeys (MapEntry.partsAll entries) = _
  rw [h.mapKeys_eq_nil]

mutual
/-- The maps that answer a request are those that its levels ask for. -/
theorem AnswersRequest.mem_mapKeys_iff {setting : Setting} {node : Node} {v : Variable}
    {wanted : Request} {clauses : List Statement} {projection : Expr} (keys : List String)
    (h : AnswersRequest setting node v wanted clauses projection) :
    keys ∈ mapKeys (Statement.partsAll clauses) ∨ keys ∈ mapKeys projection.parts ↔
      ∃ level ∈ wanted.levels, level.Makes keys := by
  match h with
  | .intro hfilter hsort hwanted =>
    have hfilters := hfilter.noMaps fun filter next => filter.ofFilter_predicate v next
    have hpage := noMaps_pageClause (keysOn_of_sortsBy hsort)
    rw [Statement.partsAll_append, Statement.partsAll_append, mapKeys_append, mapKeys_append,
      hfilters.mapKeys_eq_nil, (hpage _ _).mapKeys_eq_nil, List.nil_append, List.nil_append,
      hwanted.mem_mapKeys_iff keys]
    rfl
termination_by structural h

/-- The maps that answer a selection are those that its levels ask for. -/
theorem AnswersSelection.mem_mapKeys_iff {setting : Setting} {node : Node} {v : Variable}
    {wanted : Selection} {calls : List Statement} {projection : Expr} (keys : List String)
    (h : AnswersSelection setting node v wanted calls projection) :
    keys ∈ mapKeys (Statement.partsAll calls) ∨ keys ∈ mapKeys projection.parts ↔
      ∃ level ∈ wanted.levels, level.Makes keys := by
  match h with
  | .intro hfields hrelated hconnected =>
    obtain ⟨hrelatedKeys, hrelatedEntries, hrelatedCalls⟩ := hrelated.mem_mapKeys_iff keys
    obtain ⟨hconnectedKeys, hconnectedEntries, hconnectedCalls⟩ :=
      hconnected.mem_mapKeys_iff keys
    have hnone := ((noMaps_fieldEntries hfields).append hrelatedEntries).append hconnectedEntries
    rw [← MapEntry.partsAll_append, ← MapEntry.partsAll_append] at hnone
    rw [Statement.partsAll_append, mapKeys_append, List.mem_append, mapKeys_project hnone,
      List.map_append, List.map_append, (keys_of_fieldEntries hfields).1, hrelatedKeys,
      hconnectedKeys, hrelatedCalls, hconnectedCalls, Selection.levels, List.mem_singleton]
    simp only [List.mem_cons, List.mem_append, or_and_right, exists_or, exists_eq_left,
      Selection.Makes, Selection.resultKeys]
    grind
termination_by structural h

/-- The maps in subqueries for related nodes are those that their levels ask for. -/
theorem AnswersRelated.mem_mapKeys_iff {setting : Setting} {node : Node} {v : Variable}
    {selections : List RelationshipSelection} {calls : List Statement} {entries : List MapEntry}
    (keys : List String) (h : AnswersRelated setting node v selections calls entries) :
    entries.map MapEntry.key = selections.map RelationshipSelection.resultKey ∧
      NoMaps (MapEntry.partsAll entries) ∧
      (keys ∈ mapKeys (Statement.partsAll calls) ↔
        ∃ level ∈ RelationshipSelection.levelsAll selections, level.Makes keys) := by
  match h with
  | .nil =>
    simp [NoMaps, MapEntry.partsAll, Statement.partsAll, mapKeys, RelationshipSelection.levelsAll]
  | .cons hlink hwanted hrest =>
    obtain ⟨hkeys, hentries, hcalls⟩ := hrest.mem_mapKeys_iff keys
    refine ⟨congrArg _ hkeys, .append (.cons rfl (List.forall_mem_nil _)) hentries, ?_⟩
    rw [mapKeys_subquery, Statement.partsAll_append, mapKeys_append, mapKeys_relatedResult,
      List.mem_append, List.mem_append, hwanted.mem_mapKeys_iff keys, hcalls,
      RelationshipSelection.levelsAll]
    simp only [List.mem_append, or_and_right, exists_or]
termination_by structural h

/-- The maps in subqueries for connections are those of the connections and those that the levels
of their nodes ask for. -/
theorem AnswersConnected.mem_mapKeys_iff {setting : Setting} {node : Node} {v : Variable}
    {selections : List ConnectionSelection} {calls : List Statement} {entries : List MapEntry}
    (keys : List String) (h : AnswersConnected setting node v selections calls entries) :
    entries.map MapEntry.key = selections.map ConnectionSelection.resultKey ∧
      NoMaps (MapEntry.partsAll entries) ∧
      (keys ∈ mapKeys (Statement.partsAll calls) ↔
        (∃ s ∈ selections, s.Makes keys) ∨
          ∃ level ∈ ConnectionSelection.levelsAll selections, level.Makes keys) := by
  match h with
  | .nil =>
    simp [NoMaps, MapEntry.partsAll, Statement.partsAll, mapKeys, ConnectionSelection.levelsAll]
  | .cons hlink hfilter hwanted hsort hproperties hrest =>
    obtain ⟨hkeys, hentries, hcalls⟩ := hrest.mem_mapKeys_iff keys
    refine ⟨congrArg _ hkeys, .append (.cons rfl (List.forall_mem_nil _)) hentries, ?_⟩
    have hfilters := hfilter.noMaps fun filter next => filter.ofFilter_predicate _ _ next
    have hpage := noMaps_pageClause (keysOn_of_connectionSortsBy hsort) none none
    obtain ⟨hnames, hnone⟩ := keys_of_edgeEntries hproperties
    rw [mapKeys_subquery, Statement.partsAll_append, Statement.partsAll_append,
      Statement.partsAll_append, mapKeys_append, mapKeys_append, mapKeys_append,
      hfilters.mapKeys_eq_nil, hpage.mapKeys_eq_nil, mapKeys_connectionResult hnone, hnames,
      ConnectionSelection.levelsAll, List.mem_append, hcalls]
    have hbelow := hwanted.mem_mapKeys_iff keys
    simp only [List.nil_append, List.append_nil, List.mem_append, List.mem_cons, List.not_mem_nil,
      or_false, or_and_right, exists_or, ← hbelow, ConnectionSelection.Makes]
    grind
termination_by structural h
end

/-- Selected properties and the node have different keys unless a property of that name is
selected. -/
theorem nodup_edgeKeys_iff {names : List String} (h : names.Nodup) :
    (names ++ ["node"]).Nodup ↔ "node" ∉ names := by
  simp [List.nodup_append, h, List.forall_mem_ne']

/-- The maps of an answered request are those that its levels ask for. If no level asks for a key
twice, then all maps have different keys, unless a property with the name of the node is selected
beside it: then, and only then, the map of an edge has two values under that key. -/
theorem query_maps_distinct_iff {schema : Schema} {name : String} {wanted : Request}
    {settings : Settings} {result : Query} (h : query schema name wanted settings = .ok result)
    (hlevels : ∀ level ∈ wanted.levels, level.resultKeys.Nodup)
    (hedges : ∀ level ∈ wanted.levels, ∀ s ∈ level.connections, s.edgeFields.Nodup) :
    ∃ tree, statement schema name wanted settings = .ok tree ∧
      tree.build settings.toRenderOptions = .ok result ∧
      (∀ keys, keys ∈ tree.mapKeys ↔ ∃ level ∈ wanted.levels, level.Makes keys) ∧
      (∀ keys ∈ tree.mapKeys, keys.Nodup ∨ ∃ level ∈ wanted.levels, ∃ s ∈ level.connections,
        "node" ∈ s.edgeFields ∧ keys = s.edgeFields ++ ["node"]) ∧
      ((∀ keys ∈ tree.mapKeys, keys.Nodup) ↔
        ∀ level ∈ wanted.levels, ∀ s ∈ level.connections, "node" ∉ s.edgeFields) := by
  obtain ⟨tree, htree, hbuild⟩ := FilterReader.bind_eq_ok h
  obtain ⟨node, clauses, projection, -, hanswers, rfl⟩ := statement_eq_ok htree
  have hmaps (keys : List String) : keys ∈ Statement.mapKeys (.matching false
        ⟨.of (.namedNode 0 settings.variablePrefix node.labels), []⟩ (clauses ++ [.returning false
          [.aliased projection (.namedNode 0 settings.variablePrefix node.labels)]])) ↔
      ∃ level ∈ wanted.levels, level.Makes keys := by
    rw [← hanswers.mem_mapKeys_iff keys]
    simp [Statement.mapKeys, Statement.parts, Statement.partsAll_append, Statement.partsAll,
      Item.partsAll, Item.parts, mapKeys_append]
  -- Only the map of an edge can repeat a key, since it has the node beside the properties.
  have hkeys (keys : List String) (hmade : ∃ level ∈ wanted.levels, level.Makes keys) :
      keys.Nodup ∨ ∃ level ∈ wanted.levels, ∃ s ∈ level.connections,
        "node" ∈ s.edgeFields ∧ keys = s.edgeFields ++ ["node"] := by
    obtain ⟨level, hlevel, rfl | ⟨s, hs, rfl | rfl⟩⟩ := hmade
    · exact .inl (hlevels level hlevel)
    · by_cases hnode : "node" ∈ s.edgeFields
      · exact .inr ⟨level, hlevel, s, hs, hnode, rfl⟩
      · exact .inl ((nodup_edgeKeys_iff (hedges level hlevel s hs)).mpr hnode)
    · exact .inl (by decide)
  refine ⟨_, htree, Plan.eq_ok_of_mapError hbuild, hmaps,
    fun keys hmem => hkeys keys ((hmaps keys).mp hmem), fun hdistinct level hlevel s hs => ?_,
    fun hspared keys hmem => ?_⟩
  · have hmade := (hmaps _).mpr ⟨level, hlevel, .inr ⟨s, hs, .inl rfl⟩⟩
    exact (nodup_edgeKeys_iff (hedges level hlevel s hs)).mp (hdistinct _ hmade)
  · obtain hnodup | ⟨level, hlevel, s, hs, hnode, -⟩ := hkeys keys ((hmaps keys).mp hmem)
    · exact hnodup
    · exact absurd hnode (hspared level hlevel s hs)

/-- Films and how they quote each other, with a property that is called like the node. -/
def quotedDefinition : SchemaDefinition where
  name := none
  nodes := [⟨"Film", none, [⟨"quotes", none, false, none, none,
    some ⟨"QUOTES", .outgoing, "Film", true,
      [⟨"node", some .string, false, none, none, none⟩]⟩⟩]⟩]

/-- The schema of that definition. -/
def quotedSchema : Schema :=
  ⟨[⟨"Film", ["Film"], [⟨"quotes", none, .relationship ⟨"QUOTES", .outgoing, "Film", true,
    [⟨"node", none, .scalar ⟨.string, false, none⟩⟩]⟩⟩]⟩]⟩

/-- A request for that property of every quotation. -/
def quotedRequest : Request where
  filter := none
  sort := []
  offset := none
  limit := none
  selection := ⟨[], [], [⟨"quotes", none, none, [], ["node"], .empty⟩]⟩

/-- All keys and fields of the request are distinct on every level. Still a map has the key "node"
twice: for the node of a quotation, and for the property of that name. -/
theorem quotedRequest_repeats_node :
    quotedDefinition.resolve = .ok quotedSchema ∧
      (∀ level ∈ quotedRequest.levels, level.resultKeys.Nodup) ∧
      (∀ level ∈ quotedRequest.levels, ∀ s ∈ level.connections, s.edgeFields.Nodup) ∧
      ∃ tree result, statement quotedSchema "Film" quotedRequest {} = .ok tree ∧
        tree.build ({} : Settings).toRenderOptions = .ok result ∧
        ["node", "node"] ∈ tree.mapKeys ∧ ¬ ∀ keys ∈ tree.mapKeys, keys.Nodup := by
  have hok : (query quotedSchema "Film" quotedRequest {}).isOk = true := by decide +kernel
  obtain ⟨result, hquery⟩ := Plan.exists_of_isOk hok
  have hlevels : ∀ level ∈ quotedRequest.levels, level.resultKeys.Nodup := by
    simp [quotedRequest, Request.levels, Selection.levels, RelationshipSelection.levelsAll,
      ConnectionSelection.levelsAll, Selection.empty, Selection.resultKeys]
  have hedges : ∀ level ∈ quotedRequest.levels, ∀ s ∈ level.connections, s.edgeFields.Nodup := by
    simp [quotedRequest, Request.levels, Selection.levels, RelationshipSelection.levelsAll,
      ConnectionSelection.levelsAll, Selection.empty]
  obtain ⟨tree, htree, hbuild, hmaps, -, hiff⟩ := query_maps_distinct_iff hquery hlevels hedges
  refine ⟨rfl, hlevels, hedges, tree, result, htree, hbuild, (hmaps _).mpr ?_, fun hdistinct => ?_⟩
  · exact ⟨quotedRequest.selection, List.mem_cons_self, .inr ⟨_, List.mem_cons_self, .inl rfl⟩⟩
  · exact hiff.mp hdistinct quotedRequest.selection List.mem_cons_self _ List.mem_cons_self
      List.mem_cons_self

end Read

end GraphRead
