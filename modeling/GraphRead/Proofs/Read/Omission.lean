import GraphRead.Proofs.Filter.Identities
import GraphRead.Proofs.Filter.Presence
import GraphRead.Proofs.Filter.Vacuity
import GraphRead.Proofs.Read.Acceptance

/-!
# Leaving out filters without a condition

A filter without a condition can be left out of a request, at any level. The plan then
takes fewer identities, and a clause that is printed as nothing is missing. This file
compares the two plans step by step: up to identities, their clauses are rendered
alike. The answers are then the same queries, or the same errors.
-/

namespace GraphRead

/-- Clauses are rendered alike, and they return the same variables. -/
structure Statement.SameClauses (clauses clauses' : List Statement) : Prop where
  rendered : renderAll clauses = renderAll clauses'
  returned : returnedAll clauses = returnedAll clauses'

namespace Statement

/-- Clauses are rendered one after the other. -/
theorem renderAll_append (first second : List Statement) :
    renderAll (first ++ second) = (do
      let texts ← renderAll first
      let others ← renderAll second
      return texts ++ others) := by
  induction first with
  | nil => simp [renderAll]
  | cons s rest ih =>
    simp only [List.cons_append, renderAll, ih, bind_assoc, pure_bind]
    refine bind_congr fun text => bind_congr fun texts => bind_congr fun others => ?_
    split <;> rfl

/-- Renaming clauses in a row renames the first and then the others. -/
theorem renameAll_append (f : Renaming) (first second : List Statement) :
    renameAll f (first ++ second) = renameAll f first ++ renameAll f second := by
  induction first with
  | nil => rfl
  | cons s rest ih => rw [List.cons_append, renameAll, ih]; rfl

namespace SameClauses

variable {clauses clauses' others others' : List Statement}

/-- Clauses are rendered like themselves. -/
theorem refl (clauses : List Statement) : SameClauses clauses clauses := ⟨rfl, rfl⟩

/-- Clauses that are rendered alike can be put in a row. -/
theorem append (h : SameClauses clauses clauses') (h' : SameClauses others others') :
    SameClauses (clauses ++ others) (clauses' ++ others') where
  rendered := by rw [renderAll_append, renderAll_append, h.rendered, h'.rendered]
  returned := by rw [returnedAll_append, returnedAll_append, h.returned, h'.returned]

/-- A condition without parts is not printed. -/
theorem nothing : SameClauses [] [condition (.predicate none)] := ⟨rfl, rfl⟩

/-- A subquery is rendered as its clauses are. -/
theorem subquery (h : SameClauses clauses clauses') (parent : Variable) (pattern : Pattern) :
    SameClauses [Read.subquery parent pattern clauses] [Read.subquery parent pattern clauses'] where
  rendered := by
    simp only [Read.subquery, renderAll, render, Statement.returned, h.rendered, h.returned]
  returned := rfl

end SameClauses

end Statement

open Statement (SameClauses)
open Plan (Parallel ParallelFresh)

namespace Read

/-- A filter stays as it is, or it is left out since it has no condition. -/
inductive KeepsFilter (vacuous : Json → Prop) : Option Json → Option Json → Prop where
  | kept (filter : Option Json) : KeepsFilter vacuous filter filter
  | omitted {value : Json} (h : vacuous value) : KeepsFilter vacuous (some value) none

/-- A filter on an element that is accepted and has no condition. -/
def VacuousOn (setting : Setting) (element : Element) (value : Json) : Prop :=
  value.FiltersElement setting.schema setting.maxFilterDepth element ∧
    value.isVacuous setting.schema (.element element)

/-- A filter on a connection that is accepted and has no condition. -/
def VacuousOnConnection (setting : Setting) (link : Link) (value : Json) : Prop :=
  value.FiltersConnection setting.schema setting.maxFilterDepth link ∧
    value.isVacuous setting.schema (.connection link)

end Read

open Read (KeepsFilter VacuousOn VacuousOnConnection)

mutual
/-- The second request is the first without some filters that have no condition. -/
inductive Request.Omits (setting : Read.Setting) : Node → Request → Request → Prop where
  | mk {node : Node} {filter filter' : Option Json} {sort : List SortKey}
    {offset limit : Option UInt64} {wanted wanted' : Selection}
    (hfilter : KeepsFilter (VacuousOn setting node.element) filter filter')
    (hwanted : Selection.Omits setting node wanted wanted') :
    Request.Omits setting node ⟨filter, sort, offset, limit, wanted⟩
      ⟨filter', sort, offset, limit, wanted'⟩

/-- The second selection is the first without some filters that have no condition. -/
inductive Selection.Omits (setting : Read.Setting) : Node → Selection → Selection → Prop where
  | mk {node : Node} {fields : List String} {related related' : List RelationshipSelection}
    {connected connected' : List ConnectionSelection}
    (hrelated : RelationshipSelection.AllOmit setting node related related')
    (hconnected : ConnectionSelection.AllOmit setting node connected connected') :
    Selection.Omits setting node ⟨fields, related, connected⟩ ⟨fields, related', connected'⟩

/-- The second selections of related nodes are the first without some filters that have no
condition. What is asked of a field that leads nowhere does not matter: the field is refused. -/
inductive RelationshipSelection.AllOmit (setting : Read.Setting) :
    Node → List RelationshipSelection → List RelationshipSelection → Prop where
  | nil {node : Node} : RelationshipSelection.AllOmit setting node [] []
  | cons {node : Node} {field : String} {key : Option String} {wanted wanted' : Request}
    {rest rest' : List RelationshipSelection}
    (hwanted : ∀ link, node.link? setting.schema field = some link →
      Request.Omits setting link.target wanted wanted')
    (hrest : RelationshipSelection.AllOmit setting node rest rest') :
    RelationshipSelection.AllOmit setting node (⟨field, key, wanted⟩ :: rest)
      (⟨field, key, wanted'⟩ :: rest')

/-- The second selections of connections are the first without some filters that have no
condition. -/
inductive ConnectionSelection.AllOmit (setting : Read.Setting) :
    Node → List ConnectionSelection → List ConnectionSelection → Prop where
  | nil {node : Node} : ConnectionSelection.AllOmit setting node [] []
  | cons {node : Node} {field : String} {key : Option String} {filter filter' : Option Json}
    {sort : List ConnectionSortKey} {edgeFields : List String} {wanted wanted' : Selection}
    {rest rest' : List ConnectionSelection}
    (hfilter : ∀ link, node.link? setting.schema field = some link →
      KeepsFilter (VacuousOnConnection setting link) filter filter')
    (hwanted : ∀ link, node.link? setting.schema field = some link →
      Selection.Omits setting link.target wanted wanted')
    (hrest : ConnectionSelection.AllOmit setting node rest rest') :
    ConnectionSelection.AllOmit setting node
      (⟨field, key, filter, sort, edgeFields, wanted⟩ :: rest)
      (⟨field, key, filter', sort, edgeFields, wanted'⟩ :: rest')
end

namespace Read

section Relations

/-- Clauses are rendered alike up to identities. -/
def SameUpTo (g : Nat → Nat) (clauses clauses' : List Statement) : Prop :=
  SameClauses (Statement.renameAll (.both g) clauses) clauses'

/-- Sort keys are the same up to identities. -/
def SameKeys (g : Nat → Nat) (keys keys' : List (Expr × SortDirection)) : Prop :=
  Statement.renameKeys (.both g) keys = keys'

/-- Entries of a map are the same up to identities. -/
def SameEntries (g : Nat → Nat) (entries entries' : List MapEntry) : Prop :=
  MapEntry.renameAll (.both g) entries = entries'

/-- Properties of edges are the same up to identities. -/
def SameProperties (g : Nat → Nat) (entries entries' : List (String × Expr)) : Prop :=
  Expr.renameEntries (.both g) entries = entries'

/-- Answers of a request are the same up to identities. -/
def SameAnswer (g : Nat → Nat) (answer answer' : List Statement × Expr) : Prop :=
  SameUpTo g answer.1 answer'.1 ∧ answer.2.rename (.both g) = answer'.2

/-- Subqueries are the same up to identities, and so are the entries of their results. -/
def SameCalls (g : Nat → Nat) (result result' : List Statement × List MapEntry) : Prop :=
  SameUpTo g result.1 result'.1 ∧ SameEntries g result.2 result'.2

/-- The variables at the ends of a link and on it are the same up to identities. -/
structure SameEnds (v v' related related' edge edge' : Variable) (g : Nat → Nat) : Prop where
  source : SameVariable g v v'
  related : SameVariable g related related'
  edge : SameVariable g edge edge'

/-- What a subquery for a connection is made of is the same up to identities: the variables, its
conditions, the answer for the node, the sort keys and the properties of edges. -/
structure SameConnection (v v' related related' edge edge' : Variable)
    (filters filters' : List Statement) (answer answer' : List Statement × Expr)
    (keys keys' : List (Expr × SortDirection)) (properties properties' : List (String × Expr))
    (g : Nat → Nat) : Prop where
  ends : SameEnds v v' related related' edge edge' g
  filters : SameUpTo g filters filters'
  answer : SameAnswer g answer answer'
  keys : SameKeys g keys keys'
  properties : SameProperties g properties properties'

/-- Clauses that are rendered alike up to identities can be put in a row. -/
theorem SameUpTo.append {g : Nat → Nat} {clauses clauses' others others' : List Statement}
    (h : SameUpTo g clauses clauses') (h' : SameUpTo g others others') :
    SameUpTo g (clauses ++ others) (clauses' ++ others') := by
  rw [SameUpTo, Statement.renameAll_append]
  exact SameClauses.append h h'

/-- Entries that are the same up to identities can be put in a row. -/
theorem SameEntries.append {g : Nat → Nat} {entries entries' others others' : List MapEntry}
    (h : SameEntries g entries entries') (h' : SameEntries g others others') :
    SameEntries g (entries ++ others) (entries' ++ others') := by
  have happend (first second : List MapEntry) : MapEntry.renameAll (.both g) (first ++ second) =
      MapEntry.renameAll (.both g) first ++ MapEntry.renameAll (.both g) second := by
    induction first with
    | nil => rfl
    | cons entry rest ih =>
      cases entry with
      | stored key => exact congrArg (MapEntry.stored key :: ·) ih
      | computed key e => exact congrArg (MapEntry.computed key (e.rename (.both g)) :: ·) ih
  rw [SameEntries, happend, h, h']

/-- One more property can be added to those of edges, if it is the same up to identities. -/
theorem SameProperties.concat {g : Nat → Nat} {entries entries' : List (String × Expr)}
    (h : SameProperties g entries entries') {e e' : Expr} (he : e.rename (.both g) = e')
    (key : String) : SameProperties g (entries ++ [(key, e)]) (entries' ++ [(key, e')]) := by
  have happend (first : List (String × Expr)) :
      Expr.renameEntries (.both g) (first ++ [(key, e)]) =
        Expr.renameEntries (.both g) first ++ [(key, e.rename (.both g))] := by
    induction first with
    | nil => rfl
    | cons entry rest ih => exact congrArg ((entry.1, entry.2.rename (.both g)) :: ·) ih
  rw [SameProperties, happend, h, he]

/-- Pages are the same if they are in the same order. -/
theorem SameKeys.pageClause {g : Nat → Nat} {keys keys' : List (Expr × SortDirection)}
    (h : SameKeys g keys keys') (offset limit : Option UInt64) :
    SameUpTo g (pageClause keys offset limit) (pageClause keys' offset limit) := by
  have hrename : Statement.renameAll (.both g) (Read.pageClause keys offset limit) =
      Read.pageClause keys' offset limit := by
    rw [← h]
    cases keys <;> cases offset <;> cases limit <;> rfl
  rw [SameUpTo, hrename]
  exact .refl _

end Relations

section Leaves

variable {known : (Nat → Nat) → Prop} {v v' related related' edge edge' : Variable}

/-- A value that has to be there is the same for both plans. -/
theorem parallel_found {α β β' : Type} {same : (Nat → Nat) → β → β' → Prop} (error : ReadError)
    (value : Option α) {k : α → Plan β} {k' : α → Plan β'}
    (hk : ∀ a, Parallel known same (k a) (k' a)) :
    Parallel known same (Plan.found error value >>= k) (Plan.found error value >>= k') := by
  cases value with
  | none => exact Plan.parallel_throw error
  | some a => exact hk a

/-- A field leads to a link, or it is refused. -/
theorem selectedLink_eq (setting : Setting) (node : Node) (name path : String) :
    (∃ link, node.link? setting.schema name = some link ∧
      selectedLink setting node name path = pure link) ∨
    ∃ error, selectedLink setting node name path = throw error := by
  cases hfield : node.field? name with
  | none => exact .inr ⟨_, selectedLink_eq_throw setting path (by simp [hfield])⟩
  | some field =>
    cases hkind : field.kind with
    | scalar scalar => exact .inr ⟨_, selectedLink_eq_throw setting path (by simp [hfield, hkind])⟩
    | relationship relationship =>
      have hrelationship : field.relationship? = some relationship := by
        simp [Field.relationship?, hkind]
      cases htarget : setting.schema.node? relationship.target with
      | none =>
        refine .inr ⟨.schema (.unknownNode relationship.target), ?_⟩
        simp only [selectedLink, hfield, hrelationship, Option.bind_some, Option.map_some,
          Plan.found, Schema.node, htarget, Plan.checked, pure_bind]
        rfl
      | some target =>
        refine .inl ⟨_, ?_, selectedLink_eq_pure path hfield hkind htarget⟩
        simp [Node.link?, hfield, hrelationship, htarget]

/-- The link of a selection is the same for both plans. -/
theorem parallel_selectedLink {β β' : Type} {same : (Nat → Nat) → β → β' → Prop}
    {setting : Setting} {node : Node} {name path : String} {k : Link → Plan β}
    {k' : Link → Plan β'}
    (hk : ∀ link, node.link? setting.schema name = some link →
      Parallel known same (k link) (k' link)) :
    Parallel known same (selectedLink setting node name path >>= k)
      (selectedLink setting node name path >>= k') := by
  rcases selectedLink_eq setting node name path with ⟨link, hlink, heq⟩ | ⟨error, heq⟩
  · rw [heq, pure_bind, pure_bind]
    exact hk link hlink
  · rw [heq]
    exact Plan.parallel_throw error

/-- Sort keys are planned in parallel for the same variables. -/
theorem parallel_sortKeys (hv : ∀ g, known g → SameVariable g v v') (node : Node) (path : String)
    (index : Nat) (sort : List SortKey) :
    Parallel known SameKeys (sortKeys node v path index sort)
      (sortKeys node v' path index sort) := by
  induction sort generalizing index with
  | nil => exact .pure fun _ _ => rfl
  | cons key rest ih =>
    refine parallel_found _ _ fun field => .bind (ih (index + 1)) fun keys keys' => ?_
    refine .pure fun g hg => ?_
    rw [← hv g hg.1, ← hg.2]
    rfl

/-- Sort keys of a connection are planned in parallel for the same variables. -/
theorem parallel_connectionSortKeys (hrelated : ∀ g, known g → SameVariable g related related')
    (hedge : ∀ g, known g → SameVariable g edge edge') (link : Link) (path : String) (index : Nat)
    (sort : List ConnectionSortKey) :
    Parallel known SameKeys (connectionSortKeys link related edge path index sort)
      (connectionSortKeys link related' edge' path index sort) := by
  induction sort generalizing index with
  | nil => exact .pure fun _ _ => rfl
  | cons key rest ih =>
    rw [connectionSortKeys, connectionSortKeys]
    cases key.side with
    | node =>
      refine parallel_found _ _ fun field => .bind (ih (index + 1)) fun keys keys' => ?_
      refine .pure fun g hg => ?_
      rw [← hrelated g hg.1, ← hg.2]
      rfl
    | edge =>
      refine parallel_found _ _ fun field => .bind (ih (index + 1)) fun keys keys' => ?_
      refine .pure fun g hg => ?_
      rw [← hedge g hg.1, ← hg.2]
      rfl

/-- Selected fields are planned in parallel for the same variables. -/
theorem parallel_fieldEntries (hv : ∀ g, known g → SameVariable g v v') (node : Node)
    (path : String) (names : List String) :
    Parallel known SameEntries (fieldEntries node v path names)
      (fieldEntries node v' path names) := by
  induction names with
  | nil => exact .pure fun _ _ => rfl
  | cons name rest ih =>
    refine parallel_found _ _ fun field => .bind ih fun entries entries' => ?_
    split
    · refine .pure fun g hg => ?_
      rw [← hg.2]
      rfl
    · refine .pure fun g hg => ?_
      rw [← hv g hg.1, ← hg.2]
      rfl

/-- Selected properties of edges are planned in parallel for the same variables. -/
theorem parallel_edgeEntries (hedge : ∀ g, known g → SameVariable g edge edge') (link : Link)
    (path : String) (names : List String) :
    Parallel known SameProperties (edgeEntries link edge path names)
      (edgeEntries link edge' path names) := by
  induction names with
  | nil => exact .pure fun _ _ => rfl
  | cons name rest ih =>
    refine parallel_found _ _ fun property => .bind ih fun entries entries' => ?_
    refine .pure fun g hg => ?_
    rw [← hedge g hg.1, ← hg.2]
    rfl

/-- The condition of a filter, as a clause. -/
def conditionClause {β : Type} (read : Json → FilterResult β)
    (compile : β → Fresh (Option Predicate)) (filter : Json) : Plan Statement := do
  let filter ← Plan.checked .filter (read filter)
  let predicate ← Plan.fresh (compile filter)
  return .condition (.predicate predicate)

variable {β : Type} {read : Json → FilterResult β} {compile compile' : β → Fresh (Option Predicate)}
  {vacuous : Json → Prop}

/-- A filter that is left out gives no clause, and otherwise a clause that is printed as nothing. -/
theorem parallel_omitted {value : Json} {f : β} (hread : read value = .ok f)
    (hcompile : ParallelFresh known SameCondition (compile f) (compile' f))
    (hsilent : ∀ next, ((compile' f).run next).1 = none) :
    Parallel known SameUpTo (pure [])
      (optionalClause (conditionClause read compile') (some value)) := by
  intro next next'
  have hrun : (optionalClause (conditionClause read compile') (some value)).run next' =
      .ok ([.condition (.predicate none)], ((compile' f).run next').2) := by
    rw [← hsilent next', optionalClause, conditionClause, hread]
    rfl
  rw [hrun]
  exact .ok [] (.nil (hcompile.le next')) fun g _ _ => SameClauses.nothing

/-- The clause of a filter is planned in parallel, if its conditions are compiled so. -/
theorem parallel_conditionClause
    (hcompile : ∀ f, ParallelFresh known SameCondition (compile f) (compile' f)) (value : Json) :
    Parallel known (fun g s s' => s.rename (.both g) = s') (conditionClause read compile value)
      (conditionClause read compile' value) := by
  unfold conditionClause
  cases read value with
  | error error => exact Plan.parallel_throw _
  | ok f =>
    simp only [Plan.checked, pure_bind]
    refine .bind (hcompile f) fun p p' => .pure fun g hg => ?_
    rw [← hg.2]
    cases p <;> rfl

/-- Filters that are kept give the same clauses. -/
theorem parallel_kept (hcompile : ∀ f, ParallelFresh known SameCondition (compile f) (compile' f))
    (filter : Option Json) :
    Parallel known SameUpTo (optionalClause (conditionClause read compile) filter)
      (optionalClause (conditionClause read compile') filter) := by
  cases filter with
  | none => exact .pure fun _ _ => SameClauses.refl []
  | some value =>
    refine .bind (parallel_conditionClause hcompile value) fun s s' => .pure fun g hg => ?_
    rw [← hg.2]
    exact SameClauses.refl _

end Leaves

/-- The condition of a filter on an element, which may be left out if it has none. -/
theorem parallel_filterClause {known : (Nat → Nat) → Prop} {v v' : Variable}
    (hv : ∀ g, known g → SameVariable g v v') {setting : Setting} {element : Element}
    (path : String) {filter filter' : Option Json}
    (h : KeepsFilter (VacuousOn setting element) filter filter') :
    Parallel known SameUpTo (optionalClause (filterClause setting element v path) filter')
      (optionalClause (filterClause setting element v' path) filter) := by
  cases h with
  | kept => exact parallel_kept (fun f => f.parallel_predicate hv) filter
  | @omitted value h =>
    obtain ⟨f, hread⟩ := (Json.filtersElement_iff (.located (path ++ ".where"))).mp h.1
    have hmute := (FilterReader.mute_filter_and_connection _ _ _).1 hread v'
    rw [h.2] at hmute
    exact parallel_omitted hread (f.parallel_predicate hv) fun next =>
      Option.isNone_iff_eq_none.mp (hmute next)

/-- The condition of a filter on a connection, which may be left out if it has none. -/
theorem parallel_connectionClause {known : (Nat → Nat) → Prop}
    {related related' edge edge' : Variable}
    (hrelated : ∀ g, known g → SameVariable g related related')
    (hedge : ∀ g, known g → SameVariable g edge edge') {setting : Setting} {link : Link}
    (path : String) {filter filter' : Option Json}
    (h : KeepsFilter (VacuousOnConnection setting link) filter filter') :
    Parallel known SameUpTo
      (optionalClause (connectionClause setting link related edge path) filter')
      (optionalClause (connectionClause setting link related' edge' path) filter) := by
  cases h with
  | kept => exact parallel_kept (fun f => f.parallel_predicate hrelated hedge) filter
  | @omitted value h =>
    obtain ⟨f, hread⟩ := (Json.filtersConnection_iff (.located (path ++ ".where"))).mp h.1
    have hmute := (FilterReader.mute_filter_and_connection _ _ _).2 hread (related', edge')
    rw [h.2] at hmute
    exact parallel_omitted hread (f.parallel_predicate hrelated hedge) fun next =>
      Option.isNone_iff_eq_none.mp (hmute next)

/-- A subquery is the same up to identities, if its parent, its pattern and its clauses are. -/
theorem SameUpTo.subquery {g : Nat → Nat} {clauses clauses' : List Statement}
    (h : SameUpTo g clauses clauses') {parent parent' : Variable} {pattern pattern' : Pattern}
    (hparent : SameVariable g parent parent') (hpattern : pattern.rename (.both g) = pattern') :
    SameUpTo g [subquery parent pattern clauses] [subquery parent' pattern' clauses'] := by
  rw [← hparent, ← hpattern]
  exact SameClauses.subquery h _ _

/-- Collecting related nodes is the same up to identities, if the projection is. -/
theorem sameUpTo_relatedResult {g : Nat → Nat} (link : Link)
    {related related' result result' : Variable} (hrelated : SameVariable g related related')
    (hresult : SameVariable g result result') {projection projection' : Expr}
    (hprojection : projection.rename (.both g) = projection') :
    SameUpTo g (relatedResult link related result projection)
      (relatedResult link related' result' projection') := by
  rw [← hrelated, ← hresult, ← hprojection]
  have hcollected : (collected link related).rename (.both g) =
      collected link (related.rename (.both g)) := by
    unfold collected
    split <;> rfl
  rw [relatedResult, relatedResult, ← hcollected]
  exact SameClauses.refl _

/-- Collecting the edges of a connection is the same up to identities, if their properties are. -/
theorem sameUpTo_connectionResult {g : Nat → Nat}
    {edgeMap edgeMap' edges edges' result result' : Variable}
    (hedgeMap : SameVariable g edgeMap edgeMap') (hedges : SameVariable g edges edges')
    (hresult : SameVariable g result result') {entries entries' : List (String × Expr)}
    (hentries : SameProperties g entries entries') :
    SameUpTo g (connectionResult edgeMap edges result entries)
      (connectionResult edgeMap' edges' result' entries') := by
  rw [← hedgeMap, ← hedges, ← hresult, ← hentries]
  exact SameClauses.refl _

mutual
/-- The plans of a request, without and with filters that have no condition. -/
theorem parallel_request {known : (Nat → Nat) → Prop} {v v' : Variable}
    (hv : ∀ g, known g → SameVariable g v v') (setting : Setting) (node : Node) (path : String)
    (wanted wanted' : Request) (h : Request.Omits setting node wanted wanted') :
    Parallel known SameAnswer (request setting node v path wanted')
        (request setting node v' path wanted) := by
  match wanted, wanted', h with
  | ⟨filter, sort, offset, limit, wanted⟩, _, .mk hfilter hwanted =>
    rw [request, request]
    refine .bind (parallel_filterClause hv path hfilter) fun filters filters' => ?_
    refine .bind (parallel_sortKeys (fun g hg => hv g hg.1) node path 0 sort)
      fun keys keys' => ?_
    refine .bind (parallel_selection (fun g hg => hv g hg.1.1) setting node path wanted _ hwanted)
      fun ⟨calls, projection⟩ ⟨calls', projection'⟩ => .pure fun g hg => ?_
    obtain ⟨⟨⟨-, hfilters⟩, hkeys⟩, hcalls, hprojection⟩ := hg
    exact ⟨(hfilters.append (hkeys.pageClause offset limit)).append hcalls, hprojection⟩
termination_by structural wanted

/-- The plans of a selection, without and with filters that have no condition. -/
theorem parallel_selection {known : (Nat → Nat) → Prop} {v v' : Variable}
    (hv : ∀ g, known g → SameVariable g v v') (setting : Setting) (node : Node) (path : String)
    (wanted wanted' : Selection) (h : Selection.Omits setting node wanted wanted') :
    Parallel known SameAnswer (selection setting node v path wanted')
        (selection setting node v' path wanted) := by
  match wanted, wanted', h with
  | ⟨fields, related, connected⟩, _, .mk hrelated hconnected =>
    rw [selection, selection]
    refine .bind (parallel_fieldEntries hv node path fields) fun entries entries' => ?_
    refine .bind (parallel_relationships (fun g hg => hv g hg.1) setting node path related _
      hrelated) fun ⟨first, more⟩ ⟨first', more'⟩ => ?_
    refine .bind (parallel_connections (fun g hg => hv g hg.1.1) setting node path connected _
      hconnected) fun ⟨second, others⟩ ⟨second', others'⟩ => .pure fun g hg => ?_
    obtain ⟨⟨⟨hknown, hentries⟩, hfirst, hmore⟩, hsecond, hothers⟩ := hg
    refine ⟨hfirst.append hsecond, ?_⟩
    rw [← hv g hknown, ← (hentries.append hmore).append hothers]
    rfl
termination_by structural wanted

/-- The plans of selections of related nodes, without and with filters that have no condition. -/
theorem parallel_relationships {known : (Nat → Nat) → Prop} {v v' : Variable}
    (hv : ∀ g, known g → SameVariable g v v') (setting : Setting) (node : Node) (path : String)
    (wanted wanted' : List RelationshipSelection)
    (h : RelationshipSelection.AllOmit setting node wanted wanted') :
    Parallel known SameCalls (relationships setting node v path wanted')
        (relationships setting node v' path wanted) := by
  match wanted, wanted', h with
  | [], _, .nil => exact .pure fun _ _ => ⟨SameClauses.refl [], rfl⟩
  | ⟨field, key, wanted⟩ :: rest, _, .cons hwanted hrest =>
    rw [relationships, relationships]
    refine parallel_selectedLink fun link hlink => ?_
    refine .bind (ParallelFresh.node _) fun related related' => ?_
    refine .bind (ParallelFresh.relationship _) fun edge edge' => ?_
    refine .narrow (SameEnds v v' related related' edge edge')
      (fun g hg => ⟨hv g hg.1.1, hg.1.2, hg.2⟩) ?_
    refine .bind (parallel_request (fun g hends => hends.related) setting link.target _ wanted _
      (hwanted link hlink)) fun ⟨clauses, projection⟩ ⟨clauses', projection'⟩ => ?_
    refine .bind ParallelFresh.value fun result result' => ?_
    refine .bind (parallel_relationships (fun g hg => hg.1.1.source) setting node path rest _
      hrest) fun ⟨calls, entries⟩ ⟨calls', entries'⟩ => .pure fun g hg => ?_
    obtain ⟨⟨⟨hends, hclauses, hprojection⟩, hresult⟩, hcalls, hentries⟩ := hg
    have hpattern := link.rename_pattern (.both g) v (some edge) related
    rw [hends.source, hends.related, Option.map_some, hends.edge] at hpattern
    have hcall := (hclauses.append
      (sameUpTo_relatedResult link hends.related hresult hprojection)).subquery hends.source
        hpattern
    exact ⟨hcall.append hcalls, congrArg₂ List.cons (by rw [← hresult]; rfl) hentries⟩
termination_by structural wanted

/-- The plans of selections of connections, without and with filters that have no condition. -/
theorem parallel_connections {known : (Nat → Nat) → Prop} {v v' : Variable}
    (hv : ∀ g, known g → SameVariable g v v') (setting : Setting) (node : Node) (path : String)
    (wanted wanted' : List ConnectionSelection)
    (h : ConnectionSelection.AllOmit setting node wanted wanted') :
    Parallel known SameCalls (connections setting node v path wanted')
        (connections setting node v' path wanted) := by
  match wanted, wanted', h with
  | [], _, .nil => exact .pure fun _ _ => ⟨SameClauses.refl [], rfl⟩
  | ⟨field, key, filter, sort, edgeFields, wanted⟩ :: rest, _, .cons hfilter hwanted hrest =>
    rw [connections, connections]
    refine parallel_selectedLink fun link hlink => ?_
    refine .bind (ParallelFresh.node _) fun related related' => ?_
    refine .bind (ParallelFresh.relationship _) fun edge edge' => ?_
    refine .narrow (SameEnds v v' related related' edge edge')
      (fun g hg => ⟨hv g hg.1.1, hg.1.2, hg.2⟩) ?_
    refine .bind (parallel_connectionClause (fun g hends => hends.related)
      (fun g hends => hends.edge) _ (hfilter link hlink)) fun filters filters' => ?_
    refine .bind (parallel_selection (fun g hg => hg.1.related) setting link.target _ wanted _
      (hwanted link hlink)) fun answer answer' => ?_
    refine .bind (parallel_connectionSortKeys (fun g hg => hg.1.1.related)
      (fun g hg => hg.1.1.edge) link _ 0 sort) fun keys keys' => ?_
    refine .bind (parallel_edgeEntries (fun g hg => hg.1.1.1.edge) link _ edgeFields)
      fun properties properties' => ?_
    -- The facts about what has been planned so far are put together, before more identities come
    -- in.
    refine .narrow (SameConnection v v' related related' edge edge' filters filters' answer answer'
      keys keys' properties properties') ?_ ?_
    · rintro g ⟨⟨⟨⟨hends, hfilters⟩, hanswer⟩, hkeys⟩, hproperties⟩
      exact ⟨hends, hfilters, hanswer, hkeys, hproperties⟩
    · refine .bind ParallelFresh.value fun edgeMap edgeMap' => ?_
      refine .bind ParallelFresh.value fun edges edges' => ?_
      refine .bind ParallelFresh.value fun result result' => ?_
      refine .bind (parallel_connections (fun g hg => hg.1.1.1.ends.source) setting node path
        rest _ hrest) fun ⟨calls, entries⟩ ⟨calls', entries'⟩ => .pure fun g hg => ?_
      obtain ⟨⟨⟨⟨hparts, hedgeMap⟩, hedges⟩, hresult⟩, hcalls, hentries⟩ := hg
      obtain ⟨⟨hv, hrelated, hedge⟩, hfilters, ⟨hclauses, hprojection⟩, hkeys, hproperties⟩ :=
        hparts
      have hpattern := link.rename_pattern (.both g) v (some edge) related
      rw [hv, hrelated, Option.map_some, hedge] at hpattern
      have hcall := (((hfilters.append hclauses).append (hkeys.pageClause none none)).append
        (sameUpTo_connectionResult hedgeMap hedges hresult
          (hproperties.concat hprojection "node"))).subquery hv hpattern
      exact ⟨hcall.append hcalls, congrArg₂ List.cons (by rw [← hresult]; rfl) hentries⟩
termination_by structural wanted
end

/-- The statements of parallel plans are built alike. -/
theorem build_eq_of_sameAnswer {g : Nat → Nat} (hg : Function.Injective g) {this : Variable}
    (hthis : SameVariable g this this) {answer answer' : List Statement × Expr}
    (h : SameAnswer g answer answer') (options : RenderOptions) :
    (Statement.matching false ⟨.of this, []⟩
        (answer.1 ++ [.returning false [.aliased answer.2 this]])).build options =
      (Statement.matching false ⟨.of this, []⟩
        (answer'.1 ++ [.returning false [.aliased answer'.2 this]])).build options := by
  have hclauses : SameUpTo g (answer.1 ++ [.returning false [.aliased answer.2 this]])
      (answer'.1 ++ [.returning false [.aliased answer'.2 this]]) := by
    refine h.1.append ?_
    rw [← h.2, SameUpTo, Statement.renameAll, Statement.rename, Item.renameAll, Item.rename, hthis]
    exact SameClauses.refl _
  rw [← Statement.build_renamed hg, Statement.rename]
  have hpattern : (⟨.of this, []⟩ : Pattern).rename (.both g) = ⟨.of this, []⟩ := by
    have hnode : (NodePattern.of this).rename (.both g) = .of (this.rename (.both g)) := rfl
    rw [Pattern.rename, hnode, hthis]
    rfl
  rw [hpattern]
  unfold Statement.build
  rw [Statement.render, Statement.render, hclauses.rendered]

/-- A request is answered alike without filters that have no condition. -/
theorem query_eq_of_omits {schema : Schema} {name : String} {wanted wanted' : Request}
    {settings : Settings}
    (h : ∀ node, schema.node? name = some node →
      Request.Omits ⟨schema, settings.maxFilterDepth⟩ node wanted wanted') :
    query schema name wanted settings = query schema name wanted' settings := by
  cases hnode : schema.node? name with
  | none => rw [query_of_node?_eq_none wanted settings hnode,
      query_of_node?_eq_none wanted' settings hnode]
  | some node =>
    have hthis (g : Nat → Nat) (hg : g 0 = 0) :
        SameVariable g (.namedNode 0 settings.variablePrefix node.labels)
          (.namedNode 0 settings.variablePrefix node.labels) :=
      sameVariable_self hg
    have hplans := parallel_request hthis ⟨schema, settings.maxFilterDepth⟩ node name _ _
      (h node hnode) 1 1
    rw [query, query, statement_of_node?_eq_some wanted settings hnode,
      statement_of_node?_eq_some wanted' settings hnode]
    generalize (request _ node _ name wanted').run 1 = planned' at hplans ⊢
    generalize (request _ node _ name wanted).run 1 = planned at hplans ⊢
    cases hplans with
    | error error => rfl
    | ok ids hascends hsame =>
      obtain ⟨g, hg, hfixed, hsends⟩ :=
        Plan.exists_sends Nat.zero_lt_one Nat.zero_lt_one hascends
      exact congrArg (Except.mapError ReadError.build)
        (build_eq_of_sameAnswer hg (hthis g hfixed) (hsame g hfixed hsends) _).symm

end Read

mutual
/-- Nothing has to be left out of a request. -/
theorem Request.Omits.refl (setting : Read.Setting) (node : Node) (wanted : Request) :
    wanted.Omits setting node wanted := by
  match wanted with
  | ⟨filter, _, _, _, wanted⟩ => exact .mk (.kept filter) (Selection.Omits.refl setting node wanted)
termination_by structural wanted

/-- No filter of a selection need be left out. -/
theorem Selection.Omits.refl (setting : Read.Setting) (node : Node) (wanted : Selection) :
    wanted.Omits setting node wanted := by
  match wanted with
  | ⟨_, related, connected⟩ =>
    exact .mk (RelationshipSelection.AllOmit.refl setting node related)
      (ConnectionSelection.AllOmit.refl setting node connected)
termination_by structural wanted

/-- No filter of selections of related nodes need be left out. -/
theorem RelationshipSelection.AllOmit.refl (setting : Read.Setting) (node : Node)
    (wanted : List RelationshipSelection) :
    RelationshipSelection.AllOmit setting node wanted wanted := by
  match wanted with
  | [] => exact .nil
  | ⟨_, _, wanted⟩ :: rest =>
    have hrest := RelationshipSelection.AllOmit.refl setting node rest
    exact .cons (fun link hlink => Request.Omits.refl setting link.target wanted) hrest
termination_by structural wanted

/-- No filter of selections of connections need be left out. -/
theorem ConnectionSelection.AllOmit.refl (setting : Read.Setting) (node : Node)
    (wanted : List ConnectionSelection) :
    ConnectionSelection.AllOmit setting node wanted wanted := by
  match wanted with
  | [] => exact .nil
  | ⟨_, _, filter, _, _, wanted⟩ :: rest =>
    have hrest := ConnectionSelection.AllOmit.refl setting node rest
    refine .cons (fun link hlink => .kept filter) (fun link hlink => ?_) hrest
    exact Selection.Omits.refl setting link.target wanted
termination_by structural wanted
end

/-- A filter is compiled to no predicate exactly if it has no condition. -/
theorem wherePredicate_isVacuous {schema : Schema} {limit next : Nat} {element : Element}
    {target : Variable} {value : Json} {result : Option Predicate}
    (h : wherePredicate schema limit element target next value = .ok result) :
    result = none ↔ value.isVacuous schema (.element element) := by
  obtain ⟨f, hread, h⟩ := FilterReader.bind_eq_ok h
  obtain rfl := Except.ok.inj h
  rw [← (FilterReader.mute_filter_and_connection schema _ _).1 hread target next]
  exact Option.isNone_iff_eq_none.symm

/-- Every predicate in the predicate of a filter is rendered to a text. -/
theorem render_part_of_wherePredicate {schema : Schema} {limit next : Nat} {element : Element}
    {target : Variable} {value : Json} {p : Predicate}
    (h : wherePredicate schema limit element target next value = .ok (some p)) {q : Predicate}
    (hq : .predicate q ∈ p.parts) (context : Context) :
    ∃ text after, q.render.result context = (.ok (some text), after) := by
  obtain ⟨f, hread, h⟩ := FilterReader.bind_eq_ok h
  have hp := f.ofFilter_predicate target next p (Except.ok.inj h)
  have hrendered : ∀ part ∈ p.parts, ∀ q, part = .predicate q →
      ∃ text after, q.render.result context = (.ok (some text), after) := by
    refine hp.forall_parts ?_ ?_
    · rintro vs q hq _ ⟨⟩
      exact hq.render_eq_some context
    · rintro e he q ⟨⟩
  exact hrendered _ hq q rfl

/-- What has no condition leaves no trace. An accepted filter is compiled to no predicate exactly
if it has no condition. Otherwise every predicate inside the predicate that it is compiled to is
rendered to a text, in every context. And a request is answered alike, by the same query or with
the same error, without any filters in it that have no condition. -/
theorem absent_iff_vacuous (schema : Schema) :
    (∀ {limit next : Nat} {element : Element} {target : Variable} {value : Json}
        {result : Option Predicate},
      wherePredicate schema limit element target next value = .ok result →
        (result = none ↔ value.isVacuous schema (.element element)) ∧
        ∀ p, result = some p → ∀ q, .predicate q ∈ p.parts → ∀ context,
          ∃ text after, q.render.result context = (.ok (some text), after)) ∧
    ∀ {name : String} {wanted wanted' : Request} {settings : Settings},
      (∀ node, schema.node? name = some node →
        wanted.Omits ⟨schema, settings.maxFilterDepth⟩ node wanted') →
      Read.query schema name wanted settings = Read.query schema name wanted' settings := by
  refine ⟨fun h => ⟨wherePredicate_isVacuous h, ?_⟩, Read.query_eq_of_omits⟩
  rintro p rfl q hq context
  exact render_part_of_wherePredicate h hq context

/-- A request for films and their cast, with filters at all levels. -/
def castWanted (filter related connected : Option Json) : Request :=
  ⟨filter, [], none, some 2,
    ⟨["title"], [⟨"cast", none, ⟨related, [], none, none, ⟨["name"], [], []⟩⟩⟩],
      [⟨"cast", none, connected, [], ["role"], ⟨["name"], [], []⟩⟩]⟩⟩

/-- A filter on films without a condition. -/
def vacuousFilter : Json :=
  .object [("OR", .array [.object [], .object [("castAggregate",
    .object [("node", .object [("AND", .array [.object []])])])]])]

/-- A filter on the cast without a condition. -/
def vacuousConnection : Json :=
  .object [("node_NOT", .object []), ("AND", .array [.object [("edge", .object [])]])]

/-- The filters on all three levels of the request have no condition. -/
theorem castWanted_omits :
    (castWanted (some vacuousFilter) (some (.object [])) (some vacuousConnection)).Omits
      ⟨filmSchema, 32⟩ filmNode (castWanted none none none) := by
  have hlink : filmNode.link? filmSchema "cast" =
      some ⟨"cast", ⟨"ACTED_IN", .incoming, "Person", true,
        [⟨"role", none, .scalar ⟨.string, false, none⟩⟩]⟩,
        ⟨"Person", ["Person"], [⟨"name", none, .scalar ⟨.string, false, none⟩⟩]⟩⟩ := rfl
  refine .mk (.omitted ⟨?_, by decide +kernel⟩) (.mk (.cons (fun link h => ?_) .nil)
    (.cons (fun link h => ?_) (fun link _ => .refl _ _ _) .nil))
  · exact (Json.filtersElement_iff .root).mpr (Plan.exists_of_isOk (by decide +kernel))
  · obtain rfl := Option.some.inj (hlink.symm.trans h)
    refine .mk (.omitted ⟨?_, by decide +kernel⟩) (.refl _ _ _)
    exact (Json.filtersElement_iff .root).mpr (Plan.exists_of_isOk (by decide +kernel))
  · obtain rfl := Option.some.inj (hlink.symm.trans h)
    refine .omitted ⟨?_, by decide +kernel⟩
    exact (Json.filtersConnection_iff .root).mpr (Plan.exists_of_isOk (by decide +kernel))

/-- The filter on films is accepted without a condition. Another one has a condition, all parts of
which are printed. The request is printed alike with and without its three filters. -/
theorem castWanted_absent :
    (vacuousFilter.isVacuous filmSchema (.element filmNode.element) ∧
      wherePredicate filmSchema 32 filmNode.element (.namedNode 0 "this" []) 1 vacuousFilter =
        .ok none) ∧
    (∃ p, wherePredicate filmSchema 32 filmNode.element (.namedNode 0 "this" []) 1 filmFilter =
        .ok (some p) ∧
      ∀ q, .predicate q ∈ p.parts → ∀ context,
        ∃ text after, q.render.result context = (.ok (some text), after)) ∧
    ∃ result,
      Read.query filmSchema "Film" (castWanted (some vacuousFilter) (some (.object []))
        (some vacuousConnection)) {} = .ok result ∧
      Read.query filmSchema "Film" (castWanted none none none) {} = .ok result := by
  obtain ⟨hwhere, hquery⟩ := absent_iff_vacuous filmSchema
  refine ⟨⟨by decide +kernel, ?_⟩, ?_, ?_⟩
  · obtain ⟨result, hresult⟩ := Plan.exists_of_isOk (show (wherePredicate filmSchema 32
      filmNode.element (.namedNode 0 "this" []) 1 vacuousFilter).isOk = true by decide +kernel)
    rw [hresult, (hwhere hresult).1.mpr (by decide +kernel)]
  · obtain ⟨result, hresult⟩ := Plan.exists_of_isOk (show (wherePredicate filmSchema 32
      filmNode.element (.namedNode 0 "this" []) 1 filmFilter).isOk = true by decide +kernel)
    obtain ⟨habsent, hrendered⟩ := hwhere hresult
    cases result with
    | none => exact absurd (habsent.mp rfl) (by decide +kernel)
    | some p => exact ⟨p, hresult, hrendered p rfl⟩
  · have hsame : Read.query filmSchema "Film" (castWanted (some vacuousFilter) (some (.object []))
        (some vacuousConnection)) {} =
        Read.query filmSchema "Film" (castWanted none none none) {} := by
      refine hquery fun node hnode => ?_
      obtain rfl : filmNode = node := Option.some.inj hnode
      exact castWanted_omits
    obtain ⟨result, hresult⟩ := Plan.exists_of_isOk (show (Read.query filmSchema "Film"
      (castWanted none none none) {}).isOk = true by decide +kernel)
    exact ⟨result, hsame.trans hresult, hresult⟩

end GraphRead
