import GraphRead.Proofs.Filter.Erasure
import GraphRead.Proofs.Read.Values
import GraphRead.Proofs.Rendering.Simulation

/-!
# Values do not reach the text of a query

Erasing a request replaces the values of its filters and the numbers of its pages
by fixed ones. This file proves that the statements of two requests that are the
same after erasing differ only in the values of their parameters, and hence that
their queries have the same text and the same names of parameters.
-/

namespace GraphRead

open Relabelling (forget)

/-- A number of rows, without the number. -/
def eraseRows (count : Option UInt64) : Option UInt64 := count.map fun _ => 0

mutual
/-- The request for nodes of a kind, without its values. -/
def Request.erase (schema : Schema) (node : Node) : Request → Request
  | ⟨filter, sort, offset, limit, selection⟩ =>
    ⟨filter.map fun filter => filter.erase schema (.nested (.element node.element)), sort,
      eraseRows offset, eraseRows limit, selection.erase schema node⟩
termination_by structural request => request

/-- The selection without its values. -/
def Selection.erase (schema : Schema) (node : Node) : Selection → Selection
  | ⟨fields, related, connected⟩ =>
    ⟨fields, RelationshipSelection.eraseAll schema node related,
      ConnectionSelection.eraseAll schema node connected⟩
termination_by structural selection => selection

/-- Selections of related nodes without their values. -/
def RelationshipSelection.eraseAll (schema : Schema) (node : Node) :
    List RelationshipSelection → List RelationshipSelection
  | [] => []
  | ⟨field, key, request⟩ :: rest =>
    (match node.link? schema field with
      | some link => ⟨field, key, request.erase schema link.target⟩
      | none => ⟨field, key, request⟩) :: RelationshipSelection.eraseAll schema node rest
termination_by structural selections => selections

/-- Selections of connections without their values. -/
def ConnectionSelection.eraseAll (schema : Schema) (node : Node) :
    List ConnectionSelection → List ConnectionSelection
  | [] => []
  | ⟨field, key, filter, sort, edgeFields, selection⟩ :: rest =>
    (match node.link? schema field with
      | some link =>
        ⟨field, key, filter.map fun filter => filter.erase schema (.nested (.connection link)),
          sort, edgeFields, selection.erase schema link.target⟩
      | none => ⟨field, key, filter, sort, edgeFields, selection⟩)
      :: ConnectionSelection.eraseAll schema node rest
termination_by structural selections => selections
end

/-- Two requests for nodes of a kind differ only in the values of their filters and in the numbers
of their pages. -/
def Request.SameShape (schema : Schema) (name : String) (first second : Request) : Prop :=
  ∀ node ∈ schema.node? name, first.erase schema node = second.erase schema node

namespace Plan

/-- Two plans take the same identities, fail alike, and give the same result up to what is
forgotten. -/
def Alike {α γ : Type} (view : α → γ) (first second : Plan α) : Prop :=
  ∀ next, (first.run next).map (Prod.map view id) = (second.run next).map (Prod.map view id)

namespace Alike

variable {α β γ δ : Type} {view : α → γ} {view' : β → δ}

/-- A plan is like itself. -/
theorem refl (view : α → γ) (plan : Plan α) : Alike view plan plan := by
  intro next
  rfl

/-- Results that look the same are alike. -/
theorem pure {a b : α} (h : view a = view b) :
    Alike view (Pure.pure a : Plan α) (Pure.pure b) := by
  intro next
  exact congrArg (fun c => Except.ok (c, next)) h

/-- Alike computations are alike as plans. -/
theorem fresh {first second : Fresh α} (h : Fresh.Alike view first second) :
    Alike view (Plan.fresh first) (Plan.fresh second) := by
  intro next
  obtain ⟨hnext, hview⟩ := h next
  exact congrArg Except.ok (Prod.ext hview hnext)

/-- Alike plans are continued alike. They fail with the same error, or they hand out the same
identities. -/
theorem bind {first second : Plan α} {next next' : α → Plan β} (h : Alike view first second)
    (hnext : ∀ a b, view a = view b → Alike view' (next a) (next' b)) :
    Alike view' (first >>= next) (second >>= next') := by
  intro start
  have hstart := h start
  rw [StateT.run_bind, StateT.run_bind]
  cases hfirst : first.run start with
  | error error =>
    cases hsecond : second.run start with
    | error error' =>
      simp only [hfirst, hsecond, Except.map, Except.error.injEq] at hstart
      rw [hstart]
      rfl
    | ok result => simp [hfirst, hsecond, Except.map] at hstart
  | ok result =>
    cases hsecond : second.run start with
    | error error' => simp [hfirst, hsecond, Except.map] at hstart
    | ok result' =>
      obtain ⟨a, last⟩ := result
      obtain ⟨b, last'⟩ := result'
      simp only [hfirst, hsecond, Except.map, Prod.map, Except.ok.injEq, Prod.mk.injEq] at hstart
      obtain ⟨hview, hlast⟩ := hstart
      obtain rfl : last = last' := hlast
      exact hnext a b hview last

/-- Plans with a common first step, which may be known to have succeeded. -/
theorem bindSame {plan : Plan α} {next next' : α → Plan β}
    (h : ∀ a, (∃ start last, plan.run start = .ok (a, last)) → Alike view' (next a) (next' a)) :
    Alike view' (plan >>= next) (plan >>= next') := by
  intro start
  rw [StateT.run_bind, StateT.run_bind]
  cases hplan : plan.run start with
  | error error => rfl
  | ok result => exact h result.1 ⟨start, result.2, hplan⟩ result.2

end Alike

end Plan

/-- Relabelling clauses in a row relabels each. -/
theorem Statement.relabelAll_eq_map (f : Relabelling) (statements : List Statement) :
    Statement.relabelAll f statements = statements.map (Statement.relabel f) := by
  induction statements with
  | nil => rfl
  | cons s rest ih => simp [Statement.relabelAll, ih]

namespace Read

/-- Clauses without the values of their parameters. -/
def clauseView (clauses : List Statement) : List Statement := clauses.map (Statement.relabel forget)

/-- Clauses in a row look as the first and then the others do. -/
@[simp]
theorem clauseView_append (first second : List Statement) :
    clauseView (first ++ second) = clauseView first ++ clauseView second :=
  List.map_append

/-- The results of planning without the values of parameters. -/
def resultView {α : Type} (result : List Statement × α) : List Statement × α :=
  (clauseView result.1, result.2)

/-- Conditions that look the same make clauses that look the same. -/
theorem clauseView_condition {p q : Option Predicate} (h : Predicate.view p = Predicate.view q) :
    clauseView [.condition (.predicate p)] = clauseView [.condition (.predicate q)] := by
  have hview (p : Option Predicate) : clauseView [.condition (.predicate p)] =
      [.condition (.predicate (Predicate.view p))] := by
    cases p <;>
      simp [clauseView, Statement.condition, Condition.predicate?, Statement.relabel,
        Predicate.relabelAll, Predicate.view]
  rw [hview, hview, h]

/-- The clause of a page depends on its numbers only in what is forgotten. -/
theorem clauseView_pageClause (keys : List (Expr × SortDirection)) (offset limit : Option UInt64) :
    clauseView (pageClause keys (eraseRows offset) (eraseRows limit)) =
      clauseView (pageClause keys offset limit) := by
  cases offset <;> cases limit <;> cases keys <;>
    simp [pageClause, eraseRows, orderClause, clauseView, Statement.relabel,
      Statement.relabelAll, forget]

/-- A subquery depends on the values in its clauses only in what is forgotten. -/
theorem relabel_subquery {parent : Variable} {pattern : Pattern} {first second : List Statement}
    (h : clauseView first = clauseView second) :
    (subquery parent pattern first).relabel forget =
      (subquery parent pattern second).relabel forget := by
  simp only [subquery, Statement.relabel, Statement.relabelAll_eq_map]
  unfold clauseView at h
  rw [h]

variable {setting : Setting} {node : Node} {v related edge : Variable} {link : Link}
  {path : String}

/-- A clause is alike after erasing if its filter is read alike and compiled alike. -/
theorem alike_conditionClause {β : Type} {place : Place} {read : Json → FilterResult β}
    {erase : β → β} {compile : β → Fresh (Option Predicate)}
    (hread : ∀ value, read (value.erase setting.schema (.nested place)) = (read value).map erase)
    (hcompile : ∀ filter,
      Fresh.Alike Predicate.view (compile (erase filter)) (compile filter))
    (filter : Option Json) :
    Plan.Alike clauseView
      (optionalClause (fun value => do
        let filter ← Plan.checked .filter (read value)
        let predicate ← Plan.fresh (compile filter)
        return .condition (.predicate predicate))
        (filter.map fun filter => filter.erase setting.schema (.nested place)))
      (optionalClause (fun value => do
        let filter ← Plan.checked .filter (read value)
        let predicate ← Plan.fresh (compile filter)
        return .condition (.predicate predicate)) filter) := by
  cases filter with
  | none => exact .refl _ _
  | some value =>
    have hclause : Plan.Alike (fun clause => clauseView [clause])
        (do
          let filter ← Plan.checked .filter (read (value.erase setting.schema (.nested place)))
          let predicate ← Plan.fresh (compile filter)
          return .condition (.predicate predicate))
        (do
          let filter ← Plan.checked .filter (read value)
          let predicate ← Plan.fresh (compile filter)
          return .condition (.predicate predicate)) := by
      rw [hread]
      cases read value with
      | error error => exact fun _ => rfl
      | ok filter =>
        have hpredicate := Plan.Alike.fresh (hcompile filter)
        exact hpredicate.bind fun p q h => .pure (clauseView_condition h)
    exact hclause.bind fun _ _ h => .pure h

/-- The clause of an erased filter looks the same, and it is refused for the same reason. -/
theorem alike_filterClause (element : Element) (filter : Option Json) :
    Plan.Alike clauseView
      (optionalClause (filterClause setting element v path)
        (filter.map fun filter => filter.erase setting.schema (.nested (.element element))))
      (optionalClause (filterClause setting element v path) filter) := by
  refine alike_conditionClause (Filter.read_erase _ _ _ _) (fun f => ?_) filter
  exact f.alike_predicate v

/-- The clause of an erased filter on a connection looks the same, and it is refused for the same
reason. -/
theorem alike_connectionClause (filter : Option Json) :
    Plan.Alike clauseView
      (optionalClause (connectionClause setting link related edge path)
        (filter.map fun filter => filter.erase setting.schema (.nested (.connection link))))
      (optionalClause (connectionClause setting link related edge path) filter) := by
  refine alike_conditionClause (ConnectionFilter.read_erase _ _ _ _) (fun f => ?_) filter
  exact f.alike_predicate related edge

mutual
/-- The plan of an erased request is alike. -/
theorem alike_request (setting : Setting) (node : Node) (v : Variable) (path : String)
    (wanted : Request) :
    Plan.Alike resultView
      (request setting node v path (wanted.erase setting.schema node))
      (request setting node v path wanted) := by
  match wanted with
  | ⟨filter, sort, offset, limit, wanted⟩ =>
    rw [Request.erase, request, request]
    refine .bind (alike_filterClause node.element filter) fun filters filters' hfilters => ?_
    refine .bindSame fun keys _ => ?_
    refine .bind (alike_selection setting node v path wanted) fun result result' hresult => ?_
    obtain ⟨hcalls, hprojection⟩ := Prod.mk.inj hresult
    refine .pure (Prod.ext ?_ hprojection)
    simp only [resultView, clauseView_append, hfilters, clauseView_pageClause]
    exact congrArg _ hcalls
termination_by structural wanted

/-- The plan of an erased selection is alike. -/
theorem alike_selection (setting : Setting) (node : Node) (v : Variable) (path : String)
    (wanted : Selection) :
    Plan.Alike resultView
      (selection setting node v path (wanted.erase setting.schema node))
      (selection setting node v path wanted) := by
  match wanted with
  | ⟨fields, related, connected⟩ =>
    rw [Selection.erase, selection, selection]
    refine .bindSame fun entries _ => ?_
    refine .bind (alike_relationships setting node v path related) fun first first' hfirst => ?_
    refine .bind (alike_connections setting node v path connected)
      fun second second' hsecond => ?_
    obtain ⟨hcalls, hentries⟩ := Prod.mk.inj hfirst
    obtain ⟨hcalls', hentries'⟩ := Prod.mk.inj hsecond
    refine .pure (Prod.ext ?_ ?_)
    · simp only [resultView, clauseView_append, hcalls, hcalls']
    · simp only [resultView, hentries, hentries']
termination_by structural wanted

/-- The plans of erased selections of related nodes are alike. -/
theorem alike_relationships (setting : Setting) (node : Node) (v : Variable) (path : String)
    (selections : List RelationshipSelection) :
    Plan.Alike resultView
      (relationships setting node v path
        (RelationshipSelection.eraseAll setting.schema node selections))
      (relationships setting node v path selections) := by
  match selections with
  | [] => exact .refl _ _
  | ⟨field, key, wanted⟩ :: rest =>
    rw [RelationshipSelection.eraseAll]
    cases hlink? : node.link? setting.schema field with
    | none =>
      rw [relationships, relationships]
      refine .bindSame fun link hlink => ?_
      obtain ⟨_, _, hlink⟩ := hlink
      simp [(link?_of_selectedLink hlink).1] at hlink?
    | some found =>
      rw [relationships, relationships]
      refine .bindSame fun link hlink => ?_
      obtain ⟨_, _, hlink⟩ := hlink
      obtain rfl : found = link :=
        Option.some.inj (hlink?.symm.trans (link?_of_selectedLink hlink).1)
      refine .bindSame fun related _ => .bindSame fun edge _ => ?_
      refine .bind (alike_request setting found.target related _ wanted)
        fun result result' hresult => ?_
      obtain ⟨hclauses, hprojection⟩ := Prod.mk.inj hresult
      refine .bindSame fun value _ => ?_
      refine .bind (alike_relationships setting node v path rest) fun others others' hothers => ?_
      obtain ⟨hcalls, hentries⟩ := Prod.mk.inj hothers
      refine .pure (Prod.ext ?_ ?_)
      · refine List.cons_eq_cons.mpr ⟨relabel_subquery ?_, hcalls⟩
        rw [clauseView_append, clauseView_append, hclauses, hprojection]
      · exact congrArg (MapEntry.computed (relationshipKey field key) (.var value) :: ·) hentries
termination_by structural selections

/-- The plans of erased selections of connections are alike. -/
theorem alike_connections (setting : Setting) (node : Node) (v : Variable) (path : String)
    (selections : List ConnectionSelection) :
    Plan.Alike resultView
      (connections setting node v path
        (ConnectionSelection.eraseAll setting.schema node selections))
      (connections setting node v path selections) := by
  match selections with
  | [] => exact .refl _ _
  | ⟨field, key, filter, sort, edgeFields, wanted⟩ :: rest =>
    rw [ConnectionSelection.eraseAll]
    -- A filter on a connection is erased only if the connection exists. Otherwise both plans fail.
    cases hlink? : node.link? setting.schema field with
    | none =>
      rw [connections, connections]
      refine .bindSame fun link hlink => ?_
      obtain ⟨_, _, hlink⟩ := hlink
      simp [(link?_of_selectedLink hlink).1] at hlink?
    | some found =>
      rw [connections, connections]
      refine .bindSame fun link hlink => ?_
      obtain ⟨_, _, hlink⟩ := hlink
      obtain rfl : found = link :=
        Option.some.inj (hlink?.symm.trans (link?_of_selectedLink hlink).1)
      refine .bindSame fun related _ => .bindSame fun edge _ => ?_
      refine .bind (alike_connectionClause filter) fun filters filters' hfilters => ?_
      refine .bind (alike_selection setting found.target related _ wanted)
        fun result result' hresult => ?_
      obtain ⟨hclauses, hprojection⟩ := Prod.mk.inj hresult
      refine .bindSame fun keys _ => .bindSame fun properties _ => ?_
      refine .bindSame fun edgeMap _ => .bindSame fun edges _ => .bindSame fun value _ => ?_
      refine .bind (alike_connections setting node v path rest) fun others others' hothers => ?_
      obtain ⟨hcalls, hentries⟩ := Prod.mk.inj hothers
      refine .pure (Prod.ext ?_ ?_)
      · refine List.cons_eq_cons.mpr ⟨relabel_subquery ?_, hcalls⟩
        simp only [clauseView_append, hfilters, hclauses, hprojection]
      · exact congrArg (MapEntry.computed (connectionKey field key) (.var value) :: ·) hentries
termination_by structural selections
end

/-- Requests that are the same after erasing have alike plans. -/
theorem alike_of_erase_eq {first second : Request}
    (h : first.erase setting.schema node = second.erase setting.schema node) :
    Plan.Alike resultView (request setting node v path first)
      (request setting node v path second) := by
  intro next
  rw [← alike_request setting node v path first next, h,
    alike_request setting node v path second next]

/-- The statements of two requests of the same shape differ only in the values of parameters. -/
theorem relabel_statement {schema : Schema} {name : String} {first second : Request}
    {settings : Settings} (hshape : first.SameShape schema name second) {result : Statement}
    (h : statement schema name first settings = .ok result) :
    ∃ result', statement schema name second settings = .ok result' ∧
      result'.relabel forget = result.relabel forget := by
  obtain ⟨node, hnode, h⟩ := FilterReader.bind_eq_ok h
  obtain ⟨⟨⟨clauses, projection⟩, last⟩, hrequest, h⟩ := FilterReader.bind_eq_ok h
  obtain rfl := Except.ok.inj h
  have hfound := Schema.node?_of_node (Plan.eq_ok_of_mapError hnode)
  let this := Variable.namedNode 0 settings.variablePrefix node.labels
  have halike : Plan.Alike resultView
      (request ⟨schema, settings.maxFilterDepth⟩ node this name first)
      (request ⟨schema, settings.maxFilterDepth⟩ node this name second) :=
    alike_of_erase_eq (hshape node hfound)
  have hstart := halike 1
  rw [hrequest] at hstart
  cases hsecond : (request ⟨schema, settings.maxFilterDepth⟩ node this name second).run 1 with
  | error error => simp [hsecond, Except.map] at hstart
  | ok planned =>
    obtain ⟨⟨clauses', projection'⟩, last'⟩ := planned
    simp only [hsecond, Except.map, Prod.map, resultView, Except.ok.injEq, Prod.mk.injEq]
      at hstart
    obtain ⟨⟨hclauses, rfl⟩, -⟩ := hstart
    refine ⟨.matching false ⟨.of this, []⟩
      (clauses' ++ [.returning false [.aliased projection this]]), ?_, ?_⟩
    · simp only [statement, hnode, bind, Except.bind]
      rw [hsecond]
      rfl
    · simp only [Statement.relabel, Statement.relabelAll_eq_map, List.map_append]
      exact congrArg (fun clauses => Statement.matching _ _ (clauses ++ _)) hclauses.symm

/-- Forgetting values keeps the parameters of a statement apart, since they have different
identities. -/
theorem forget_respects {schema : Schema} {name : String} {wanted : Request} {settings : Settings}
    {result : Statement} (h : statement schema name wanted settings = .ok result) :
    forget.Respects (fun _ _ => True) fun p => Event.param p ∈ result.events where
  separates hp hq heq := by
    obtain ⟨node, hi, -, hbinds⟩ := binds_statement h
    have hidentity := congrArg Param.identity heq
    exact hbinds.eq_of_identity hp hq hidentity
  values _ := trivial
  counts _ := trivial

/-- Tables whose rows match have the same names. -/
theorem map_fst_eq_of_rowsMatch {similar : Json → Json → Prop}
    {first second : List (String × Json)} (h : List.Forall₂ (RowsMatch similar) first second) :
    second.map Prod.fst = first.map Prod.fst := by
  induction h with
  | nil => rfl
  | cons hrow _ ih => rw [List.map_cons, List.map_cons, hrow.1, ih]

/-- The values of a request never reach the text of its query: of two requests that differ only in
the values of filters and in the numbers of pages, if one has a query, so has the other, with the
same text and with the same names of parameters in the same order. -/
theorem query_independent_of_values {schema : Schema} {name : String} {first second : Request}
    {settings : Settings} (hshape : first.SameShape schema name second) {result : Query}
    (h : query schema name first settings = .ok result) :
    ∃ result', query schema name second settings = .ok result' ∧
      result'.text = result.text ∧
      result'.params.map Prod.fst = result.params.map Prod.fst := by
  obtain ⟨s, hs, h⟩ := FilterReader.bind_eq_ok h
  obtain ⟨s', hs', hrelabel⟩ := relabel_statement hshape hs
  obtain ⟨blank, hblank, hmatches⟩ :=
    Statement.build_relabel_ok (forget_respects hs) (fun _ hp => hp) (Plan.eq_ok_of_mapError h)
  rw [← hrelabel] at hblank
  -- The second statement is built too, since a failure would show in the relabelled one.
  cases hbuild' : s'.build settings.toRenderOptions with
  | error error =>
    have herror := Statement.build_relabel_error (forget_respects hs') (fun _ hp => hp) hbuild'
    simp [herror] at hblank
  | ok result' =>
    obtain ⟨blank', hblank', hmatches'⟩ :=
      Statement.build_relabel_ok (forget_respects hs') (fun _ hp => hp) hbuild'
    obtain rfl : blank = blank' := Except.ok.inj (hblank.symm.trans hblank')
    refine ⟨result', ?_, hmatches'.text.symm.trans hmatches.text,
      (map_fst_eq_of_rowsMatch hmatches'.params).symm.trans
        (map_fst_eq_of_rowsMatch hmatches.params)⟩
    simp [query, hs', bind, Except.bind, hbuild', Except.mapError]

/-- The request for films with other values, some of another kind and some with text of a query. -/
def otherFilmRequest : Request where
  filter := some <| .object
    [("title_IN", .array []), ("year", .null),
      ("cast_ALL", .object [("OR", .array [.object [("name", .bool true)], .object []])]),
      ("castAggregate",
        .object
          [("count_GT", .string "$param0 //"),
            ("node", .object [("name_SHORTEST_LT", .ofNat 1)])])]
  sort := [⟨"year", .descending⟩]
  offset := some 0
  limit := some 7
  selection :=
    ⟨["title"],
      [⟨"cast", none,
        ⟨some (.object [("name_NOT", .string "` DETACH DELETE")]), [], none, some 2,
          ⟨["name"], [], []⟩⟩⟩],
      [⟨"cast", none, some (.object [("edge", .object [("role", .array [])])]), [], ["role"],
        ⟨["name"], [], []⟩⟩]⟩

/-- Two requests for films that differ in their values only have one text and the same names of
parameters. -/
theorem filmRequest_text : filmRequest.SameShape filmSchema "Film" otherFilmRequest ∧
    ∃ result result', query filmSchema "Film" filmRequest {} = .ok result ∧
      query filmSchema "Film" otherFilmRequest {} = .ok result' ∧ result'.text = result.text ∧
      result'.params.map Prod.fst = result.params.map Prod.fst := by
  have hshape : filmRequest.SameShape filmSchema "Film" otherFilmRequest := by
    intro node hnode
    obtain rfl : filmNode = node := Option.some.inj hnode
    rfl
  have hok : (query filmSchema "Film" filmRequest {}).isOk = true := by decide +kernel
  cases hquery : query filmSchema "Film" filmRequest {} with
  | error error => simp [hquery, Except.isOk, Except.toBool] at hok
  | ok result =>
    obtain ⟨result', hother, htext, hnames⟩ := query_independent_of_values hshape hquery
    exact ⟨hshape, result, result', rfl, hother, htext, hnames⟩

end Read

end GraphRead
