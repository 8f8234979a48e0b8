import GraphRead.Proofs.Filter.Shape
import GraphRead.Proofs.Read.Answer
import GraphRead.Proofs.Rendering.Scoping

/-!
# Queries of requests are well scoped

Every variable that the query of a request reads can be seen where it is read, in
conditions, sort keys and patterns as well as in the projections that rendering
checks. It follows that the query of a request is never refused by rendering.
-/

namespace GraphRead

namespace Sight

variable {sight : Sight} {v : Variable} {vs : List Variable}

/-- What is seen outside is seen in a nested statement. -/
theorem Sees.nested (h : sight.Sees v) : sight.nested.Sees v := by
  refine h.imp (fun hdeclared => ?_) id
  exact .inr (List.mem_append.mpr hdeclared)

/-- What is added is declared. -/
theorem declares_adding (h : v ∈ vs) : (sight.adding vs).Declares v :=
  .inl (List.mem_append_left _ h)

/-- What is added is seen. -/
theorem sees_adding (h : v ∈ vs) : (sight.adding vs).Sees v := .inl (declares_adding h)

/-- What is bound is seen. -/
theorem sees_binding (h : v ∈ vs) : (sight.binding vs).Sees v := .inr (List.mem_append_left _ h)

/-- What is kept is seen. -/
theorem sees_only (h : v ∈ vs) : (sight.only vs).Sees v := .inl (.inl h)

end Sight

/-- Predicates in a row are well scoped if each is. -/
theorem Predicate.allScoped_iff {parts : List Predicate} {sight : Sight} :
    Predicate.AllScoped parts sight ↔ ∀ p ∈ parts, p.Scoped sight := by
  induction parts with
  | nil => simp [Predicate.AllScoped]
  | cons p rest ih => simp [Predicate.AllScoped, ih]

/-- Items in a row are well scoped if each is. -/
theorem Item.allScoped_iff {items : List Item} {sight : Sight} :
    Item.AllScoped items sight ↔ ∀ item ∈ items, item.Scoped sight := by
  induction items with
  | nil => simp [Item.AllScoped]
  | cons item rest ih => simp [Item.AllScoped, ih]

/-- A predicate that may be absent is well scoped if it is when it is there. -/
theorem Predicate.optionalScoped_iff {part : Option Predicate} {sight : Sight} :
    Predicate.OptionalScoped part sight ↔ ∀ p ∈ part, p.Scoped sight := by
  cases part <;> simp [Predicate.OptionalScoped]

namespace Link.LeadsFrom

variable {link : Link} {source : Variable} {pattern : Pattern} {new : List Variable}

/-- The pattern starts from its source. -/
theorem anchors (h : link.LeadsFrom source pattern new) {sight : Sight} (hv : sight.Sees source) :
    sight.Anchors pattern := by
  cases h <;> exact ⟨source, rfl, hv⟩

/-- The pattern introduces its new variables. -/
theorem new_subset (h : link.LeadsFrom source pattern new) : new ⊆ pattern.bound := by
  cases h with
  | related relatedId => exact List.subset_cons_self ..
  | connected relatedId edgeId => exact List.subset_cons_self ..

end Link.LeadsFrom

/-- An expression can be projected: it reads only what is declared. -/
def Expr.Projectable (e : Expr) (sight : Sight) : Prop :=
  e.Scoped sight ∧ ∀ v ∈ e.reads, sight.Declares v

/-- An entry of a map can be projected: it is stored, or its value can be projected. -/
def MapEntry.Projectable (sight : Sight) : MapEntry → Prop
  | .stored _ => True
  | .computed _ e => e.Projectable sight

namespace Expr

variable {sight : Sight} {v : Variable}

/-- A declared variable can be projected. -/
theorem projectable_var (h : sight.Declares v) : (Expr.var v).Projectable sight := by
  refine ⟨.inl h, ?_⟩
  simpa [Expr.reads] using h

/-- A property of a declared variable can be projected. -/
theorem projectable_property (h : sight.Declares v) (path : List String) :
    (Expr.property v path).Projectable sight := by
  refine ⟨.inl h, ?_⟩
  simpa [Expr.reads] using h

/-- A function of what can be projected can be projected. -/
theorem projectable_apply {e : Expr} (function : String) (h : e.Projectable sight) :
    (Expr.apply function [e]).Projectable sight := by
  refine ⟨⟨h.1, trivial⟩, ?_⟩
  simpa [Expr.reads, Expr.readsAll] using h.2

/-- A map of what can be projected can be projected. -/
theorem projectable_map {entries : List (String × Expr)}
    (h : ∀ entry ∈ entries, entry.2.Projectable sight) : (Expr.map entries).Projectable sight := by
  unfold Expr.Projectable Expr.Scoped Expr.reads
  induction entries with
  | nil => simp [Expr.EntriesScoped, Expr.readsEntries]
  | cons entry rest ih =>
    obtain ⟨hentry, hrest⟩ := List.forall_mem_cons.mp h
    obtain ⟨hscoped, hreads⟩ := ih hrest
    refine ⟨⟨hentry.1, hscoped⟩, fun v hv => ?_⟩
    exact (List.mem_append.mp hv).elim (hentry.2 v) (hreads v)

/-- A declared variable can be projected with entries that can. -/
theorem projectable_project {entries : List MapEntry} (hv : sight.Declares v)
    (h : ∀ entry ∈ entries, entry.Projectable sight) :
    (Expr.project v entries).Projectable sight := by
  have hentries : MapEntry.AllScoped entries sight ∧
      ∀ u ∈ MapEntry.readsAll entries, sight.Declares u := by
    induction entries with
    | nil => simp [MapEntry.AllScoped, MapEntry.readsAll]
    | cons entry rest ih =>
      obtain ⟨hentry, hrest⟩ := List.forall_mem_cons.mp h
      obtain ⟨hscoped, hreads⟩ := ih hrest
      cases entry with
      | stored key => exact ⟨hscoped, hreads⟩
      | computed key e =>
        refine ⟨⟨hentry.1, hscoped⟩, fun u hu => ?_⟩
        exact (List.mem_append.mp hu).elim (hentry.2 u) (hreads u)
  exact ⟨⟨.inl hv, hentries.1⟩, List.forall_mem_cons.mpr ⟨hv, hentries.2⟩⟩

end Expr

/-- An aggregate over a connection reads only its variables. -/
theorem Aggregate.projectable_expr (aggregate : Aggregate) {related edge : Variable}
    {sight : Sight} (hrelated : sight.Declares related) (hedge : sight.Declares edge) :
    (aggregate.expr related edge).Projectable sight := by
  obtain _ | ⟨side, property, function⟩ := aggregate
  · exact Expr.projectable_apply "count" (Expr.projectable_var hrelated)
  · have hstored : (Expr.property (Read.sideVariable related edge side) [property]).Projectable
        sight := by
      cases side with
      | node => exact Expr.projectable_property hrelated _
      | edge => exact Expr.projectable_property hedge _
    cases function with
    | average | sum | min | max => exact Expr.projectable_apply _ hstored
    | shortestLength | longestLength | averageLength =>
      exact Expr.projectable_apply _ (Expr.projectable_apply _ hstored)

/-- The predicates of filters are well scoped wherever their variables can be seen. -/
theorem Predicate.OfFilter.scoped_of_sees {vs : List Variable} {p : Predicate} (h : OfFilter vs p) :
    ∀ {sight : Sight}, (∀ v ∈ vs, sight.Sees v) → p.Scoped sight := by
  -- An existence test sees what is around it. The condition on aggregates sees their results only.
  induction h with
  | stored hv property comparison right =>
    intro sight hsees
    cases right <;> simp [Predicate.Scoped, Expr.Scoped, Expr.OptionalScoped, hsees _ hv]
  | included hv property p =>
    intro sight hsees
    exact ⟨trivial, hsees _ hv⟩
  | result hv comparison p =>
    intro sight hsees
    exact ⟨hsees _ hv, trivial⟩
  | all _ _ ih =>
    intro sight hsees
    exact Predicate.allScoped_iff.mpr fun p hp => ih p hp hsees
  | any _ _ ih =>
    intro sight hsees
    exact Predicate.allScoped_iff.mpr fun p hp => ih p hp hsees
  | not _ ih => exact ih
  | anyMatch hsource hpattern =>
    intro sight hsees
    exact ⟨hpattern.anchors (hsees _ hsource).nested, trivial⟩
  | someMatch hsource hpattern hinner ih =>
    intro sight hsees
    refine ⟨hpattern.anchors (hsees _ hsource).nested, ?_, trivial⟩
    refine Predicate.allScoped_iff.mpr fun p hp => ih p (Option.mem_toList.mp hp) ?_
    exact fun v hv => Sight.sees_adding (hpattern.new_subset hv)
  | oneMatch hsource hpattern hinner valueId ih =>
    intro sight hsees
    refine ⟨⟨hpattern.anchors (hsees _ hsource), ?_, trivial⟩, trivial⟩
    refine Predicate.optionalScoped_iff.mpr fun p hp => ih p hp ?_
    exact fun v hv => Sight.sees_binding (hpattern.new_subset hv)
  | @aggregates vs link source relatedId edgeId items condition hsource hsome hitems _ ih =>
    intro sight hsees
    have hpattern : link.LeadsFrom source _ _ := .connected relatedId edgeId
    refine ⟨hpattern.anchors (hsees _ hsource).nested, ⟨hsome, ?_, ⟨?_, trivial⟩, trivial⟩, trivial⟩
    · refine Item.allScoped_iff.mpr fun item hitem => ?_
      obtain ⟨aggregate, resultId, rfl⟩ := hitems item hitem
      exact aggregate.projectable_expr
        (Sight.declares_adding (hpattern.new_subset (by simp)))
        (Sight.declares_adding (hpattern.new_subset (by simp)))
    · exact ih fun v hv => Sight.sees_only hv

namespace Statement

/-- What is known after clauses in a row is what is known after the last, from what is known after
the first. -/
theorem afterAll_append (first second : List Statement) (sight : Sight) :
    afterAll (first ++ second) sight = afterAll second (afterAll first sight) := by
  induction first generalizing sight with
  | nil => rfl
  | cons s rest ih => exact ih (s.after sight)

/-- Clauses in a row are well scoped if the first are, and the others are in what the first make
known. -/
theorem allScoped_append {first second : List Statement} {sight : Sight} :
    AllScoped (first ++ second) sight ↔
      AllScoped first sight ∧ AllScoped second (afterAll first sight) := by
  induction first generalizing sight with
  | nil => simp [AllScoped, afterAll]
  | cons s rest ih => simp [AllScoped, afterAll, ih, and_assoc]

/-- Clauses in a row return what the first and what the others return. -/
theorem returnedAll_append (first second : List Statement) :
    returnedAll (first ++ second) = returnedAll first ++ returnedAll second := by
  induction first with
  | nil => rfl
  | cons s rest ih => simp [returnedAll, ih]

/-- A condition is well scoped if its predicate is. -/
theorem scoped_condition {part : Option Predicate} {sight : Sight}
    (h : ∀ p ∈ part, p.Scoped sight) : (condition (.predicate part)).Scoped sight := by
  refine Predicate.allScoped_iff.mpr fun p hp => ?_
  exact h p (Option.mem_toList.mp hp)

end Statement

namespace Read

/-- Clauses are well scoped wherever some variables are known. They make new ones known and drop
none. -/
structure Prepares (vs : List Variable) (clauses : List Statement) (new : List Variable) :
    Prop where
  visible : ∀ sight : Sight, vs ⊆ sight.own → Statement.AllScoped clauses sight
  after : ∀ sight : Sight, new ++ sight.own ⊆ (Statement.afterAll clauses sight).own

/-- An expression can be projected wherever some variables are known. -/
def Needs (vs : List Variable) (e : Expr) : Prop :=
  ∀ sight : Sight, vs ⊆ sight.own → e.Projectable sight

/-- The entries of a map can be projected wherever some variables are known. -/
def EntriesNeed (vs : List Variable) (entries : List MapEntry) : Prop :=
  ∀ sight : Sight, vs ⊆ sight.own → ∀ entry ∈ entries, entry.Projectable sight

namespace Prepares

variable {vs new : List Variable} {clauses : List Statement}

/-- No clauses make nothing known. -/
theorem nil (vs : List Variable) : Prepares vs [] [] where
  visible _ _ := trivial
  after _ := List.Subset.refl _

/-- Clauses that need the same variables can be put in a row. The first of them drop none. -/
theorem append {others : List Statement} {more : List Variable} (h : Prepares vs clauses new)
    (h' : Prepares vs others more) : Prepares vs (clauses ++ others) (new ++ more) where
  visible := by
    intro sight hvs
    refine Statement.allScoped_append.mpr ⟨h.visible sight hvs, h'.visible _ ?_⟩
    exact List.Subset.trans hvs (List.Subset.trans (List.subset_append_right ..) (h.after sight))
  after := by
    intro sight v hv
    rw [Statement.afterAll_append]
    refine h'.after _ ?_
    simp only [List.mem_append] at hv ⊢
    rcases hv with (hnew | hmore) | hold
    · exact .inr (h.after sight (List.mem_append_left _ hnew))
    · exact .inl hmore
    · exact .inr (h.after sight (List.mem_append_right _ hold))

/-- Clauses are well scoped also where more is known. -/
theorem mono (h : Prepares vs clauses new) {more : List Variable} (hsub : vs ⊆ more) :
    Prepares more clauses new where
  visible sight hvs := h.visible sight (List.Subset.trans hsub hvs)
  after := h.after

/-- After the clauses both the old and the new variables are known. -/
theorem known (h : Prepares vs clauses new) {sight : Sight} (hvs : vs ⊆ sight.own) :
    vs ++ new ⊆ (Statement.afterAll clauses sight).own := by
  refine List.append_subset.mpr
    ⟨?_, List.Subset.trans (List.subset_append_left ..) (h.after sight)⟩
  exact List.Subset.trans hvs (List.Subset.trans (List.subset_append_right ..) (h.after sight))

/-- A single clause that leaves what is known as it is. -/
theorem single {clause : Statement} (hafter : ∀ sight, clause.after sight = sight)
    (hscoped : ∀ sight : Sight, vs ⊆ sight.own → clause.Scoped sight) :
    Prepares vs [clause] [] where
  visible := fun sight hvs => ⟨hscoped sight hvs, trivial⟩
  after := by
    intro sight
    rw [Statement.afterAll, Statement.afterAll, hafter, List.nil_append]
    exact List.Subset.refl _

end Prepares

section Clauses

variable {vs : List Variable}

/-- What is known is seen. -/
theorem sees_of_subset {sight : Sight} (hvs : vs ⊆ sight.own) {v : Variable} (hv : v ∈ vs) :
    sight.Sees v := .inl (.inl (hvs hv))

/-- A condition that is made from a filter reads the variables of the filter. -/
theorem Conditions.prepares {β : Type} {read : Json → FilterResult β}
    {compile : β → Fresh (Option Predicate)}
    (hcompile : ∀ filter next, ∀ p ∈ ((compile filter).run next).1, p.OfFilter vs)
    {filter : Option Json} {clauses : List Statement} (h : Conditions read compile filter clauses) :
    Prepares vs clauses [] := by
  cases h with
  | none => exact .nil vs
  | some next hread =>
    refine .single (fun _ => rfl) fun sight hvs => Statement.scoped_condition fun p hp => ?_
    exact (hcompile _ next p hp).scoped_of_sees fun v hv => sees_of_subset hvs hv

/-- Sort keys that are properties of known variables. -/
def KeysOn (vs : List Variable) (keys : List (Expr × SortDirection)) : Prop :=
  ∀ key ∈ keys, ∃ v ∈ vs, ∃ path, key.1 = .property v path

/-- If each way to sort is by a property of a known variable, all of them are. -/
theorem keysOn_of_forall₂ {α : Type} {sorts : α → Expr × SortDirection → Prop} {sort : List α}
    {keys : List (Expr × SortDirection)} (h : List.Forall₂ sorts sort keys)
    (hsorts : ∀ s key, sorts s key → ∃ v ∈ vs, ∃ path, key.1 = .property v path) :
    KeysOn vs keys := by
  induction h with
  | nil => simp [KeysOn]
  | cons hkey _ ih => exact List.forall_mem_cons.mpr ⟨hsorts _ _ hkey, ih⟩

/-- Sort keys of a request are on the variable of its nodes. -/
theorem keysOn_of_sortsBy {node : Node} {v : Variable} {sort : List SortKey}
    {keys : List (Expr × SortDirection)} (h : List.Forall₂ (SortsBy node v) sort keys) :
    KeysOn [v] keys := by
  refine keysOn_of_forall₂ h fun sort key hkey => ?_
  obtain ⟨field, -, rfl⟩ := hkey
  exact ⟨v, List.mem_cons_self, _, rfl⟩

/-- Sort keys of a connection are on the variables of its nodes and edges. -/
theorem keysOn_of_connectionSortsBy {link : Link} {related edge : Variable}
    {sort : List ConnectionSortKey} {keys : List (Expr × SortDirection)}
    (h : List.Forall₂ (ConnectionSortsBy link related edge) sort keys) :
    KeysOn [edge, related] keys := by
  refine keysOn_of_forall₂ h fun sort key hkey => ?_
  obtain ⟨field, -, rfl⟩ := hkey
  exact ⟨_, by cases sort.side <;> simp [sideVariable], _, rfl⟩

/-- Sort keys on known variables are well scoped. -/
theorem keysScoped_of_keysOn {keys : List (Expr × SortDirection)} (h : KeysOn vs keys)
    {sight : Sight} (hvs : vs ⊆ sight.own) : Statement.KeysScoped keys sight := by
  induction keys with
  | nil => trivial
  | cons key rest ih =>
    obtain ⟨⟨v, hv, path, hkey⟩, hrest⟩ := List.forall_mem_cons.mp h
    obtain ⟨e, direction⟩ := key
    obtain rfl : e = .property v path := hkey
    exact ⟨sees_of_subset hvs hv, ih hrest⟩

/-- The clause of a page reads its sort keys. -/
theorem prepares_pageClause {keys : List (Expr × SortDirection)} (hkeys : KeysOn vs keys)
    (offset limit : Option UInt64) : Prepares vs (pageClause keys offset limit) [] := by
  have horder : Prepares vs (orderClause keys) [] := by
    unfold orderClause
    split
    next => exact .nil vs
    next => exact .single (fun _ => rfl) fun _ hvs => keysScoped_of_keysOn hkeys hvs
  have hskip : Prepares vs (offset.map Statement.skipping).toList [] := by
    cases offset with
    | none => exact .nil vs
    | some count => exact .single (fun _ => rfl) fun _ _ => trivial
  have hlimit : Prepares vs (limit.map Statement.limiting).toList [] := by
    cases limit with
    | none => exact .nil vs
    | some count => exact .single (fun _ => rfl) fun _ _ => trivial
  have hclauses := (horder.append hskip).append hlimit
  rw [pageClause]
  split
  next => exact .nil vs
  next => exact ⟨fun sight hvs => ⟨hclauses.visible sight hvs, trivial⟩, hclauses.after⟩

/-- A subquery starts from the node that it imports and returns its result. -/
theorem prepares_subquery {link : Link} {v : Variable} {pattern : Pattern} {new : List Variable}
    (result : Variable) (clauses : List Statement) (hpattern : link.LeadsFrom v pattern new)
    (hclauses : ∀ sight : Sight, new ⊆ sight.own → Statement.AllScoped clauses sight)
    (hresult : result ∈ Statement.returnedAll clauses) :
    Prepares [v] [subquery v pattern clauses] [result] where
  visible := by
    intro sight hv
    have hdeclared : ∀ u ∈ [v], sight.Declares u := fun u hu => .inl (hv hu)
    have hseen : (Sight.inside [v]).Sees v := .inl (.inl List.mem_cons_self)
    refine ⟨⟨hdeclared, ⟨hpattern.anchors hseen, hclauses _ ?_⟩, trivial⟩, trivial⟩
    exact List.Subset.trans hpattern.new_subset (List.subset_append_left ..)
  after := by
    intro sight u hu
    rcases List.mem_append.mp hu with hu | hu
    · exact List.mem_append_left _ (List.mem_singleton.mp hu ▸ hresult)
    · exact List.mem_append_right _ hu

/-- A variable that was just projected can be projected. -/
theorem projectable_only (sight : Sight) (v : Variable) :
    (Expr.var v).Projectable (sight.only [v]) :=
  Expr.projectable_var (.inl List.mem_cons_self)

/-- Collecting related nodes is well scoped, if their projection can be projected. -/
theorem allScoped_relatedResult (link : Link) (related result : Variable) {projection : Expr}
    {sight : Sight} (h : projection.Projectable sight) :
    Statement.AllScoped (relatedResult link related result projection) sight := by
  have hcollected : (collected link related).Projectable (sight.only [related]) := by
    have hall := Expr.projectable_apply "collect" (projectable_only sight related)
    unfold collected
    split
    · exact hall
    · exact Expr.projectable_apply "head" hall
  exact ⟨⟨List.cons_ne_nil _ _, ⟨h, trivial⟩, trivial⟩,
    ⟨List.cons_ne_nil _ _, ⟨hcollected, trivial⟩⟩, trivial⟩

/-- Collecting the edges of a connection is well scoped, if their map can be projected. -/
theorem allScoped_connectionResult (edgeMap edges result : Variable)
    {entries : List (String × Expr)} {sight : Sight} (h : (Expr.map entries).Projectable sight) :
    Statement.AllScoped (connectionResult edgeMap edges result entries) sight := by
  have hcollect := Expr.projectable_apply "collect" (projectable_only sight edgeMap)
  have hresult : (Expr.map [("edges", .var edges),
      ("totalCount", .apply "size" [.var edges])]).Projectable (sight.only [edges]) := by
    refine Expr.projectable_map fun entry hentry => ?_
    rcases List.mem_pair.mp hentry with rfl | rfl
    · exact projectable_only sight edges
    · exact Expr.projectable_apply "size" (projectable_only sight edges)
  exact ⟨⟨List.cons_ne_nil _ _, ⟨h, trivial⟩, trivial⟩,
    ⟨List.cons_ne_nil _ _, ⟨hcollect, trivial⟩, trivial⟩,
    ⟨List.cons_ne_nil _ _, ⟨hresult, trivial⟩⟩, trivial⟩

/-- A selected field is stored under its own name, or it is a property of the node. -/
theorem property_of_fieldEntry {node : Node} {v : Variable} {names : List String}
    {entries : List MapEntry} (h : List.Forall₂ (FieldEntry node v) names entries) :
    ∀ entry ∈ entries, (∃ key, entry = .stored key) ∨
      ∃ key path, entry = .computed key (.property v path) := by
  induction h with
  | nil => simp
  | cons hentry _ ih =>
    refine List.forall_mem_cons.mpr ⟨?_, ih⟩
    obtain ⟨field, -, rfl⟩ := hentry
    split
    · exact .inl ⟨_, rfl⟩
    · exact .inr ⟨_, _, rfl⟩

/-- Entries that read fields need their variable only. -/
theorem entriesNeed_of_fieldEntry {node : Node} {v : Variable} {names : List String}
    {entries : List MapEntry} (h : List.Forall₂ (FieldEntry node v) names entries) (hv : v ∈ vs) :
    EntriesNeed vs entries := by
  intro sight hvs entry hentry
  obtain ⟨key, rfl⟩ | ⟨key, path, rfl⟩ := property_of_fieldEntry h entry hentry
  · trivial
  · exact Expr.projectable_property (.inl (hvs hv)) path

/-- Entries that read properties of edges are properties of their variable. -/
theorem property_of_edgeEntry {link : Link} {edge : Variable} {names : List String}
    {entries : List (String × Expr)} (h : List.Forall₂ (EdgeEntry link edge) names entries) :
    ∀ entry ∈ entries, ∃ path, entry.2 = .property edge path := by
  induction h with
  | nil => simp
  | cons hentry _ ih =>
    refine List.forall_mem_cons.mpr ⟨?_, ih⟩
    obtain ⟨property, -, rfl⟩ := hentry
    exact ⟨_, rfl⟩

/-- The entry for the result of a subquery needs that result. -/
theorem EntriesNeed.result {new : List Variable} {entries : List MapEntry}
    (h : EntriesNeed new entries) {key : String} {result : Variable} :
    EntriesNeed (result :: new) (.computed key (.var result) :: entries) := by
  intro sight hknown
  obtain ⟨hresult, hnew⟩ := List.cons_subset.mp hknown
  rw [List.forall_mem_cons]
  exact ⟨Expr.projectable_var (.inl hresult), h sight hnew⟩

end Clauses

mutual
/-- The clauses of a request are well scoped wherever its variable is known, and after them its
projection is. -/
theorem AnswersRequest.prepares {setting : Setting} {node : Node} {v : Variable}
    {wanted : Request} {clauses : List Statement} {projection : Expr}
    (h : AnswersRequest setting node v wanted clauses projection) :
    ∃ new, Prepares [v] clauses new ∧ Needs (v :: new) projection := by
  match h with
  | .intro hfilter hsort hwanted =>
    obtain ⟨new, hcalls, hprojection⟩ := hwanted.prepares
    have hfilters := hfilter.prepares fun filter next => filter.ofFilter_predicate v next
    have hpage := prepares_pageClause (keysOn_of_sortsBy hsort)
    exact ⟨new, (hfilters.append (hpage _ _)).append hcalls, hprojection⟩
termination_by structural h

/-- The answer to a selection needs its variable only. The subqueries make known what the projection
needs. -/
theorem AnswersSelection.prepares {setting : Setting} {node : Node} {v : Variable}
    {wanted : Selection} {calls : List Statement} {projection : Expr}
    (h : AnswersSelection setting node v wanted calls projection) :
    ∃ new, Prepares [v] calls new ∧ Needs (v :: new) projection := by
  match h with
  | .intro hfields hrelated hconnected =>
    obtain ⟨new, hrelatedCalls, hrelatedEntries⟩ := hrelated.prepares
    obtain ⟨more, hconnectedCalls, hconnectedEntries⟩ := hconnected.prepares
    refine ⟨new ++ more, hrelatedCalls.append hconnectedCalls, fun sight hvs => ?_⟩
    obtain ⟨hv, hnew⟩ := List.cons_subset.mp hvs
    have hfieldEntries := entriesNeed_of_fieldEntry hfields List.mem_cons_self sight
      (List.cons_subset.mpr ⟨hv, List.nil_subset _⟩)
    refine Expr.projectable_project (.inl hv) fun entry hentry => ?_
    rcases List.mem_append.mp hentry with hentry | hentry
    · rcases List.mem_append.mp hentry with hentry | hentry
      · exact hfieldEntries entry hentry
      · exact hrelatedEntries sight (List.Subset.trans (List.subset_append_left ..) hnew) entry
          hentry
    · exact hconnectedEntries sight (List.Subset.trans (List.subset_append_right ..) hnew) entry
        hentry
termination_by structural h

/-- The answers to selections of related nodes need their variable only. -/
theorem AnswersRelated.prepares {setting : Setting} {node : Node} {v : Variable}
    {selections : List RelationshipSelection} {calls : List Statement} {entries : List MapEntry}
    (h : AnswersRelated setting node v selections calls entries) :
    ∃ new, Prepares [v] calls new ∧ EntriesNeed new entries := by
  match h with
  | .nil => exact ⟨[], .nil _, fun _ _ _ hentry => nomatch hentry⟩
  | .cons hlink hwanted hrest =>
    obtain ⟨inner, hclauses, hprojection⟩ := hwanted.prepares
    obtain ⟨new, hcalls, hentries⟩ := hrest.prepares
    refine ⟨_, (prepares_subquery _ _ (.connected _ _) (fun sight hnew => ?_) ?_).append hcalls,
      hentries.result⟩
    · have hrelated := (List.cons_subset.mp hnew).2
      refine Statement.allScoped_append.mpr ⟨hclauses.visible sight hrelated, ?_⟩
      exact allScoped_relatedResult _ _ _ (hprojection _ (hclauses.known hrelated))
    · rw [Statement.returnedAll_append]
      refine List.mem_append_right _ ?_
      simp [relatedResult, Statement.returnedAll, Statement.returned, Item.introduced?]
termination_by structural h

/-- The answers to selections of connections need their variable only. -/
theorem AnswersConnected.prepares {setting : Setting} {node : Node} {v : Variable}
    {selections : List ConnectionSelection} {calls : List Statement} {entries : List MapEntry}
    (h : AnswersConnected setting node v selections calls entries) :
    ∃ new, Prepares [v] calls new ∧ EntriesNeed new entries := by
  match h with
  | .nil => exact ⟨[], .nil _, fun _ _ _ hentry => nomatch hentry⟩
  | .cons hlink hfilter hwanted hsort hproperties hrest =>
    obtain ⟨inner, hclauses, hprojection⟩ := hwanted.prepares
    obtain ⟨new, hcalls, hentries⟩ := hrest.prepares
    have hfilters := hfilter.prepares fun filter next => filter.ofFilter_predicate _ _ next
    have hpage := prepares_pageClause (keysOn_of_connectionSortsBy hsort) none none
    have hbody := (hfilters.append (hclauses.mono (List.subset_cons_self ..))).append hpage
    rw [List.nil_append, List.append_nil] at hbody
    refine ⟨_, (prepares_subquery _ _ (.connected _ _) (fun sight hnew => ?_) ?_).append hcalls,
      hentries.result⟩
    · refine Statement.allScoped_append.mpr ⟨hbody.visible sight hnew, ?_⟩
      obtain ⟨hedge, hrelated⟩ := List.cons_subset.mp (hbody.known hnew)
      refine allScoped_connectionResult _ _ _ (Expr.projectable_map fun entry hentry => ?_)
      rcases List.mem_append.mp hentry with hentry | hentry
      · obtain ⟨path, heq⟩ := property_of_edgeEntry hproperties entry hentry
        rw [heq]
        exact Expr.projectable_property (.inl hedge) path
      · rw [List.mem_singleton.mp hentry]
        exact hprojection _ hrelated
    · rw [Statement.returnedAll_append]
      refine List.mem_append_right _ ?_
      simp [connectionResult, Statement.returnedAll, Statement.returned, Item.introduced?]
termination_by structural h
end

/-- The statement of a request is well scoped. -/
theorem wellScoped_of_statement {schema : Schema} {name : String} {wanted : Request}
    {settings : Settings} {result : Statement}
    (h : statement schema name wanted settings = .ok result) : result.WellScoped := by
  obtain ⟨node, clauses, projection, -, hanswers, rfl⟩ := statement_eq_ok h
  obtain ⟨new, hclauses, hprojection⟩ := hanswers.prepares
  have hthis : [Variable.namedNode 0 settings.variablePrefix node.labels] ⊆
      (Sight.inside [.namedNode 0 settings.variablePrefix node.labels]).own :=
    List.Subset.refl _
  refine Statement.allScoped_append.mpr ⟨hclauses.visible _ hthis, ?_⟩
  exact ⟨⟨List.cons_ne_nil _ _, ⟨hprojection _ (hclauses.known hthis), trivial⟩⟩, trivial⟩

end Read

/-- A plan fails only for some reasons. -/
def Plan.FailsOnly {α : Type} (reasons : ReadError → Prop) (plan : Plan α) : Prop :=
  ∀ next error, plan.run next = .error error → reasons error

/-- An error that is found before anything is rendered. -/
def ReadError.IsEarly (error : ReadError) : Prop := ∀ cause, error ≠ .build cause

namespace Plan.FailsOnly

variable {α β ε : Type} {reasons : ReadError → Prop}

/-- A plan that only returns does not fail. -/
theorem pure (a : α) : FailsOnly reasons (Pure.pure a) := by
  intro next error h
  cases h

/-- Handing out identities does not fail. -/
theorem fresh (step : Fresh α) : FailsOnly reasons (Plan.fresh step) := by
  intro next error h
  cases h

/-- Looking something up fails for its own reason only. -/
theorem found {error : ReadError} (h : reasons error) (value : Option α) :
    FailsOnly reasons (Plan.found error value) := by
  intro next failure hrun
  cases value with
  | some value => cases hrun
  | none =>
    obtain rfl := Except.error.inj hrun
    exact h

/-- A result that is checked fails for its own reason only. -/
theorem checked {wrap : ε → ReadError} (h : ∀ error, reasons (wrap error))
    (result : Except ε α) : FailsOnly reasons (Plan.checked wrap result) := by
  intro next failure hrun
  cases result with
  | ok value => cases hrun
  | error error =>
    obtain rfl := Except.error.inj hrun
    exact h error

/-- Plans in a row fail only for reasons of each. -/
theorem bind {plan : Plan α} {next : α → Plan β} (h : FailsOnly reasons plan)
    (h' : ∀ a, FailsOnly reasons (next a)) : FailsOnly reasons (plan >>= next) := by
  intro start failure hrun
  rw [StateT.run_bind] at hrun
  cases hfirst : plan.run start with
  | error error =>
    rw [hfirst] at hrun
    obtain rfl := Except.error.inj hrun
    exact h start error hfirst
  | ok result =>
    rw [hfirst] at hrun
    exact h' result.1 result.2 failure hrun

end Plan.FailsOnly

namespace Read

open Plan (FailsOnly)

section Errors

variable (setting : Setting) (node : Node) (v related edge : Variable) (link : Link)
  (path : String)

/-- A relationship that cannot be selected is found early. -/
theorem early_selectedLink (name : String) :
    FailsOnly ReadError.IsEarly (selectedLink setting node name path) := by
  refine (FailsOnly.found (by simp [ReadError.IsEarly]) _).bind fun field => ?_
  exact (FailsOnly.checked (by simp [ReadError.IsEarly]) _).bind fun _ => .pure _

/-- A wrong sort key is found early. -/
theorem early_sortKeys (index : Nat) (sort : List SortKey) :
    FailsOnly ReadError.IsEarly (sortKeys node v path index sort) := by
  induction sort generalizing index with
  | nil => exact .pure _
  | cons key rest ih =>
    exact (FailsOnly.found (by simp [ReadError.IsEarly]) _).bind fun _ =>
      (ih (index + 1)).bind fun _ => .pure _

/-- A wrong sort key of a connection is found early. -/
theorem early_connectionSortKeys (index : Nat) (sort : List ConnectionSortKey) :
    FailsOnly ReadError.IsEarly (connectionSortKeys link related edge path index sort) := by
  induction sort generalizing index with
  | nil => exact .pure _
  | cons key rest ih =>
    exact (FailsOnly.found (by simp [ReadError.IsEarly]) _).bind fun _ =>
      (ih (index + 1)).bind fun _ => .pure _

/-- A field that cannot be selected is found early. -/
theorem early_fieldEntries (names : List String) :
    FailsOnly ReadError.IsEarly (fieldEntries node v path names) := by
  induction names with
  | nil => exact .pure _
  | cons name rest ih =>
    refine (FailsOnly.found (by simp [ReadError.IsEarly]) _).bind fun field =>
      ih.bind fun _ => ?_
    split <;> exact .pure _

/-- A property of edges that cannot be selected is found early. -/
theorem early_edgeEntries (names : List String) :
    FailsOnly ReadError.IsEarly (edgeEntries link edge path names) := by
  induction names with
  | nil => exact .pure _
  | cons name rest ih =>
    exact (FailsOnly.found (by simp [ReadError.IsEarly]) _).bind fun _ => ih.bind fun _ => .pure _

/-- A condition is refused only for its filter. -/
theorem early_optionalClause {β : Type} (read : Json → FilterResult β)
    (compile : β → Fresh (Option Predicate)) (filter : Option Json) :
    FailsOnly ReadError.IsEarly (optionalClause (fun value => do
      let filter ← Plan.checked .filter (read value)
      let predicate ← Plan.fresh (compile filter)
      return .condition (.predicate predicate)) filter) := by
  cases filter with
  | none => exact .pure _
  | some value =>
    refine FailsOnly.bind ?_ fun _ => .pure _
    exact (FailsOnly.checked (by simp [ReadError.IsEarly]) _).bind fun _ =>
      (FailsOnly.fresh _).bind fun _ => .pure _

end Errors

mutual
/-- Planning a request does not fail for a reason of rendering. -/
theorem early_request (setting : Setting) (node : Node) (v : Variable) (path : String)
    (wanted : Request) : FailsOnly ReadError.IsEarly (request setting node v path wanted) := by
  match wanted with
  | ⟨filter, sort, offset, limit, wanted⟩ =>
    rw [request]
    refine (early_optionalClause _ _ filter).bind fun filters => ?_
    refine (early_sortKeys node v path 0 sort).bind fun keys => ?_
    exact (early_selection setting node v path wanted).bind fun _ => .pure _
termination_by structural wanted

/-- Whatever is wrong with a selection is found early. -/
theorem early_selection (setting : Setting) (node : Node) (v : Variable) (path : String)
    (wanted : Selection) : FailsOnly ReadError.IsEarly (selection setting node v path wanted) := by
  match wanted with
  | ⟨fields, related, connected⟩ =>
    rw [selection]
    refine (early_fieldEntries node v path fields).bind fun entries => ?_
    refine (early_relationships setting node v path related).bind fun calls => ?_
    exact (early_connections setting node v path connected).bind fun _ => .pure _
termination_by structural wanted

/-- Whatever is wrong with selections of related nodes is found early. -/
theorem early_relationships (setting : Setting) (node : Node) (v : Variable) (path : String)
    (selections : List RelationshipSelection) :
    FailsOnly ReadError.IsEarly (relationships setting node v path selections) := by
  match selections with
  | [] => exact .pure _
  | ⟨field, key, wanted⟩ :: rest =>
    rw [relationships]
    refine (early_selectedLink setting node _ field).bind fun link => ?_
    refine (FailsOnly.fresh _).bind fun related => (FailsOnly.fresh _).bind fun edge => ?_
    refine (early_request setting link.target related _ wanted).bind fun result => ?_
    refine (FailsOnly.fresh _).bind fun value => ?_
    exact (early_relationships setting node v path rest).bind fun _ => .pure _
termination_by structural selections

/-- Whatever is wrong with selections of connections is found early. -/
theorem early_connections (setting : Setting) (node : Node) (v : Variable) (path : String)
    (selections : List ConnectionSelection) :
    FailsOnly ReadError.IsEarly (connections setting node v path selections) := by
  match selections with
  | [] => exact .pure _
  | ⟨field, key, filter, sort, edgeFields, wanted⟩ :: rest =>
    rw [connections]
    refine (early_selectedLink setting node _ field).bind fun link => ?_
    refine (FailsOnly.fresh _).bind fun related => (FailsOnly.fresh _).bind fun edge => ?_
    refine (early_optionalClause _ _ filter).bind fun filters => ?_
    refine (early_selection setting link.target related _ wanted).bind fun result => ?_
    refine (early_connectionSortKeys related edge link _ 0 sort).bind fun keys => ?_
    refine (early_edgeEntries edge link _ edgeFields).bind fun properties => ?_
    refine (FailsOnly.fresh _).bind fun edgeMap => (FailsOnly.fresh _).bind fun edges => ?_
    refine (FailsOnly.fresh _).bind fun value => ?_
    exact (early_connections setting node v path rest).bind fun _ => .pure _
termination_by structural selections
end

/-- A statement is not refused for a reason of rendering. -/
theorem early_statement {schema : Schema} {name : String} {wanted : Request}
    {settings : Settings} {error : ReadError}
    (h : statement schema name wanted settings = .error error) : error.IsEarly := by
  unfold statement at h
  cases hnode : schema.node name with
  | error cause =>
    rw [hnode] at h
    obtain rfl := Except.error.inj h
    simp [ReadError.IsEarly]
  | ok node =>
    rw [hnode] at h
    cases hrequest : (request ⟨schema, settings.maxFilterDepth⟩ node
        (.namedNode 0 settings.variablePrefix node.labels) name wanted).run 1 with
    | error cause =>
      obtain rfl : cause = error := by
        simpa [Except.mapError, bind, Except.bind, hrequest] using h
      exact early_request _ node _ name wanted 1 cause hrequest
    | ok result => simp [Except.mapError, bind, Except.bind, hrequest, pure, Except.pure] at h

/-- Requests are never refused by rendering. If a request is answered, the statement that answers
it is well scoped, and the answer is what it is rendered to. -/
theorem query_wellScoped (schema : Schema) (name : String) (wanted : Request)
    (settings : Settings) :
    (∀ error, query schema name wanted settings ≠ .error (.build error)) ∧
      ∀ result, query schema name wanted settings = .ok result →
        ∃ statement, Read.statement schema name wanted settings = .ok statement ∧
          statement.build settings.toRenderOptions = .ok result ∧ statement.WellScoped := by
  cases hstatement : Read.statement schema name wanted settings with
  | error cause =>
    have hquery : query schema name wanted settings = .error cause := by
      rw [query, hstatement]
      rfl
    rw [hquery]
    refine ⟨fun error heq => early_statement hstatement error (Except.error.inj heq), ?_⟩
    intro result heq
    cases heq
  | ok statement =>
    have hscoped := wellScoped_of_statement hstatement
    obtain ⟨built, hbuilt⟩ := hscoped.build_ok settings.toRenderOptions
    have hquery : query schema name wanted settings = .ok built := by
      rw [query, hstatement]
      show (statement.build settings.toRenderOptions).mapError _ = _
      rw [hbuilt]
      rfl
    rw [hquery]
    refine ⟨fun error heq => (nomatch heq), ?_⟩
    intro result heq
    obtain rfl := Except.ok.inj heq
    exact ⟨statement, rfl, hbuilt, hscoped⟩

/-- The request for films has a well scoped statement, and it is rendered. -/
theorem filmRequest_wellScoped :
    ∃ statement result, Read.statement filmSchema "Film" filmRequest {} = .ok statement ∧
      statement.WellScoped ∧ query filmSchema "Film" filmRequest {} = .ok result := by
  have hok : (query filmSchema "Film" filmRequest {}).isOk = true := by decide +kernel
  cases hquery : query filmSchema "Film" filmRequest {} with
  | error error => simp [hquery, Except.isOk, Except.toBool] at hok
  | ok result =>
    obtain ⟨statement, hstatement, -, hscoped⟩ :=
      (query_wellScoped filmSchema "Film" filmRequest {}).2 result hquery
    exact ⟨statement, result, hstatement, hscoped, rfl⟩

end Read

end GraphRead
