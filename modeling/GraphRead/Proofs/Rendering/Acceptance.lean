import GraphRead.Proofs.Rendering.Scoping

/-!
# What is accepted by rendering

The places where a query tree breaks the rules of its scopes can be listed without
giving a single name: a projection or a subquery reads a variable that is not
declared there, or a projection has no items. Rendering accepts exactly the trees
without such a place. Any other tree is rejected at the first place of the list,
whatever the options are.
-/

namespace GraphRead

open Event

/-- How a clause can break the rules of scopes. -/
inductive Violation where
  /-- It reads a variable that is not declared. -/
  | unseen (clause : ReadingClause)
  /-- It projects nothing. -/
  | empty (clause : ReadingClause)
deriving DecidableEq, Repr

/-- What an error is about, apart from the name of the variable. -/
def BuildError.violation : BuildError → Violation
  | .undeclared _ clause => .unseen clause
  | .emptyProjection clause => .empty clause

namespace Sight

instance (sight : Sight) (v : Variable) : Decidable (sight.Declares v) :=
  inferInstanceAs (Decidable (v ∈ sight.own ∨ v ∈ sight.outer))

/-- A violation for each variable that a clause reads and that is not declared. -/
def unseen (sight : Sight) (clause : ReadingClause) (vs : List Variable) : List Violation :=
  (vs.filter fun v => ¬ sight.Declares v).map fun _ => .unseen clause

end Sight

/-- A projection needs an item. -/
def projectionViolations (clause : ReadingClause) (items : List Item) : List Violation :=
  if items.isEmpty then [.empty clause] else []

mutual
/-- The violations in an expression. The variables of a comprehension are not declared. -/
def Expr.violations : Expr → Sight → List Violation
  | .var _, _ => []
  | .property _ _, _ => []
  | .param _, _ => []
  | .literal _, _ => []
  | .apply _ arguments, sight => Expr.violationsAll arguments sight
  | .list items, sight => Expr.violationsAll items sight
  | .map entries, sight => Expr.violationsEntries entries sight
  | .project _ entries, sight => MapEntry.violationsAll entries sight
  | .comprehend _ filter result, sight =>
    Predicate.violationsOptional filter sight ++ result.violations sight
termination_by structural e => e

/-- The violations in expressions. -/
def Expr.violationsAll : List Expr → Sight → List Violation
  | [], _ => []
  | e :: rest, sight => e.violations sight ++ Expr.violationsAll rest sight
termination_by structural es => es

/-- The violations in the values of a map. -/
def Expr.violationsEntries : List (String × Expr) → Sight → List Violation
  | [], _ => []
  | (_, e) :: rest, sight => e.violations sight ++ Expr.violationsEntries rest sight
termination_by structural es => es

/-- The violations in the computed entries of a map. -/
def MapEntry.violationsAll : List MapEntry → Sight → List Violation
  | [], _ => []
  | .stored _ :: rest, sight => MapEntry.violationsAll rest sight
  | .computed _ e :: rest, sight => e.violations sight ++ MapEntry.violationsAll rest sight
termination_by structural es => es

/-- The violations in a predicate. The right side of a test on one expression is not rendered. -/
def Predicate.violations : Predicate → Sight → List Violation
  | .compare comparison left right, sight =>
    left.violations sight ++
      if comparison.isUnary then [] else Expr.violationsOptional right sight
  | .all parts, sight => Predicate.violationsAll parts sight
  | .any parts, sight => Predicate.violationsAll parts sight
  | .not part, sight => part.violations sight
  | .exist body, sight => body.violations sight.nested
  | .single _ list filter, sight =>
    list.violations sight ++ Predicate.violationsOptional filter sight
termination_by structural p => p

/-- The violations in an expression that may be missing. -/
def Expr.violationsOptional : Option Expr → Sight → List Violation
  | none, _ => []
  | some e, sight => e.violations sight
termination_by structural e => e

/-- The violations in a predicate that may be missing. -/
def Predicate.violationsOptional : Option Predicate → Sight → List Violation
  | none, _ => []
  | some p, sight => p.violations sight
termination_by structural p => p

/-- The violations in predicates. -/
def Predicate.violationsAll : List Predicate → Sight → List Violation
  | [], _ => []
  | p :: rest, sight => p.violations sight ++ Predicate.violationsAll rest sight
termination_by structural ps => ps

/-- The violations in an item of a projection: what it reads outside of comprehensions has to be
declared. -/
def Item.violations (clause : ReadingClause) : Item → Sight → List Violation
  | .plain e, sight => sight.unseen clause e.reads ++ e.violations sight
  | .aliased e _, sight => sight.unseen clause e.reads ++ e.violations sight
  | .named e _, sight => sight.unseen clause e.reads ++ e.violations sight
termination_by structural item => item

/-- The violations in the items of a projection. -/
def Item.violationsAll (clause : ReadingClause) : List Item → Sight → List Violation
  | [], _ => []
  | item :: rest, sight => item.violations clause sight ++ Item.violationsAll clause rest sight
termination_by structural items => items

/-- The violations in the keys of a sort. -/
def Statement.violationsKeys : List (Expr × SortDirection) → Sight → List Violation
  | [], _ => []
  | (e, _) :: rest, sight => e.violations sight ++ Statement.violationsKeys rest sight
termination_by structural keys => keys

/-- The violations in a statement, in the order in which a reader of the tree comes to them. -/
def Statement.violations : Statement → Sight → List Violation
  | .matching _ pattern clauses, sight =>
    Statement.violationsAll clauses (sight.adding pattern.bound)
  | .filtering parts, sight => Predicate.violationsAll parts sight
  | .returning _ items, sight =>
    projectionViolations .returning items ++ Item.violationsAll .returning items sight
  | .calling body imports _ clauses, sight =>
    sight.unseen .calling imports ++ body.violations (.inside imports) ++
      Statement.violationsAll clauses (sight.adding body.returned)
  | .passing _ items clauses, sight =>
    projectionViolations .passing items ++ Item.violationsAll .passing items sight ++
      Statement.violationsAll clauses (sight.only (items.filterMap Item.introduced?))
  | .passingAll _ clauses, sight => Statement.violationsAll clauses sight
  | .ordering keys, sight => Statement.violationsKeys keys sight
  | .skipping _, _ => []
  | .limiting _, _ => []
termination_by structural s => s

/-- The violations in statements one after another. -/
def Statement.violationsAll : List Statement → Sight → List Violation
  | [], _ => []
  | s :: rest, sight => s.violations sight ++ Statement.violationsAll rest (s.after sight)
termination_by structural ss => ss
end

/-- What is declared while a tree is rendered is what can be seen there, apart from the variables
of comprehensions. -/
structure View.Matches (view : View) (sight : Sight) : Prop where
  own : ∀ v, v ∈ view.top.declared ↔ v ∈ sight.own
  outer : ∀ v, (view.top.inherits ∧ Layer.visible v view.enclosing) ↔ v ∈ sight.outer

namespace View.Matches

variable {view : View} {sight : Sight}

/-- What is declared in a view is what is declared in the sight that it matches. -/
theorem declares_iff (h : view.Matches sight) (v : Variable) :
    view.declares v ↔ sight.Declares v := by
  rw [View.declares, Layer.visible, Bool.or_eq_true, Bool.and_eq_true, decide_eq_true_eq]
  exact or_congr (h.own v) (h.outer v)

/-- A subquery sees its imports alone. -/
theorem inside (imports : List Variable) (enclosing : List Layer) :
    View.Matches ⟨⟨imports, false⟩, enclosing⟩ (.inside imports) where
  own := fun _ => Iff.rfl
  outer := by simp [Sight.inside]

/-- An existence test sees what is seen around it. -/
theorem nested (h : view.Matches sight) :
    View.Matches ⟨⟨[], true⟩, view.top :: view.enclosing⟩ sight.nested where
  own := fun _ => Iff.rfl
  outer := by
    intro v
    have hdeclares := h.declares_iff v
    simpa [Sight.nested, Sight.Declares, View.declares] using hdeclares

/-- Declaring variables adds them to what is seen. -/
theorem adding (h : view.Matches sight) (vs : List Variable) :
    (view.redeclare (vs.reverse ++ view.top.declared)).Matches (sight.adding vs) where
  own := by
    intro v
    simp [View.redeclare, Sight.adding, h.own v]
  outer := h.outer

/-- Keeping some variables leaves only these to be seen. -/
theorem only (h : view.Matches sight) (vs : List Variable) :
    (view.redeclare vs).Matches (sight.only vs) where
  own := fun _ => Iff.rfl
  outer := h.outer

end View.Matches

namespace Event

/-- Events stop at the first of some violations. If there are none, they change only what is
declared in the innermost scope, to what can be seen then. -/
inductive Follows (events : List Event) (context : Context) (sight : Sight) :
    List Violation → Prop
  | passed {names : List String} {last : Context} (run : runAll events context = .ok (names, last))
      (changed : ∃ declared, last.view = context.view.redeclare declared)
      (shown : last.view.Matches sight) : Follows events context sight []
  | stopped {error : BuildError} {rest : List Violation}
      (run : runAll events context = .error error) :
      Follows events context sight (error.violation :: rest)

variable {context : Context} {sight : Sight}

/-- The violations of events that are followed by others come first. -/
theorem Follows.append {first second : List Event} {middle : Sight} {found more : List Violation}
    (h : Follows first context middle found)
    (h' : ∀ last : Context, last.view.Matches middle → Follows second last sight more) :
    Follows (first ++ second) context sight (found ++ more) := by
  cases h with
  | stopped run =>
    refine .stopped ?_
    rw [runAll_append, run, RunResult.andThen_error]
  | @passed names middle run changed shown =>
    have hrun : runAll (first ++ second) context = (runAll second middle).map
        fun others => (names ++ others.1, others.2) := by
      rw [runAll_append, run, RunResult.andThen_ok]
    cases h' middle shown with
    | stopped run' =>
      rw [run'] at hrun
      exact .stopped hrun
    | passed run' changed' shown' =>
      obtain ⟨before, hbefore⟩ := changed
      obtain ⟨declared, hdeclared⟩ := changed'
      rw [run'] at hrun
      rw [hbefore] at hdeclared
      exact .passed hrun ⟨declared, hdeclared⟩ shown'

/-- Events that pass the checks have no violations. -/
theorem Follows.of_lookAll {events : List Event} (declared : List Variable)
    (h : lookAll events context.view = some (context.view.redeclare declared))
    (hview : (context.view.redeclare declared).Matches sight) :
    Follows events context sight [] := by
  rw [← view_runAll] at h
  obtain ⟨⟨names, last⟩, hrun, hlast⟩ := Option.map_eq_some_iff.mp h
  cases hevents : runAll events context with
  | error error => simp [hevents, Except.toOption] at hrun
  | ok result =>
    obtain rfl : result = (names, last) := by simpa [hevents, Except.toOption] using hrun
    have hshown : last.view.Matches sight := by rwa [show last.view = _ from hlast]
    exact .passed hevents ⟨declared, hlast⟩ hshown

/-- Events that pass and declare nothing leave what is seen as it is. -/
theorem Passes.follows {events : List Event} (h : Passes events context.view)
    (hview : context.view.Matches sight) : Follows events context sight [] :=
  .of_lookAll context.view.top.declared h hview

/-- Declaring variables has no violations and adds them to what is seen. -/
theorem follows_declare (vs : List Variable) (hview : context.view.Matches sight) :
    Follows (vs.map .declare) context (sight.adding vs) [] :=
  .of_lookAll _ (lookAll_declare vs context.view) (hview.adding vs)

/-- A clause that reads a variable is stopped if the variable is not declared. -/
theorem follows_require_one (clause : ReadingClause) (v : Variable)
    (hview : context.view.Matches sight) :
    Follows [.require clause v] context sight (sight.unseen clause [v]) := by
  have hdeclared : context.isDeclared v ↔ sight.Declares v := by
    rw [Context.isDeclared_eq]
    exact hview.declares_iff v
  by_cases h : sight.Declares v
  · have hlook : Passes [.require clause v] context.view := by
      rw [Passes, lookAll, look, if_pos ((hview.declares_iff v).mpr h)]
      rfl
    simpa [Sight.unseen, h] using hlook.follows hview
  · have hrun : runAll [.require clause v] context =
        .error (.undeclared ((Context.variableName v).run context).1 clause) := by
      simp [runAll, run, mt hdeclared.mp h]
    have hstopped : Follows [.require clause v] context sight [.unseen clause] := .stopped hrun
    simpa [Sight.unseen, h] using hstopped

/-- Requiring variables has a violation for each one that is not declared. -/
theorem follows_require (clause : ReadingClause) (vs : List Variable)
    (hview : context.view.Matches sight) :
    Follows (vs.map (.require clause)) context sight (sight.unseen clause vs) := by
  induction vs generalizing context with
  | nil => exact Passes.follows rfl hview
  | cons v rest ih =>
    have hunseen : sight.unseen clause (v :: rest) =
        sight.unseen clause [v] ++ sight.unseen clause rest := by
      rw [Sight.unseen, ← List.singleton_append, List.filter_append, List.map_append]
      rfl
    rw [hunseen]
    exact (follows_require_one clause v hview).append fun context hview => ih hview

/-- What is around a scope is as before when the scope has been closed. -/
theorem follows_within {start : Event} {inner : Context} {layer : Layer} {body : List Event}
    {last : Sight} {found : List Violation} (hview : context.view.Matches sight)
    (hstart : start.run context = .ok ([], inner))
    (hinner : inner.view = ⟨layer, context.view.top :: context.view.enclosing⟩)
    (hbody : Follows body inner last found) :
    Follows (start :: body ++ [.close]) context sight found := by
  have hrun : runAll (start :: body ++ [.close]) context =
      (runAll body inner).andThen (runAll [.close]) := by
    rw [List.cons_append, runAll, hstart, RunResult.ok_nil_andThen, runAll_append]
  cases hbody with
  | stopped run =>
    rw [run] at hrun
    exact .stopped hrun
  | @passed names after run changed shown =>
    obtain ⟨declared, hdeclared⟩ := changed
    have hleave : after.leave.view = context.view := by
      rw [Context.view_leave, hdeclared, hinner]
      rfl
    rw [run, RunResult.andThen_ok] at hrun
    have hshown : after.leave.view.Matches sight := by rwa [hleave]
    exact .passed hrun ⟨context.view.top.declared, hleave⟩ hshown

/-- A nested statement has its own violations, and outside everything stays as it is. -/
theorem follows_nested {body : List Event} {last : Sight} {found : List Violation}
    (hview : context.view.Matches sight)
    (hbody : ∀ inner : Context, inner.view.Matches sight.nested → Follows body inner last found) :
    Follows (.openNested :: body ++ [.close]) context sight found :=
  follows_within hview rfl rfl (hbody _ hview.nested)

/-- A subquery has its own violations, starting from what it imports. -/
theorem follows_child {base : Option String} {imports : List Variable} {body : List Event}
    {last : Sight} {found : List Violation} (hview : context.view.Matches sight)
    (hbody : ∀ inner : Context, inner.view.Matches (.inside imports) →
      Follows body inner last found) :
    Follows (.openChild base imports :: body ++ [.close]) context sight found :=
  follows_within hview rfl rfl (hbody _ (.inside imports _))

/-- Retaining variables leaves only these to be seen. -/
theorem follows_retain (vs : List Variable) (hview : context.view.Matches sight) :
    Follows [.retain vs] context (sight.only vs) [] :=
  .of_lookAll vs rfl (hview.only vs)

/-- A projection without items is stopped before anything else. -/
theorem follows_projection {clause : ReadingClause} {items : List Item}
    {found : List Violation} (h : Follows (Item.eventsAll clause items) context sight found) :
    Follows (projectionEvents clause items (Item.eventsAll clause items)) context sight
      (projectionViolations clause items ++ found) := by
  cases items with
  | nil =>
    have hrun : runAll [.reject (.emptyProjection clause)] context =
        .error (.emptyProjection clause) := rfl
    exact .stopped hrun
  | cons item rest => exact h

end Event

/-- A pattern has no violations. -/
theorem Pattern.follows (pattern : Pattern) {context : Context} {sight : Sight}
    (hview : context.view.Matches sight) : Follows pattern.events context sight [] :=
  pattern.passes.follows hview

/-- An item is checked before it is written, and its alias is not checked. -/
theorem Item.follows_parts (clause : ReadingClause) (e : Expr) (item : Item) {context : Context}
    {sight : Sight} (hview : context.view.Matches sight)
    (he : ∀ {after : Context}, after.view.Matches sight →
      Follows e.events after sight (e.violations sight)) :
    Follows (e.reads.map (.require clause) ++ e.events ++ item.aliasEvents) context sight
      (sight.unseen clause e.reads ++ e.violations sight) := by
  have hread := (follows_require clause e.reads hview).append fun context hview => he hview
  have halias := hread.append fun context hview => item.passes_alias.follows hview
  rwa [List.append_nil] at halias

mutual
/-- Rendering an expression stops at its first violation. -/
theorem Expr.follows (e : Expr) {sight : Sight} {context : Context}
    (hview : context.view.Matches sight) : Follows e.events context sight (e.violations sight) := by
  cases e with
  | var _ => exact Passes.follows rfl hview
  | property _ _ => exact Passes.follows rfl hview
  | param _ => exact Passes.follows rfl hview
  | literal _ => exact Passes.follows rfl hview
  | apply _ arguments => exact Expr.follows_all arguments hview
  | list items => exact Expr.follows_all items hview
  | map entries => exact Expr.follows_entries entries hview
  | project v entries =>
    refine ((passes_names [v]).follows hview).append fun context hview => ?_
    exact MapEntry.follows_all entries hview
  | comprehend pattern filter result =>
    have hfilter := (pattern.follows hview).append fun context hview =>
      Predicate.follows_optional filter hview
    exact hfilter.append fun context hview => result.follows hview
termination_by structural e

/-- Rendering expressions in a row finds their violations. -/
theorem Expr.follows_all (es : List Expr) {sight : Sight} {context : Context}
    (hview : context.view.Matches sight) :
    Follows (Expr.eventsAll es) context sight (Expr.violationsAll es sight) := by
  cases es with
  | nil => exact Passes.follows rfl hview
  | cons e rest => exact (e.follows hview).append fun context hview => Expr.follows_all rest hview
termination_by structural es

/-- Rendering the entries of a map finds their violations. -/
theorem Expr.follows_entries (es : List (String × Expr)) {sight : Sight} {context : Context}
    (hview : context.view.Matches sight) :
    Follows (Expr.eventsEntries es) context sight (Expr.violationsEntries es sight) := by
  match es with
  | [] => exact Passes.follows rfl hview
  | (_, e) :: rest =>
    exact (e.follows hview).append fun context hview => Expr.follows_entries rest hview
termination_by structural es

/-- Rendering the entries of a projection finds their violations. -/
theorem MapEntry.follows_all (es : List MapEntry) {sight : Sight} {context : Context}
    (hview : context.view.Matches sight) :
    Follows (MapEntry.eventsAll es) context sight (MapEntry.violationsAll es sight) := by
  match es with
  | [] => exact Passes.follows rfl hview
  | .stored _ :: rest => exact MapEntry.follows_all rest hview
  | .computed _ e :: rest =>
    exact (e.follows hview).append fun context hview => MapEntry.follows_all rest hview
termination_by structural es

/-- Rendering a predicate stops at its first violation. -/
theorem Predicate.follows (p : Predicate) {sight : Sight} {context : Context}
    (hview : context.view.Matches sight) : Follows p.events context sight (p.violations sight) := by
  cases p with
  | compare comparison left right =>
    refine (left.follows hview).append fun context hview => ?_
    split
    · exact Passes.follows rfl hview
    · exact Expr.follows_optional right hview
  | all parts => exact Predicate.follows_all parts hview
  | any parts => exact Predicate.follows_all parts hview
  | not part => exact part.follows hview
  | exist body => exact follows_nested hview fun context hview => body.follows hview
  | single v list filter =>
    have hlist := ((passes_names [v]).follows hview).append fun context hview =>
      list.follows hview
    exact hlist.append fun context hview => Predicate.follows_optional filter hview
termination_by structural p

/-- Rendering an expression that may be absent finds its violations. -/
theorem Expr.follows_optional (e : Option Expr) {sight : Sight} {context : Context}
    (hview : context.view.Matches sight) :
    Follows (Expr.eventsOptional e) context sight (Expr.violationsOptional e sight) := by
  cases e with
  | none => exact Passes.follows rfl hview
  | some e => exact e.follows hview
termination_by structural e

/-- Rendering a predicate that may be absent finds its violations. -/
theorem Predicate.follows_optional (p : Option Predicate) {sight : Sight} {context : Context}
    (hview : context.view.Matches sight) :
    Follows (Predicate.eventsOptional p) context sight (Predicate.violationsOptional p sight) := by
  cases p with
  | none => exact Passes.follows rfl hview
  | some p => exact p.follows hview
termination_by structural p

/-- Rendering predicates in a row finds their violations. -/
theorem Predicate.follows_all (ps : List Predicate) {sight : Sight} {context : Context}
    (hview : context.view.Matches sight) :
    Follows (Predicate.eventsAll ps) context sight (Predicate.violationsAll ps sight) := by
  cases ps with
  | nil => exact Passes.follows rfl hview
  | cons p rest =>
    exact (p.follows hview).append fun context hview => Predicate.follows_all rest hview
termination_by structural ps

/-- Rendering an item finds its violations. -/
theorem Item.follows (clause : ReadingClause) (item : Item) {sight : Sight} {context : Context}
    (hview : context.view.Matches sight) :
    Follows (item.events clause) context sight (item.violations clause sight) := by
  cases item with
  | plain e => exact Item.follows_parts clause e (.plain e) hview (e.follows ·)
  | aliased e v => exact Item.follows_parts clause e (.aliased e v) hview (e.follows ·)
  | named e s => exact Item.follows_parts clause e (.named e s) hview (e.follows ·)
termination_by structural item

/-- Rendering items in a row finds their violations. -/
theorem Item.follows_all (clause : ReadingClause) (items : List Item) {sight : Sight}
    {context : Context} (hview : context.view.Matches sight) :
    Follows (Item.eventsAll clause items) context sight
      (Item.violationsAll clause items sight) := by
  cases items with
  | nil => exact Passes.follows rfl hview
  | cons item rest =>
    exact (item.follows clause hview).append fun context hview => Item.follows_all clause rest hview
termination_by structural items

/-- Rendering sort keys finds their violations. -/
theorem Statement.follows_keys (keys : List (Expr × SortDirection)) {sight : Sight}
    {context : Context} (hview : context.view.Matches sight) :
    Follows (Statement.keyEvents keys) context sight (Statement.violationsKeys keys sight) := by
  match keys with
  | [] => exact Passes.follows rfl hview
  | (e, _) :: rest =>
    exact (e.follows hview).append fun context hview => Statement.follows_keys rest hview
termination_by structural keys

/-- Rendering a statement stops at its first violation, and without one it leaves the variables
declared that can be seen after the statement. -/
theorem Statement.follows (s : Statement) {sight : Sight} {context : Context}
    (hview : context.view.Matches sight) :
    Follows s.events context (s.after sight) (s.violations sight) := by
  cases s with
  | matching _ pattern clauses =>
    have hpattern := (follows_declare pattern.bound hview).append fun context hview =>
      pattern.follows hview
    exact hpattern.append fun context hview => Statement.follows_clauses clauses hview
  | filtering parts => exact Predicate.follows_all parts hview
  | returning _ items => exact follows_projection (Item.follows_all .returning items hview)
  | calling body imports base clauses =>
    -- What is imported is checked outside, and the body starts from what it imports.
    have hcall : Follows (imports.map (.require .calling) ++ imports.map .name ++
        (.openChild base imports :: body.events ++ [.close])) context sight
        (sight.unseen .calling imports ++ [] ++ body.violations (.inside imports)) := by
      have hnames := (follows_require .calling imports hview).append fun context hview =>
        (passes_names imports).follows hview
      refine hnames.append fun context hview => ?_
      exact follows_child hview fun context hview => body.follows hview
    have hdeclare := hcall.append fun context hview => follows_declare body.returned hview
    have hclauses := hdeclare.append fun context hview => Statement.follows_clauses clauses hview
    simpa [Statement.events, Statement.violations, Statement.after] using hclauses
  | passing _ items clauses =>
    have hitems := follows_projection (Item.follows_all .passing items hview)
    have hretain := hitems.append fun context hview =>
      follows_retain (items.filterMap Item.introduced?) hview
    have hclauses := hretain.append fun context hview => Statement.follows_clauses clauses hview
    simpa [Statement.events, Statement.violations, Statement.after] using hclauses
  | passingAll _ clauses => exact Statement.follows_clauses clauses hview
  | ordering keys => exact Statement.follows_keys keys hview
  | skipping _ => exact Passes.follows rfl hview
  | limiting _ => exact Passes.follows rfl hview
termination_by structural s

/-- Rendering clauses in a row finds their violations, each in what the clauses before it leave to
be seen. -/
theorem Statement.follows_clauses (ss : List Statement) {sight : Sight} {context : Context}
    (hview : context.view.Matches sight) :
    Follows (Statement.eventsAll ss) context (Statement.afterAll ss sight)
        (Statement.violationsAll ss sight) := by
  cases ss with
  | nil => exact Passes.follows rfl hview
  | cons s rest =>
    exact (s.follows hview).append fun context hview => Statement.follows_clauses rest hview
termination_by structural ss
end

/-- How building ends: with a query, or with a violation. -/
def Statement.verdict (s : Statement) (options : RenderOptions) : Option Violation :=
  match s.build options with
  | .ok _ => none
  | .error error => some error.violation

/-- The outermost scope declares nothing. -/
theorem Context.matches_initial (options : RenderOptions) :
    (Context.initial options).view.Matches (.inside []) := .inside [] []

/-- A statement is rejected for its first violation, and accepted if there is none. -/
theorem Statement.verdict_eq_head? (s : Statement) (options : RenderOptions) :
    s.verdict options = (s.violations (.inside [])).head? := by
  have hfollows := s.follows (Context.matches_initial options)
  revert hfollows
  generalize s.violations (.inside []) = found
  intro hfollows
  cases hfollows with
  | passed run changed shown =>
    obtain ⟨text, hbuild, -⟩ := Statement.build_ok run
    rw [Statement.verdict, hbuild]
    rfl
  | stopped run =>
    rw [Statement.verdict, Statement.build_error run]
    rfl

/-- A query is built exactly if its tree has no violations. Otherwise the error is of the kind and
about the clause of the first violation. Options decide about names alone. -/
theorem Statement.build_stops_at_first_violation (s : Statement) (options : RenderOptions) :
    ((∃ query, s.build options = .ok query) ↔ s.violations (.inside []) = []) ∧
      (∀ violation, (∃ error, s.build options = .error error ∧ error.violation = violation) ↔
        (s.violations (.inside [])).head? = some violation) ∧
      ∀ other : RenderOptions, s.verdict other = s.verdict options := by
  have hverdict := s.verdict_eq_head? options
  refine ⟨?_, ?_, fun other => (s.verdict_eq_head? other).trans hverdict.symm⟩
  · rw [← List.head?_eq_none_iff, ← hverdict, Statement.verdict]
    cases s.build options <;> simp
  · intro violation
    rw [← hverdict, Statement.verdict]
    cases s.build options <;> simp

end GraphRead
