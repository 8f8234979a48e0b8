import GraphRead.Proofs.Rendering.Refinement

/-!
# Scoping

Which variables can be read at a point of a query tree follows from the clauses
around it. A tree is well scoped if every variable that it reads can be seen where
it is read, and if every pattern of a subquery, of an existence test and of a
comprehension starts from a node that can be seen there. Rendering checks much
less: only projections and imports, and without the variables of comprehensions.
A well-scoped tree passes these checks, so it can always be rendered.
-/

namespace GraphRead

open Event

/-- The variables that can be seen at a point of a query tree. -/
structure Sight where
  /-- Those of the scope itself. -/
  own : List Variable
  /-- Those of the scopes around an existence test. -/
  outer : List Variable
  /-- Those that are bound by the comprehensions around the point. -/
  bound : List Variable

namespace Sight

/-- A clause around the point makes the variable known. -/
def Declares (sight : Sight) (v : Variable) : Prop := v ∈ sight.own ∨ v ∈ sight.outer

/-- The variable can be seen. -/
def Sees (sight : Sight) (v : Variable) : Prop := sight.Declares v ∨ v ∈ sight.bound

/-- What a subquery sees. -/
def inside (imports : List Variable) : Sight := ⟨imports, [], []⟩

/-- What the body of an existence test sees. -/
def nested (sight : Sight) : Sight := ⟨[], sight.own ++ sight.outer, sight.bound⟩

/-- What is seen inside a comprehension. -/
def binding (vs : List Variable) (sight : Sight) : Sight :=
  { sight with bound := vs ++ sight.bound }

/-- What is seen after further variables have become known. -/
def adding (vs : List Variable) (sight : Sight) : Sight := { sight with own := vs ++ sight.own }

/-- What is seen after all other variables of the scope have been dropped. -/
def only (vs : List Variable) (sight : Sight) : Sight := { sight with own := vs }

/-- A pattern starts from a node that can be seen. -/
def Anchors (sight : Sight) (pattern : Pattern) : Prop :=
  ∃ v, pattern.start.bound = some v ∧ sight.Sees v

end Sight

mutual
/-- What can be seen after a statement. -/
def Statement.after : Statement → Sight → Sight
  | .matching _ pattern clauses, sight => Statement.afterAll clauses (sight.adding pattern.bound)
  | .calling body _ _ clauses, sight => Statement.afterAll clauses (sight.adding body.returned)
  | .passing _ items clauses, sight =>
    Statement.afterAll clauses (sight.only (items.filterMap Item.introduced?))
  | .passingAll _ clauses, sight => Statement.afterAll clauses sight
  | .filtering _, sight | .returning _ _, sight | .ordering _, sight | .skipping _, sight
  | .limiting _, sight => sight
termination_by structural s => s

/-- What can be seen after statements. -/
def Statement.afterAll : List Statement → Sight → Sight
  | [], sight => sight
  | s :: rest, sight => Statement.afterAll rest (s.after sight)
termination_by structural ss => ss
end

mutual
/-- An expression reads only what can be seen. -/
def Expr.Scoped : Expr → Sight → Prop
  | .var v, sight => sight.Sees v
  | .property v _, sight => sight.Sees v
  | .param _, _ => True
  | .literal _, _ => True
  | .apply _ arguments, sight => Expr.AllScoped arguments sight
  | .list items, sight => Expr.AllScoped items sight
  | .map entries, sight => Expr.EntriesScoped entries sight
  | .project v entries, sight => sight.Sees v ∧ MapEntry.AllScoped entries sight
  | .comprehend pattern filter result, sight =>
    sight.Anchors pattern ∧ Predicate.OptionalScoped filter (sight.binding pattern.bound) ∧
      result.Scoped (sight.binding pattern.bound)
termination_by structural e => e

/-- Expressions read only what can be seen. -/
def Expr.AllScoped : List Expr → Sight → Prop
  | [], _ => True
  | e :: rest, sight => e.Scoped sight ∧ Expr.AllScoped rest sight
termination_by structural es => es

/-- The values of a map read only what can be seen. -/
def Expr.EntriesScoped : List (String × Expr) → Sight → Prop
  | [], _ => True
  | (_, e) :: rest, sight => e.Scoped sight ∧ Expr.EntriesScoped rest sight
termination_by structural es => es

/-- The computed entries of a map read only what can be seen. -/
def MapEntry.AllScoped : List MapEntry → Sight → Prop
  | [], _ => True
  | .stored _ :: rest, sight => MapEntry.AllScoped rest sight
  | .computed _ e :: rest, sight => e.Scoped sight ∧ MapEntry.AllScoped rest sight
termination_by structural es => es

/-- A predicate reads only what can be seen. -/
def Predicate.Scoped : Predicate → Sight → Prop
  | .compare _ left right, sight => left.Scoped sight ∧ Expr.OptionalScoped right sight
  | .all parts, sight => Predicate.AllScoped parts sight
  | .any parts, sight => Predicate.AllScoped parts sight
  | .not part, sight => part.Scoped sight
  | .exist body, sight => body.Scoped sight.nested
  | .single v list filter, sight =>
    list.Scoped sight ∧ Predicate.OptionalScoped filter (sight.binding [v])
termination_by structural p => p

/-- An expression that may be missing reads only what can be seen. -/
def Expr.OptionalScoped : Option Expr → Sight → Prop
  | none, _ => True
  | some e, sight => e.Scoped sight
termination_by structural e => e

/-- A predicate that may be missing reads only what can be seen. -/
def Predicate.OptionalScoped : Option Predicate → Sight → Prop
  | none, _ => True
  | some p, sight => p.Scoped sight
termination_by structural p => p

/-- Predicates read only what can be seen. -/
def Predicate.AllScoped : List Predicate → Sight → Prop
  | [], _ => True
  | p :: rest, sight => p.Scoped sight ∧ Predicate.AllScoped rest sight
termination_by structural ps => ps

/-- An item of a projection reads only what can be seen. What it reads outside of its own
comprehensions has to be declared: a projection does not see the comprehensions around it. -/
def Item.Scoped : Item → Sight → Prop
  | .plain e, sight => e.Scoped sight ∧ ∀ v ∈ e.reads, sight.Declares v
  | .aliased e _, sight => e.Scoped sight ∧ ∀ v ∈ e.reads, sight.Declares v
  | .named e _, sight => e.Scoped sight ∧ ∀ v ∈ e.reads, sight.Declares v
termination_by structural item => item

/-- The items of a projection read only what can be seen. -/
def Item.AllScoped : List Item → Sight → Prop
  | [], _ => True
  | item :: rest, sight => item.Scoped sight ∧ Item.AllScoped rest sight
termination_by structural items => items

/-- The keys of a sort read only what can be seen. -/
def Statement.KeysScoped : List (Expr × SortDirection) → Sight → Prop
  | [], _ => True
  | (e, _) :: rest, sight => e.Scoped sight ∧ Statement.KeysScoped rest sight
termination_by structural keys => keys

/-- A statement of a subquery or of an existence test reads only what can be seen. -/
def Statement.Scoped : Statement → Sight → Prop
  | .matching _ pattern clauses, sight =>
    sight.Anchors pattern ∧ Statement.AllScoped clauses (sight.adding pattern.bound)
  | .filtering parts, sight => Predicate.AllScoped parts sight
  | .returning _ items, sight => items ≠ [] ∧ Item.AllScoped items sight
  | .calling body imports _ clauses, sight =>
    (∀ v ∈ imports, sight.Declares v) ∧ body.Scoped (.inside imports) ∧
      Statement.AllScoped clauses (sight.adding body.returned)
  | .passing _ items clauses, sight =>
    items ≠ [] ∧ Item.AllScoped items sight ∧
      Statement.AllScoped clauses (sight.only (items.filterMap Item.introduced?))
  | .passingAll _ clauses, sight => Statement.AllScoped clauses sight
  | .ordering keys, sight => Statement.KeysScoped keys sight
  | .skipping _, _ => True
  | .limiting _, _ => True
termination_by structural s => s

/-- Statements one after another read only what can be seen. -/
def Statement.AllScoped : List Statement → Sight → Prop
  | [], _ => True
  | s :: rest, sight => s.Scoped sight ∧ Statement.AllScoped rest (s.after sight)
termination_by structural ss => ss
end

/-- A whole query is well scoped. Only its first pattern may start from a node that is not known
yet. -/
def Statement.WellScoped : Statement → Prop
  | .matching _ pattern clauses => Statement.AllScoped clauses (.inside pattern.bound)
  | s => s.Scoped (.inside [])

/-- What of a scope decides about the variables that are declared in it. -/
structure Layer where
  declared : List Variable
  inherits : Bool

/-- Whether a variable is declared in the first of some scopes or in one that it sees. -/
def Layer.visible (v : Variable) : List Layer → Bool
  | [] => false
  | layer :: rest => v ∈ layer.declared || (layer.inherits && visible v rest)

/-- The innermost scope and those around it. -/
structure View where
  top : Layer
  enclosing : List Layer

namespace View

/-- Whether a variable is declared. -/
def declares (view : View) (v : Variable) : Bool := Layer.visible v (view.top :: view.enclosing)

/-- The view with other variables declared in the innermost scope. -/
def redeclare (view : View) (vs : List Variable) : View := ⟨⟨vs, view.top.inherits⟩, view.enclosing⟩

/-- The view after a scope has been closed. -/
def leave (view : View) : View :=
  match view.enclosing with
  | [] => view
  | outer :: rest => ⟨outer, rest⟩

end View

namespace Event

/-- What an event does to a view, if it passes the checks of rendering. -/
def look : Event → View → Option View
  | .require _ v, view => if view.declares v then some view else none
  | .reject _, _ => none
  | .declare v, view => some (view.redeclare (v :: view.top.declared))
  | .retain vs, view => some (view.redeclare vs)
  | .openChild _ imports, view => some ⟨⟨imports, false⟩, view.top :: view.enclosing⟩
  | .openNested, view => some ⟨⟨[], true⟩, view.top :: view.enclosing⟩
  | .close, view => some view.leave
  | .name _, view | .param _, view | .page _, view => some view

/-- What events do to a view, if all of them pass. -/
def lookAll : List Event → View → Option View
  | [], view => some view
  | event :: rest, view => (event.look view).bind (lookAll rest)

/-- Events in a row are looked at one after the other. -/
theorem lookAll_append (first second : List Event) (view : View) :
    lookAll (first ++ second) view = (lookAll first view).bind (lookAll second) := by
  induction first generalizing view with
  | nil => rfl
  | cons event rest ih =>
    simp only [List.cons_append, lookAll, Option.bind_assoc]
    congr 1
    funext after
    exact ih after

end Event

/-- What a scope declares. -/
def Scope.layer (scope : Scope) : Layer := ⟨scope.declared, scope.inherits⟩

namespace Context

/-- The scopes of a context. -/
def view (context : Context) : View := ⟨context.scope.layer, context.enclosing.map Scope.layer⟩

/-- What is visible in scopes is what is visible in their layers. -/
theorem visible_eq (v : Variable) (scope : Scope) (enclosing : List Scope) :
    visible v scope enclosing = Layer.visible v (scope.layer :: enclosing.map Scope.layer) := by
  induction enclosing generalizing scope with
  | nil =>
    simp only [visible, Layer.visible, List.map_nil, Bool.and_false, Bool.or_false]
    rfl
  | cons outer rest ih =>
    rw [visible, ih outer]
    rfl

/-- What is declared in a context is what is declared in its view. -/
theorem isDeclared_eq (context : Context) (v : Variable) :
    context.isDeclared v = context.view.declares v := visible_eq v context.scope context.enclosing

/-- Leaving a scope leaves its layer. -/
theorem view_leave (context : Context) : context.leave.view = context.view.leave := by
  obtain ⟨options, names, scope, enclosing, variableNames, paramNames, params, depth⟩ := context
  cases enclosing <;> rfl

/-- Asking for a name does not change what is declared. -/
theorem view_variableName (v : Variable) (context : Context) :
    ((variableName v).run context).2.view = context.view := by
  cases hname : v.name with
  | some name => rw [run_variableName_fixed hname]
  | none =>
    cases hlookup : context.variableNames.lookup v with
    | some name => rw [run_variableName_some hname hlookup]
    | none =>
      rw [run_variableName_none hname hlookup]
      rfl

/-- Naming a parameter declares nothing. -/
theorem view_paramName (p : Param) (context : Context) :
    ((paramName p).run context).2.view = context.view := by
  cases hlookup : context.paramNames.lookup p with
  | some name => rw [run_paramName_some hlookup]
  | none =>
    rw [run_paramName_none hlookup]
    rfl

end Context

namespace Event

/-- The checks of rendering depend on the scopes alone. -/
theorem view_run (event : Event) (context : Context) :
    (event.run context).toOption.map (fun result => result.2.view) = event.look context.view := by
  cases event with
  | name v => exact congrArg some (Context.view_variableName v context)
  | param p => exact congrArg some (Context.view_paramName p context)
  | require clause v =>
    rw [run, look, Context.isDeclared_eq]
    split <;> rfl
  | close => exact congrArg some (Context.view_leave context)
  | _ => rfl

/-- A run does to the view of its context what looking at the events does, and it fails where that
fails. -/
theorem view_runAll (events : List Event) (context : Context) :
    (runAll events context).toOption.map (fun result => result.2.view) =
      lookAll events context.view := by
  induction events generalizing context with
  | nil => rfl
  | cons event rest ih =>
    rw [lookAll, ← view_run, runAll]
    cases event.run context with
    | error error => rfl
    | ok result =>
      obtain ⟨names, middle⟩ := result
      rw [RunResult.andThen_ok]
      simp only [Except.toOption, Option.map_some, Option.bind_some, ← ih middle]
      cases runAll rest middle <;> rfl

end Event

/-- What is declared at a point of a tree is declared while it is rendered. -/
structure View.Shows (view : View) (sight : Sight) : Prop where
  own : ∀ v ∈ sight.own, v ∈ view.top.declared
  outer : ∀ v ∈ sight.outer, view.top.inherits ∧ Layer.visible v view.enclosing

namespace View.Shows

variable {view : View} {sight : Sight}

/-- What is declared in sight is declared in the view. -/
theorem declares (h : view.Shows sight) {v : Variable} (hv : sight.Declares v) :
    view.declares v := by
  rw [View.declares, Layer.visible, Bool.or_eq_true, Bool.and_eq_true, decide_eq_true_eq]
  exact hv.imp (h.own v) (h.outer v)

/-- Rendering does not know of the variables of comprehensions. -/
theorem binding (h : view.Shows sight) (vs : List Variable) : view.Shows (sight.binding vs) :=
  ⟨h.own, h.outer⟩

/-- A subquery shows what it imports. -/
theorem inside (view : View) (imports : List Variable) :
    View.Shows ⟨⟨imports, false⟩, view.top :: view.enclosing⟩ (.inside imports) where
  own _ hv := hv
  outer := by simp [Sight.inside]

/-- A nested statement shows what is seen around it. -/
theorem nested (h : view.Shows sight) :
    View.Shows ⟨⟨[], true⟩, view.top :: view.enclosing⟩ sight.nested where
  own := by simp [Sight.nested]
  outer := fun _ hv => ⟨rfl, h.declares (List.mem_append.mp hv)⟩

/-- Declaring variables shows them. -/
theorem adding (h : view.Shows sight) (vs : List Variable) :
    (view.redeclare (vs.reverse ++ view.top.declared)).Shows (sight.adding vs) where
  own := by
    intro v hv
    rcases List.mem_append.mp hv with hnew | hold
    · exact List.mem_append_left _ (List.mem_reverse.mpr hnew)
    · exact List.mem_append_right _ (h.own v hold)
  outer := h.outer

/-- Keeping some variables shows these. -/
theorem only (h : view.Shows sight) (vs : List Variable) :
    (view.redeclare vs).Shows (sight.only vs) where
  own _ hv := hv
  outer := h.outer

end View.Shows

namespace Event

variable {view : View} {sight : Sight}

/-- Events pass the checks of rendering and leave the scopes as they are. -/
def Passes (events : List Event) (view : View) : Prop := lookAll events view = some view

/-- Events pass the checks of rendering and change only what is declared in the innermost scope,
to what can be seen then. -/
def Reaches (events : List Event) (view : View) (sight : Sight) : Prop :=
  ∃ declared, lookAll events view = some (view.redeclare declared) ∧
    (view.redeclare declared).Shows sight

/-- Events in a row pass, if the first and the others do. -/
theorem Passes.append {first second : List Event} (h : Passes first view)
    (h' : Passes second view) : Passes (first ++ second) view := by
  rw [Passes, lookAll_append, h]
  exact h'

/-- Events that pass reach what is shown already. -/
theorem Passes.reaches {first : List Event} (h : Passes first view) (hsight : view.Shows sight) :
    Reaches first view sight := ⟨view.top.declared, h, hsight⟩

/-- Events that reach a sight are followed by events that go on from there. -/
theorem Reaches.append {first second : List Event} {middle : Sight}
    (h : Reaches first view middle)
    (h' : ∀ view : View, view.Shows middle → Reaches second view sight) :
    Reaches (first ++ second) view sight := by
  obtain ⟨declared, hlook, hshows⟩ := h
  obtain ⟨last, hrest, hlast⟩ := h' _ hshows
  exact ⟨last, by rw [lookAll_append, hlook]; exact hrest, hlast⟩

/-- Naming variables passes. -/
theorem passes_names (vs : List Variable) : Passes (vs.map .name) view := by
  induction vs with
  | nil => rfl
  | cons v rest ih => exact ih

/-- Naming parameters passes. -/
theorem passes_params (properties : List (String × Param)) :
    Passes (properties.map fun entry => .param entry.2) view := by
  induction properties with
  | nil => rfl
  | cons entry rest ih => exact ih

/-- Variables that are declared may be read. -/
theorem passes_require (clause : ReadingClause) {vs : List Variable} (hview : view.Shows sight)
    (h : ∀ v ∈ vs, sight.Declares v) : Passes (vs.map (.require clause)) view := by
  induction vs with
  | nil => rfl
  | cons v rest ih =>
    rw [List.forall_mem_cons] at h
    rw [Passes, List.map_cons, lookAll, look, if_pos (hview.declares h.1)]
    exact ih h.2

/-- Declaring variables puts them in front of those that are declared. -/
theorem lookAll_declare (vs : List Variable) (view : View) :
    lookAll (vs.map .declare) view =
      some (view.redeclare (vs.reverse ++ view.top.declared)) := by
  induction vs generalizing view with
  | nil => rfl
  | cons v rest ih =>
    rw [List.map_cons, lookAll, look, Option.bind_some, ih]
    simp [View.redeclare]

/-- Declaring variables reaches a sight with them added. -/
theorem reaches_declare (vs : List Variable) (hview : view.Shows sight) :
    Reaches (vs.map .declare) view (sight.adding vs) :=
  ⟨vs.reverse ++ view.top.declared, lookAll_declare vs view, hview.adding vs⟩

/-- The body of an existence test leaves nothing behind. -/
theorem passes_nested {body : List Event} {last : Sight}
    (h : Reaches body ⟨⟨[], true⟩, view.top :: view.enclosing⟩ last) :
    Passes (.openNested :: body ++ [.close]) view := by
  obtain ⟨declared, hlook, -⟩ := h
  rw [Passes, List.cons_append, lookAll, look, Option.bind_some, lookAll_append, hlook]
  rfl

/-- A subquery passes, if its body reaches anything. The scope around it is as it was. -/
theorem passes_child {body : List Event} {base : Option String} {imports : List Variable}
    {last : Sight} (h : Reaches body ⟨⟨imports, false⟩, view.top :: view.enclosing⟩ last) :
    Passes (.openChild base imports :: body ++ [.close]) view := by
  obtain ⟨declared, hlook, -⟩ := h
  rw [Passes, List.cons_append, lookAll, look, Option.bind_some, lookAll_append, hlook]
  rfl

end Event

/-- Patterns are not checked. -/
theorem NodePattern.passes (node : NodePattern) {view : View} : Passes node.events view :=
  (passes_names _).append (passes_params _)

/-- A pattern passes. -/
theorem Pattern.passes (pattern : Pattern) {view : View} : Passes pattern.events view := by
  have hhops (hops : List (RelationshipPattern × NodePattern)) :
      Passes (Pattern.hopEvents hops) view := by
    induction hops with
    | nil => rfl
    | cons hop rest ih => exact ((passes_names _).append hop.2.passes).append ih
  exact pattern.start.passes.append (hhops pattern.hops)

/-- What an item is called passes. -/
theorem Item.passes_alias (item : Item) {view : View} : Passes item.aliasEvents view := by
  unfold Item.aliasEvents
  split
  · rfl
  · rfl
  · split <;> rfl
  · rfl

mutual
/-- A well-scoped expression passes the checks of rendering. -/
theorem Expr.passes (e : Expr) {sight : Sight} {view : View} (h : e.Scoped sight)
    (hview : view.Shows sight) : Passes e.events view := by
  cases e with
  | var _ => rfl
  | property _ _ => rfl
  | param _ => rfl
  | literal _ => rfl
  | apply _ arguments => exact Expr.passes_all arguments h hview
  | list items => exact Expr.passes_all items h hview
  | map entries => exact Expr.passes_entries entries h hview
  | project v entries =>
    obtain ⟨-, hentries⟩ := h
    exact (passes_names [v]).append (MapEntry.passes_all entries hentries hview)
  | comprehend pattern filter result =>
    obtain ⟨-, hfilter, hresult⟩ := h
    -- The variables of the pattern are seen by the condition and by the result.
    have hinner := hview.binding pattern.bound
    refine (pattern.passes.append (Predicate.passes_optional filter hfilter hinner)).append ?_
    exact result.passes hresult hinner
termination_by structural e

/-- Well scoped expressions in a row pass. -/
theorem Expr.passes_all (es : List Expr) {sight : Sight} {view : View}
    (h : Expr.AllScoped es sight) (hview : view.Shows sight) : Passes (Expr.eventsAll es) view := by
  cases es with
  | nil => rfl
  | cons e rest =>
    obtain ⟨hfirst, hrest⟩ := h
    exact (e.passes hfirst hview).append (Expr.passes_all rest hrest hview)
termination_by structural es

/-- Well scoped entries of a map pass. -/
theorem Expr.passes_entries (es : List (String × Expr)) {sight : Sight} {view : View}
    (h : Expr.EntriesScoped es sight) (hview : view.Shows sight) :
    Passes (Expr.eventsEntries es) view := by
  match es with
  | [] => rfl
  | (_, e) :: rest =>
    obtain ⟨hfirst, hrest⟩ := h
    exact (e.passes hfirst hview).append (Expr.passes_entries rest hrest hview)
termination_by structural es

/-- Well scoped entries of a projection pass. -/
theorem MapEntry.passes_all (es : List MapEntry) {sight : Sight} {view : View}
    (h : MapEntry.AllScoped es sight) (hview : view.Shows sight) :
    Passes (MapEntry.eventsAll es) view := by
  match es with
  | [] => rfl
  | .stored _ :: rest => exact MapEntry.passes_all rest h hview
  | .computed _ e :: rest =>
    obtain ⟨hfirst, hrest⟩ := h
    exact (e.passes hfirst hview).append (MapEntry.passes_all rest hrest hview)
termination_by structural es

/-- A well-scoped predicate passes the checks of rendering. -/
theorem Predicate.passes (p : Predicate) {sight : Sight} {view : View} (h : p.Scoped sight)
    (hview : view.Shows sight) : Passes p.events view := by
  cases p with
  | compare comparison left right =>
    obtain ⟨hleft, hright⟩ := h
    refine (left.passes hleft hview).append ?_
    split
    · rfl
    · exact Expr.passes_optional right hright hview
  | all parts => exact Predicate.passes_all parts h hview
  | any parts => exact Predicate.passes_all parts h hview
  | not part => exact part.passes h hview
  | exist body => exact passes_nested (body.reaches h hview.nested)
  | single v list filter =>
    obtain ⟨hlist, hfilter⟩ := h
    refine ((passes_names [v]).append (list.passes hlist hview)).append ?_
    exact Predicate.passes_optional filter hfilter (hview.binding _)
termination_by structural p

/-- A well scoped expression passes, if there is one. -/
theorem Expr.passes_optional (e : Option Expr) {sight : Sight} {view : View}
    (h : Expr.OptionalScoped e sight) (hview : view.Shows sight) :
    Passes (Expr.eventsOptional e) view := by
  cases e with
  | none => rfl
  | some e => exact e.passes h hview
termination_by structural e

/-- A well scoped predicate passes, if there is one. -/
theorem Predicate.passes_optional (p : Option Predicate) {sight : Sight} {view : View}
    (h : Predicate.OptionalScoped p sight) (hview : view.Shows sight) :
    Passes (Predicate.eventsOptional p) view := by
  cases p with
  | none => rfl
  | some p => exact p.passes h hview
termination_by structural p

/-- Well scoped predicates in a row pass. -/
theorem Predicate.passes_all (ps : List Predicate) {sight : Sight} {view : View}
    (h : Predicate.AllScoped ps sight) (hview : view.Shows sight) :
    Passes (Predicate.eventsAll ps) view := by
  cases ps with
  | nil => rfl
  | cons p rest =>
    obtain ⟨hfirst, hrest⟩ := h
    exact (p.passes hfirst hview).append (Predicate.passes_all rest hrest hview)
termination_by structural ps

/-- A well scoped item passes, since what it reads is declared. -/
theorem Item.passes (clause : ReadingClause) (item : Item) {sight : Sight} {view : View}
    (h : item.Scoped sight) (hview : view.Shows sight) : Passes (item.events clause) view := by
  cases item with
  | plain e =>
    obtain ⟨he, hreads⟩ := h
    refine ((passes_require clause hview hreads).append (e.passes he hview)).append ?_
    exact Item.passes_alias _
  | aliased e _ =>
    obtain ⟨he, hreads⟩ := h
    refine ((passes_require clause hview hreads).append (e.passes he hview)).append ?_
    exact Item.passes_alias _
  | named e _ =>
    obtain ⟨he, hreads⟩ := h
    refine ((passes_require clause hview hreads).append (e.passes he hview)).append ?_
    exact Item.passes_alias _
termination_by structural item

/-- Well scoped items in a row pass. -/
theorem Item.passes_all (clause : ReadingClause) (items : List Item) {sight : Sight} {view : View}
    (h : Item.AllScoped items sight) (hview : view.Shows sight) :
    Passes (Item.eventsAll clause items) view := by
  cases items with
  | nil => rfl
  | cons item rest =>
    obtain ⟨hfirst, hrest⟩ := h
    exact (item.passes clause hfirst hview).append (Item.passes_all clause rest hrest hview)
termination_by structural items

/-- Well scoped sort keys pass. -/
theorem Statement.passes_keys (keys : List (Expr × SortDirection)) {sight : Sight} {view : View}
    (h : Statement.KeysScoped keys sight) (hview : view.Shows sight) :
    Passes (Statement.keyEvents keys) view := by
  match keys with
  | [] => rfl
  | (e, _) :: rest =>
    obtain ⟨hfirst, hrest⟩ := h
    exact (e.passes hfirst hview).append (Statement.passes_keys rest hrest hview)
termination_by structural keys

/-- A well-scoped statement passes the checks of rendering, and what can be seen after it is
declared after it. -/
theorem Statement.reaches (s : Statement) {sight : Sight} {view : View} (h : s.Scoped sight)
    (hview : view.Shows sight) : Reaches s.events view (s.after sight) := by
  cases s with
  | matching _ pattern clauses =>
    obtain ⟨-, hclauses⟩ := h
    have hdeclare := reaches_declare pattern.bound hview
    have hpattern := hdeclare.append fun view hview => pattern.passes.reaches hview
    exact hpattern.append fun view hview => Statement.reaches_all clauses hclauses hview
  | filtering parts => exact (Predicate.passes_all parts h hview).reaches hview
  | returning _ items =>
    obtain ⟨hnonempty, hitems⟩ := h
    rw [Statement.events, projectionEvents, if_neg (by simpa using hnonempty)]
    exact (Item.passes_all .returning items hitems hview).reaches hview
  | calling body imports base clauses =>
    obtain ⟨himports, hbody, hclauses⟩ := h
    have hnames := (passes_require .calling hview himports).append (passes_names imports)
    -- A subquery is left with the scope in which it was opened, and then its results are declared.
    have hchild : Passes (imports.map (.require .calling) ++ imports.map .name ++
        (.openChild base imports :: body.events ++ [.close])) view :=
      hnames.append (passes_child (body.reaches hbody (.inside view imports)))
    have hdeclare := (hchild.reaches hview).append fun view hview =>
      reaches_declare body.returned hview
    exact hdeclare.append fun view hview => Statement.reaches_all clauses hclauses hview
  | passing _ items clauses =>
    obtain ⟨hnonempty, hitems, hclauses⟩ := h
    rw [Statement.events, projectionEvents, if_neg (by simpa using hnonempty)]
    have hprojection := (Item.passes_all .passing items hitems hview).reaches hview
    have hretained : Reaches (Item.eventsAll .passing items ++
        [.retain (items.filterMap Item.introduced?)]) view
        (sight.only (items.filterMap Item.introduced?)) :=
      hprojection.append fun view hview => ⟨_, rfl, hview.only _⟩
    exact hretained.append fun view hview => Statement.reaches_all clauses hclauses hview
  | passingAll _ clauses => exact Statement.reaches_all clauses h hview
  | ordering keys => exact (Statement.passes_keys keys h hview).reaches hview
  | skipping _ => exact ⟨_, rfl, hview⟩
  | limiting _ => exact ⟨_, rfl, hview⟩
termination_by structural s

/-- Well scoped clauses reach what can be seen after them. -/
theorem Statement.reaches_all (ss : List Statement) {sight : Sight} {view : View}
    (h : Statement.AllScoped ss sight) (hview : view.Shows sight) :
    Reaches (Statement.eventsAll ss) view (Statement.afterAll ss sight) := by
  cases ss with
  | nil => exact ⟨_, rfl, hview⟩
  | cons s rest =>
    obtain ⟨hfirst, hrest⟩ := h
    exact (s.reaches hfirst hview).append fun view hview => Statement.reaches_all rest hrest hview
termination_by structural ss
end

/-- The events of a well-scoped query pass the checks of rendering. -/
theorem Statement.WellScoped.reaches {s : Statement} (h : s.WellScoped) :
    ∃ last, Reaches s.events ⟨⟨[], false⟩, []⟩ last := by
  have hview : View.Shows ⟨⟨[], false⟩, []⟩ (.inside []) := by
    constructor <;> simp [Sight.inside]
  cases s with
  | matching optional pattern clauses =>
    have hdeclare : Reaches (pattern.bound.map .declare) ⟨⟨[], false⟩, []⟩
        (.inside pattern.bound) := by
      have hadding := reaches_declare pattern.bound hview
      rwa [Sight.adding, Sight.inside, List.append_nil] at hadding
    exact ⟨_, (hdeclare.append fun _ hview => pattern.passes.reaches hview).append
      fun _ hview => Statement.reaches_all clauses h hview⟩
  | _ => exact ⟨_, Statement.reaches _ h hview⟩

/-- A well-scoped query can be built. -/
theorem Statement.WellScoped.build_ok {s : Statement} (h : s.WellScoped)
    (options : RenderOptions) : ∃ query, s.build options = .ok query := by
  obtain ⟨last, declared, hlook, -⟩ := h.reaches
  have hview : (Context.initial options).view = ⟨⟨[], false⟩, []⟩ := rfl
  rw [← hview, ← view_runAll] at hlook
  obtain ⟨⟨names, after⟩, hrun, -⟩ := Option.map_eq_some_iff.mp hlook
  cases hevents : runAll s.events (.initial options) with
  | error error => simp [hevents, Except.toOption] at hrun
  | ok result =>
    obtain ⟨text, htext, -⟩ := Statement.build_ok hevents
    exact ⟨_, htext⟩

end GraphRead
