import GraphRead.Cypher.Query

/-!
# Traces of rendering

What rendering a query tree does to its context does not depend on the texts that
come out of it. This file lists, by recursion on the tree, the events of
rendering, and says what a list of events does to a context: it may fail, or it
gives names to pages and leaves a context behind.
-/

namespace GraphRead

/-- One thing that rendering does to its context. -/
inductive Event where
  /-- The name of a variable is asked for. -/
  | name (v : Variable)
  /-- The name of a parameter is asked for. -/
  | param (p : Param)
  /-- The number of rows to skip or to keep is bound. -/
  | page (count : UInt64)
  /-- A clause reads a variable. -/
  | require (clause : ReadingClause) (v : Variable)
  /-- Rendering stops. -/
  | reject (error : BuildError)
  | declare (v : Variable)
  | retain (vs : List Variable)
  /-- The scope of a subquery is opened. -/
  | openChild (base : Option String) (imports : List Variable)
  /-- The scope of an existence test is opened. -/
  | openNested
  | close

/-- What becomes of a context: rendering fails, or it names pages and goes on with another one. -/
abbrev RunResult := Except BuildError (List String × Context)

/-- An outcome followed by further rendering. -/
def RunResult.andThen (outcome : RunResult) (next : Context → RunResult) : RunResult :=
  outcome.bind fun (names, after) => (next after).map fun (others, last) => (names ++ others, last)

namespace Event

/-- What one event does to a context. Only the name of a page is given back, since a context does
not remember it. -/
def run : Event → Context → RunResult
  | .name v, context => .ok ([], ((Context.variableName v).run context).2)
  | .param p, context => .ok ([], ((Context.paramName p).run context).2)
  | .page count, context =>
    let bound := (Context.bindValue (.ofNat count.toNat)).run context
    .ok ([bound.1], bound.2)
  | .require clause v, context =>
    if context.isDeclared v then .ok ([], context)
    else .error (.undeclared ((Context.variableName v).run context).1 clause)
  | .reject error, _ => .error error
  | .declare v, context => .ok ([], ((Context.declare v).run context).2)
  | .retain vs, context => .ok ([], ((Context.retain vs).run context).2)
  | .openChild base imports, context =>
    let named := (Context.allocate (callBase context.options base imports)).run context
    .ok ([], named.2.enter ⟨Names.stemBelow named.1, imports, false⟩)
  | .openNested, context => .ok ([], context.enter ⟨context.scope.stem, [], true⟩)
  | .close, context => .ok ([], context.leave)

/-- What events do to a context, one after another, with the names of their pages. -/
def runAll : List Event → Context → RunResult
  | [], context => .ok ([], context)
  | event :: rest, context => (event.run context).andThen (runAll rest)

/-- What an event can do to a context without failing, and the names of the pages that it gives. A
variable that is required has to be declared. -/
inductive Steps (context : Context) : Event → List String → Context → Prop where
  | name (v : Variable) :
    Steps context (.name v) [] ((Context.variableName v).run context).2
  | param (p : Param) :
    Steps context (.param p) [] ((Context.paramName p).run context).2
  | page (count : UInt64) :
    Steps context (.page count) [((Context.bindValue (.ofNat count.toNat)).run context).1]
      ((Context.bindValue (.ofNat count.toNat)).run context).2
  | require (clause : ReadingClause) {v : Variable} (hdeclared : context.isDeclared v = true) :
    Steps context (.require clause v) [] context
  | declare (v : Variable) :
    Steps context (.declare v) [] ((Context.declare v).run context).2
  | retain (vs : List Variable) :
    Steps context (.retain vs) [] ((Context.retain vs).run context).2
  | openChild (base : Option String) (imports : List Variable) :
    Steps context (.openChild base imports) []
      (((Context.allocate (callBase context.options base imports)).run context).2.enter
        ⟨Names.stemBelow
          ((Context.allocate (callBase context.options base imports)).run context).1,
          imports, false⟩)
  | openNested : Steps context .openNested [] (context.enter ⟨context.scope.stem, [], true⟩)
  | close : Steps context .close [] context.leave

/-- An event that succeeds takes one of the steps. What a step preserves is shown by going through
them. -/
theorem steps_of_run {event : Event} {context after : Context} {names : List String}
    (h : event.run context = .ok (names, after)) : Steps context event names after := by
  cases event with
  | require clause v =>
    rw [run] at h
    split at h
    next hdeclared =>
      cases h
      exact .require clause hdeclared
    next => cases h
  | reject error => cases h
  | name v =>
    cases h
    exact .name v
  | param p =>
    cases h
    exact .param p
  | page count =>
    cases h
    exact .page count
  | declare v =>
    cases h
    exact .declare v
  | retain vs =>
    cases h
    exact .retain vs
  | openChild base imports =>
    cases h
    exact .openChild base imports
  | openNested =>
    cases h
    exact .openNested
  | close =>
    cases h
    exact .close

/-- The number of pages among events. -/
def pages : List Event → Nat
  | [] => 0
  | .page _ :: rest => pages rest + 1
  | _ :: rest => pages rest

end Event

open Event

/-- The events of a node of a pattern. -/
def NodePattern.events (node : NodePattern) : List Event :=
  node.bound.toList.map .name ++ node.properties.map fun entry => .param entry.2

/-- The events of a relationship of a pattern. -/
def RelationshipPattern.events (relationship : RelationshipPattern) : List Event :=
  relationship.bound.toList.map .name

/-- The events of the steps of a pattern. -/
def Pattern.hopEvents : List (RelationshipPattern × NodePattern) → List Event
  | [] => []
  | (relationship, node) :: rest => relationship.events ++ node.events ++ hopEvents rest

/-- The events of a pattern. -/
def Pattern.events (pattern : Pattern) : List Event :=
  pattern.start.events ++ hopEvents pattern.hops

/-- The events of a projection, which is rejected if it has no items. -/
def projectionEvents (clause : ReadingClause) (items : List Item) (events : List Event) :
    List Event :=
  if items.isEmpty then [.reject (.emptyProjection clause)] else events

/-- The events of writing the alias of an item. -/
def Item.aliasEvents : Item → List Event
  | .plain _ => []
  | .named _ _ => []
  | .aliased (.var v) newName => if v = newName then [] else [.name newName]
  | .aliased _ newName => [.name newName]

mutual
/-- The events of an expression. -/
def Expr.events : Expr → List Event
  | .var v => [.name v]
  | .property v _ => [.name v]
  | .param p => [.param p]
  | .literal _ => []
  | .apply _ arguments => Expr.eventsAll arguments
  | .list items => Expr.eventsAll items
  | .map entries => Expr.eventsEntries entries
  | .project v entries => .name v :: MapEntry.eventsAll entries
  | .comprehend pattern filter result =>
    pattern.events ++ Predicate.eventsOptional filter ++ result.events
termination_by structural e => e

/-- The events of expressions. -/
def Expr.eventsAll : List Expr → List Event
  | [] => []
  | e :: rest => e.events ++ Expr.eventsAll rest
termination_by structural es => es

/-- The events of the entries of a map. -/
def Expr.eventsEntries : List (String × Expr) → List Event
  | [] => []
  | (_, e) :: rest => e.events ++ Expr.eventsEntries rest
termination_by structural es => es

/-- The events of the entries of a map made from a variable. -/
def MapEntry.eventsAll : List MapEntry → List Event
  | [] => []
  | .stored _ :: rest => MapEntry.eventsAll rest
  | .computed _ e :: rest => e.events ++ MapEntry.eventsAll rest
termination_by structural es => es

/-- The events of a predicate. The right side of a test on one expression has none. -/
def Predicate.events : Predicate → List Event
  | .compare comparison left right =>
    left.events ++ if comparison.isUnary then [] else Expr.eventsOptional right
  | .all parts => Predicate.eventsAll parts
  | .any parts => Predicate.eventsAll parts
  | .not part => part.events
  | .exist body => .openNested :: body.events ++ [.close]
  | .single v list filter => .name v :: list.events ++ Predicate.eventsOptional filter
termination_by structural p => p

/-- The events of an expression that may be missing. -/
def Expr.eventsOptional : Option Expr → List Event
  | none => []
  | some e => e.events
termination_by structural e => e

/-- The events of a predicate that may be missing. -/
def Predicate.eventsOptional : Option Predicate → List Event
  | none => []
  | some p => p.events
termination_by structural p => p

/-- The events of predicates. -/
def Predicate.eventsAll : List Predicate → List Event
  | [] => []
  | p :: rest => p.events ++ Predicate.eventsAll rest
termination_by structural ps => ps

/-- The events of the items of a projection. -/
def Item.eventsAll (clause : ReadingClause) : List Item → List Event
  | [] => []
  | item :: rest => item.events clause ++ Item.eventsAll clause rest
termination_by structural items => items

/-- The events of an item of a projection. -/
def Item.events (clause : ReadingClause) : Item → List Event
  | .plain e => e.reads.map (.require clause) ++ e.events ++ Item.aliasEvents (.plain e)
  | .aliased e newName =>
    e.reads.map (.require clause) ++ e.events ++ Item.aliasEvents (.aliased e newName)
  | .named e newName =>
    e.reads.map (.require clause) ++ e.events ++ Item.aliasEvents (.named e newName)
termination_by structural item => item

/-- The events of the keys of a sort. -/
def Statement.keyEvents : List (Expr × SortDirection) → List Event
  | [] => []
  | (e, _) :: rest => e.events ++ Statement.keyEvents rest
termination_by structural keys => keys

/-- The events of a statement. -/
def Statement.events : Statement → List Event
  | .matching _ pattern clauses =>
    pattern.bound.map .declare ++ pattern.events ++ Statement.eventsAll clauses
  | .filtering parts => Predicate.eventsAll parts
  | .returning _ items => projectionEvents .returning items (Item.eventsAll .returning items)
  | .calling body imports base clauses =>
    imports.map (.require .calling) ++ imports.map .name
      ++ (.openChild base imports :: body.events ++ [.close])
      ++ body.returned.map .declare ++ Statement.eventsAll clauses
  | .passing _ items clauses =>
    projectionEvents .passing items (Item.eventsAll .passing items)
      ++ [.retain (items.filterMap Item.introduced?)] ++ Statement.eventsAll clauses
  | .passingAll _ clauses => Statement.eventsAll clauses
  | .ordering keys => Statement.keyEvents keys
  | .skipping count => [.page count]
  | .limiting count => [.page count]
termination_by structural s => s

/-- The events of clauses. -/
def Statement.eventsAll : List Statement → List Event
  | [] => []
  | s :: rest => s.events ++ Statement.eventsAll rest
termination_by structural ss => ss
end

namespace RunResult

/-- Nothing follows a failure. -/
@[simp]
theorem andThen_error (error : BuildError) (next : Context → RunResult) :
    andThen (.error error) next = .error error := rfl

/-- Outcomes that follow a success carry on its names. -/
theorem andThen_ok (names : List String) (after : Context) (next : Context → RunResult) :
    andThen (.ok (names, after)) next =
      (next after).map fun (others, last) => (names ++ others, last) := rfl

/-- What follows an outcome without pages is the whole outcome. -/
@[simp]
theorem ok_nil_andThen (after : Context) (next : Context → RunResult) :
    andThen (.ok ([], after)) next = next after := by
  rw [andThen_ok]
  cases next after <;> rfl

/-- Outcomes can be grouped in any way. -/
theorem andThen_assoc (outcome : RunResult) (second third : Context → RunResult) :
    (outcome.andThen second).andThen third =
      outcome.andThen fun context => (second context).andThen third := by
  cases outcome with
  | error error => rfl
  | ok result =>
    obtain ⟨names, middle⟩ := result
    cases hsecond : second middle with
    | error error => simp [andThen_ok, hsecond, Except.map]
    | ok result =>
      obtain ⟨others, after⟩ := result
      simp only [andThen_ok, hsecond, Except.map]
      cases third after <;> simp

/-- A composed outcome succeeds only if both parts do. -/
theorem andThen_eq_ok {outcome : RunResult} {next : Context → RunResult} {names : List String}
    {last : Context} (h : outcome.andThen next = .ok (names, last)) :
    ∃ before after middle, outcome = .ok (before, middle) ∧ next middle = .ok (after, last) ∧
      names = before ++ after := by
  cases outcome with
  | error error => simp at h
  | ok result =>
    obtain ⟨before, middle⟩ := result
    rw [andThen_ok] at h
    cases hnext : next middle with
    | error error => simp [hnext, Except.map] at h
    | ok result =>
      obtain ⟨after, last'⟩ := result
      simp only [hnext, Except.map, Except.ok.injEq, Prod.mk.injEq] at h
      obtain ⟨rfl, rfl⟩ := h
      exact ⟨before, after, middle, rfl, hnext, rfl⟩

end RunResult

namespace Event

/-- Events can be run in two parts. -/
theorem runAll_append (first second : List Event) (context : Context) :
    runAll (first ++ second) context = (runAll first context).andThen (runAll second) := by
  induction first generalizing context with
  | nil => simp [runAll]
  | cons event rest ih =>
    simp only [List.cons_append, runAll, RunResult.andThen_assoc]
    congr 1
    funext after
    exact ih after

/-- What a step preserves, a run preserves. -/
theorem runAll_preserves (holds : Context → Prop)
    (step : ∀ {event : Event} {context after : Context} {names : List String},
      event.run context = .ok (names, after) → holds context → holds after)
    {events : List Event} {context after : Context} {names : List String}
    (h : runAll events context = .ok (names, after)) (hstart : holds context) : holds after := by
  induction events generalizing context names with
  | nil =>
    simp only [runAll, Except.ok.injEq, Prod.mk.injEq] at h
    exact h.2 ▸ hstart
  | cons event rest ih =>
    obtain ⟨before, others, middle, hfirst, hrest, -⟩ := RunResult.andThen_eq_ok h
    exact ih hrest (step hfirst hstart)

/-- The pages of events in a row are counted together. -/
@[simp]
theorem pages_append (first second : List Event) :
    pages (first ++ second) = pages first + pages second := by
  induction first with
  | nil => simp [pages]
  | cons event rest ih =>
    cases event with
    | page count =>
      simp only [List.cons_append, pages, ih]
      omega
    | _ => simp only [List.cons_append, pages, ih]

/-- Events of which none is a page. -/
theorem pages_map {α : Type} (event : α → Event) (h : ∀ a, pages [event a] = 0) (as : List α) :
    pages (as.map event) = 0 := by
  induction as with
  | nil => rfl
  | cons a rest ih => rw [List.map_cons, ← List.singleton_append, pages_append, h, ih]

/-- Naming variables has no pages. -/
@[simp]
theorem pages_map_name (vs : List Variable) : pages (vs.map .name) = 0 :=
  pages_map _ (fun _ => rfl) vs

/-- Declaring variables has no pages. -/
@[simp]
theorem pages_map_declare (vs : List Variable) : pages (vs.map .declare) = 0 :=
  pages_map _ (fun _ => rfl) vs

/-- Requiring variables has no pages. -/
@[simp]
theorem pages_map_require (clause : ReadingClause) (vs : List Variable) :
    pages (vs.map (.require clause)) = 0 :=
  pages_map _ (fun _ => rfl) vs

/-- One event names the page it is, or none. -/
theorem run_length {event : Event} {context after : Context} {names : List String}
    (h : event.run context = .ok (names, after)) : names.length = pages [event] := by
  cases steps_of_run h <;> rfl

/-- A run names every page. -/
theorem runAll_length {events : List Event} {context after : Context} {names : List String}
    (h : runAll events context = .ok (names, after)) : names.length = pages events := by
  induction events generalizing context names with
  | nil =>
    simp only [runAll, Except.ok.injEq, Prod.mk.injEq] at h
    simp [← h.1, pages]
  | cons event rest ih =>
    obtain ⟨before, others, middle, hfirst, hrest, rfl⟩ := RunResult.andThen_eq_ok h
    rw [List.length_append, ih hrest, run_length hfirst, ← pages_append, List.singleton_append]

end Event

/-- A projection has the pages of its items. -/
theorem pages_projectionEvents (clause : ReadingClause) (items : List Item) :
    pages (projectionEvents clause items (Item.eventsAll clause items)) =
      pages (Item.eventsAll clause items) := by
  cases items <;> rfl

/-- A node of a pattern has no pages. -/
@[simp]
theorem NodePattern.pages_events (node : NodePattern) : pages node.events = 0 := by
  have hproperties : pages (node.properties.map fun entry => Event.param entry.2) = 0 :=
    Event.pages_map (fun entry : String × Param => .param entry.2) (fun _ => rfl) node.properties
  rw [NodePattern.events, Event.pages_append, Event.pages_map_name, hproperties]

/-- The hops of a pattern have no pages. -/
@[simp]
theorem Pattern.pages_hopEvents (hops : List (RelationshipPattern × NodePattern)) :
    pages (Pattern.hopEvents hops) = 0 := by
  induction hops with
  | nil => rfl
  | cons hop rest ih => simp [Pattern.hopEvents, RelationshipPattern.events, ih]

/-- A pattern has no pages. -/
@[simp]
theorem Pattern.pages_events (pattern : Pattern) : pages pattern.events = 0 := by
  simp [Pattern.events]

end GraphRead
