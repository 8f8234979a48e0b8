import GraphRead.Proofs.Rendering.Step
import Mathlib.Order.Defs.Unbundled

/-!
# Rendering restores the scopes

Subqueries and existence tests open scopes while they are rendered, and clauses
declare variables in the innermost one. The context also counts the bodies that are
open, apart from the scopes. This file proves that every scope that is opened is
closed again and that the counter is back at its value then, also where rendering
fails. Expressions, predicates and patterns leave all scopes as they found them; a
statement changes at most which variables are declared in the scope that it stands
in.
-/

namespace GraphRead

open Context

namespace Context

/-- The second context has the scopes of the first, with the same variables declared in them, and
counts as many open bodies. -/
structure SameScopes (before after : Context) : Prop where
  scope : after.scope = before.scope
  enclosing : after.enclosing = before.enclosing
  depth : after.depth = before.depth

/-- The second context has the scopes of the first and counts as many open bodies, but other
variables may be declared in the innermost scope. -/
structure SameFrame (before after : Context) : Prop where
  stem : after.scope.stem = before.scope.stem
  inherits : after.scope.inherits = before.scope.inherits
  enclosing : after.enclosing = before.enclosing
  depth : after.depth = before.depth

instance : IsPreorder Context SameScopes where
  refl _ := ⟨rfl, rfl, rfl⟩
  trans _ _ _ first second :=
    ⟨second.scope.trans first.scope, second.enclosing.trans first.enclosing,
      second.depth.trans first.depth⟩

instance : IsPreorder Context SameFrame where
  refl _ := ⟨rfl, rfl, rfl, rfl⟩
  trans _ _ _ first second :=
    ⟨second.stem.trans first.stem, second.inherits.trans first.inherits,
      second.enclosing.trans first.enclosing, second.depth.trans first.depth⟩

variable {before after : Context}

/-- Contexts with the same scopes have the same frame. -/
theorem SameScopes.frame (h : before.SameScopes after) : before.SameFrame after := by
  refine ⟨?_, ?_, h.enclosing, h.depth⟩
  · rw [h.scope]
  · rw [h.scope]

/-- Closing a scope undoes opening it, whatever has been declared in between. -/
theorem SameFrame.leave {scope : Scope} (h : (before.enter scope).SameFrame after) :
    before.SameScopes after.leave := by
  have hdepth : after.depth - 1 = before.depth := by
    rw [h.depth]
    exact Nat.add_sub_cancel before.depth 1
  unfold Context.leave
  split
  next hnone => simp [h.enclosing, enter] at hnone
  next outer rest hsome =>
    have hopened : before.scope :: before.enclosing = outer :: rest := h.enclosing.symm.trans hsome
    obtain ⟨hscope, henclosing⟩ := List.cons.inj hopened
    exact ⟨hscope.symm, henclosing.symm, hdepth⟩

/-- Asking for the name of a variable leaves all scopes as they are. -/
theorem sameScopes_variableName (v : Variable) (context : Context) :
    context.SameScopes ((variableName v).run context).2 := by
  cases hname : v.name with
  | some name => rw [run_variableName_fixed hname]; exact refl context
  | none =>
    cases hlookup : context.variableNames.lookup v with
    | some name => rw [run_variableName_some hname hlookup]; exact refl context
    | none => rw [run_variableName_none hname hlookup]; exact ⟨rfl, rfl, rfl⟩

/-- Asking for the name of a parameter leaves all scopes as they are. -/
theorem sameScopes_paramName (p : Param) (context : Context) :
    context.SameScopes ((paramName p).run context).2 := by
  cases hlookup : context.paramNames.lookup p with
  | some name => rw [run_paramName_some hlookup]; exact refl context
  | none => rw [run_paramName_none hlookup]; exact ⟨rfl, rfl, rfl⟩

/-- The counter is the number of scopes around the innermost one. -/
def Counted (context : Context) : Prop := context.depth = context.enclosing.length

/-- The counter starts with no scope around the first one. -/
theorem counted_initial (options : RenderOptions) : (initial options).Counted := rfl

/-- A frame that is kept has a counter that is right. -/
theorem SameFrame.counted (h : before.SameFrame after) (hbefore : before.Counted) :
    after.Counted := by
  unfold Counted
  rw [h.depth, h.enclosing]
  exact hbefore

/-- Opening a scope counts it. -/
theorem Counted.enter (h : before.Counted) (scope : Scope) : (before.enter scope).Counted := by
  unfold Counted at h ⊢
  simp only [Context.enter, List.length_cons, h]

/-- Closing a scope takes it off the counter. Without a scope to close there is nothing counted. -/
theorem Counted.leave (h : before.Counted) : before.leave.Counted := by
  unfold Counted at h ⊢
  unfold Context.leave
  split
  next hnone => simp [h, hnone]
  next outer rest hsome => simp [h, hsome]

end Context

namespace Event

/-- The counter is right after every event. -/
theorem counted_run {event : Event} {context after : Context} {names : List String}
    (h : event.run context = .ok (names, after)) (hcontext : context.Counted) : after.Counted := by
  cases steps_of_run h with
  | name v => exact (sameScopes_variableName v context).frame.counted hcontext
  | param p => exact (sameScopes_paramName p context).frame.counted hcontext
  | openChild base imports =>
    -- The name of the scope is taken from the supply, and then the scope is opened.
    have hnamed : ((allocate (callBase context.options base imports)).run context).2.Counted :=
      hcontext
    exact hnamed.enter _
  | openNested => exact hcontext.enter _
  | close => exact hcontext.leave
  | require _ _ | page _ | declare _ | retain _ => exact hcontext

/-- At every point of rendering the counter is the number of bodies that are open. -/
theorem counted_runAll {events : List Event} {options : RenderOptions} {after : Context}
    {names : List String} (h : runAll events (.initial options) = .ok (names, after)) :
    after.Counted :=
  runAll_preserves Counted counted_run h (counted_initial options)

end Event

namespace Render

/-- Rendering relates every context to the one that it leaves behind, in success and in failure. -/
def Leaves {α : Type} (R : Context → Context → Prop) (m : Render α) : Prop :=
  ∀ context, R context (m.result context).2

namespace Leaves

variable {α β : Type} {R : Context → Context → Prop}

section Steps

variable [IsPreorder Context R]

/-- A value is given without a change. -/
theorem pure (a : α) : Leaves R (Pure.pure a : Render α) := by
  intro context
  exact refl context

/-- A failure changes nothing. -/
theorem fail (error : BuildError) : Leaves R (throw error : Render α) := by
  intro context
  exact refl context

/-- Steps one after another keep what each of them keeps, also if the first one fails. -/
theorem bind {m : Render α} {f : α → Render β} (hm : Leaves R m) (hf : ∀ a, Leaves R (f a)) :
    Leaves R (m >>= f) := by
  intro context
  have hfirst := hm context
  rcases hresult : m.result context with ⟨outcome, middle⟩
  rw [hresult] at hfirst
  cases outcome with
  | error error =>
    rw [result_bind_failed hresult]
    exact hfirst
  | ok a =>
    rw [result_bind_ok hresult]
    exact IsTrans.trans _ _ _ hfirst (hf a middle)

/-- A last step that only computes a value. -/
theorem andReturn {m : Render α} (hm : Leaves R m) (g : α → β) :
    Leaves R (m >>= fun a => Pure.pure (g a)) := hm.bind fun a => Leaves.pure (g a)

/-- A step may look at the context. -/
theorem bindGet {f : Context → Render β} (hf : ∀ context, Leaves R (f context)) :
    Leaves R (get >>= f) := by
  have hget : Leaves R (get : Render Context) := fun context => refl context
  exact hget.bind hf

end Steps

/-- What keeps all scopes keeps the frame. -/
theorem frame {m : Render α} (h : Leaves SameScopes m) : Leaves SameFrame m := by
  intro context
  exact (h context).frame

/-- The name of a variable is written without a change of scopes. -/
theorem name (v : Variable) : Leaves SameScopes (liftM (variableName v) : Render String) :=
  sameScopes_variableName v

/-- A parameter is written without a change of scopes. -/
theorem param (p : Param) : Leaves SameScopes p.render := by
  have hname : Leaves SameScopes (liftM (paramName p) : Render String) := sameScopes_paramName p
  exact hname.andReturn ("$" ++ ·)

/-- A value is bound without a change of scopes. -/
theorem page (value : Json) : Leaves SameScopes (liftM (bindValue value) : Render String) := by
  intro context
  rw [result_lift, run_bindValue]
  exact ⟨rfl, rfl, rfl⟩

/-- The names of variables are written without a change of scopes. -/
theorem variableNamesOf (vs : List Variable) :
    Leaves SameScopes (liftM (Context.variableNamesOf vs) : Render (List String)) := by
  induction vs with
  | nil => exact pure []
  | cons v rest ih => exact bind (name v) fun text => ih.andReturn (text :: ·)

/-- Variables are declared in the innermost scope. -/
theorem declareAll (vs : List Variable) :
    Leaves SameFrame (liftM (Context.declareAll vs) : Render Unit) := by
  induction vs with
  | nil => exact pure ()
  | cons v rest ih =>
    have hdeclare : Leaves SameFrame (liftM (declare v) : Render Unit) := by
      intro context
      exact ⟨rfl, rfl, rfl, rfl⟩
    exact hdeclare.bind fun _ => ih

/-- Variables are forgotten in the innermost scope. -/
theorem retain (vs : List Variable) :
    Leaves SameFrame (liftM (Context.retain vs) : Render Unit) := by
  intro context
  exact ⟨rfl, rfl, rfl, rfl⟩

/-- A variable that is not declared is named in the error, but no scope is changed. -/
theorem require (clause : ReadingClause) (v : Variable) :
    Leaves SameScopes (Context.require clause v) := by
  refine bindGet fun context => ?_
  split
  · exact pure ()
  · exact bind (name v) fun text => fail _

/-- Variables are looked up without a change of scopes. -/
theorem requireAll (clause : ReadingClause) (vs : List Variable) :
    Leaves SameScopes (Context.requireAll clause vs) := by
  induction vs with
  | nil => exact pure ()
  | cons v rest ih => exact (require clause v).bind fun _ => ih

/-- A projection keeps what its items keep, and fails without a change if it has none. -/
theorem projection (clause : ReadingClause) (items : List Item) {texts : Render (List String)}
    (h : Leaves SameScopes texts) :
    Leaves SameScopes (GraphRead.projection clause items texts) := by
  unfold GraphRead.projection
  split
  · exact fail _
  · exact h.andReturn (Text.join ", ")

/-- What is rendered in a scope of its own may declare what it likes there. -/
theorem within (scope : Scope) {body : Render α} (h : Leaves SameFrame body) :
    Leaves SameScopes (Context.within scope body) := by
  intro context
  have hbody : (context.enter scope).SameFrame (body.result (context.enter scope)).2 :=
    h (context.enter scope)
  exact hbody.leave

/-- The scope of an existence test is closed after its body. -/
theorem inNested {body : Render α} (h : Leaves SameFrame body) :
    Leaves SameScopes (Context.inNested body) := by
  refine bindGet fun context => ?_
  exact h.within ⟨context.scope.stem, [], true⟩

/-- The scope of a subquery is closed after its body. -/
theorem inChild (base : String) (imports : List Variable) {body : Render α}
    (h : Leaves SameFrame body) : Leaves SameScopes (Context.inChild base imports body) := by
  have hallocate : Leaves SameScopes (liftM (allocate base) : Render String) := by
    intro context
    exact ⟨rfl, rfl, rfl⟩
  exact hallocate.bind fun name => h.within ⟨Names.stemBelow name, imports, false⟩

end Leaves

end Render

open Render

/-! ### Patterns -/

/-- The properties of a node are written without a change of scopes. -/
theorem NodePattern.leaves_properties (properties : List (String × Param)) :
    Leaves SameScopes (NodePattern.renderProperties properties) := by
  induction properties with
  | nil => exact .pure []
  | cons entry rest ih =>
    refine (Leaves.param entry.2).bind fun text => ?_
    exact ih.andReturn _

/-- A name that may be missing is written without a change of scopes. -/
theorem leaves_optionalName (bound : Option Variable) :
    Leaves SameScopes (optionalName bound) := by
  cases bound with
  | none => exact .pure ""
  | some v => exact .name v

/-- A node of a pattern opens no scope. -/
theorem NodePattern.leaves_render (node : NodePattern) : Leaves SameScopes node.render := by
  refine (leaves_optionalName node.bound).bind fun name => ?_
  exact (NodePattern.leaves_properties node.properties).andReturn _

/-- A relationship of a pattern opens no scope. -/
theorem RelationshipPattern.leaves_render (relationship : RelationshipPattern) :
    Leaves SameScopes relationship.render := by
  unfold RelationshipPattern.render
  refine (leaves_optionalName relationship.bound).bind fun name => ?_
  cases relationship.direction <;> exact .pure _

/-- The steps of a pattern open no scope. -/
theorem Pattern.leaves_hops (hops : List (RelationshipPattern × NodePattern)) :
    Leaves SameScopes (Pattern.renderHops hops) := by
  induction hops with
  | nil => exact .pure ""
  | cons hop rest ih =>
    refine hop.1.leaves_render.bind fun relationship => ?_
    refine hop.2.leaves_render.bind fun node => ?_
    exact ih.andReturn _

/-- A pattern opens no scope. -/
theorem Pattern.leaves_render (pattern : Pattern) : Leaves SameScopes pattern.render := by
  refine pattern.start.leaves_render.bind fun start => ?_
  exact (Pattern.leaves_hops pattern.hops).andReturn _

/-- The alias of an item is written without a change of scopes. -/
theorem Item.leaves_withAlias (item : Item) (text : String) :
    Leaves SameScopes (item.withAlias text) := by
  have hnamed (newName : Variable) :
      Leaves SameScopes (do return text ++ " AS " ++ (← variableName newName)) :=
    (Leaves.name newName).andReturn _
  cases item with
  | plain e => exact .pure text
  | named e newName => exact .pure _
  | aliased e newName =>
    cases e with
    | var v =>
      simp only [Item.withAlias]
      split
      · exact .pure text
      · exact hnamed newName
    | _ => exact hnamed newName

/-! ### Trees

One case for each constructor. Statements declare variables, so that of them only the frame is
kept; where one is the body of a scope, that is enough for all scopes to be restored. -/

mutual
/-- An expression leaves all scopes as they are. -/
theorem Expr.leaves_render (e : Expr) : Leaves SameScopes e.render := by
  cases e with
  | var v => exact .name v
  | property v key => exact (Leaves.name v).andReturn _
  | param p => exact .param p
  | literal value => exact .pure _
  | apply function arguments => exact (Expr.leaves_all arguments).andReturn _
  | list items => exact (Expr.leaves_all items).andReturn _
  | map entries => exact (Expr.leaves_entries entries).andReturn _
  | project v entries =>
    refine (Leaves.name v).bind fun name => ?_
    exact (MapEntry.leaves_all entries).andReturn _
  | comprehend pattern filter result =>
    refine pattern.leaves_render.bind fun path => ?_
    refine (Predicate.leaves_optional filter).bind fun condition => ?_
    refine (Expr.leaves_render result).bind fun text => ?_
    cases condition <;> exact .pure _
termination_by structural e

/-- Expressions in a row leave all scopes as they are. -/
theorem Expr.leaves_all (es : List Expr) : Leaves SameScopes (Expr.renderAll es) := by
  cases es with
  | nil => exact .pure []
  | cons e rest =>
    refine (Expr.leaves_render e).bind fun text => ?_
    exact (Expr.leaves_all rest).andReturn _
termination_by structural es

/-- The entries of a map leave all scopes as they are. -/
theorem Expr.leaves_entries (entries : List (String × Expr)) :
    Leaves SameScopes (Expr.renderEntries entries) := by
  match entries with
  | [] => exact .pure []
  | (key, e) :: rest =>
    refine (Expr.leaves_render e).bind fun text => ?_
    exact (Expr.leaves_entries rest).andReturn _
termination_by structural entries

/-- The entries of a map made from a variable leave all scopes as they are. -/
theorem MapEntry.leaves_all (entries : List MapEntry) :
    Leaves SameScopes (MapEntry.renderAll entries) := by
  match entries with
  | [] => exact .pure []
  | .stored key :: rest => exact (MapEntry.leaves_all rest).andReturn _
  | .computed key e :: rest =>
    refine (Expr.leaves_render e).bind fun text => ?_
    exact (MapEntry.leaves_all rest).andReturn _
termination_by structural entries

/-- A predicate leaves all scopes as they are, even if it has the bodies of existence tests. -/
theorem Predicate.leaves_render (p : Predicate) : Leaves SameScopes p.render := by
  cases p with
  | compare comparison left right =>
    refine (Expr.leaves_render left).bind fun text => ?_
    split
    · exact .pure _
    · exact (Expr.leaves_optional right).andReturn _
  | all parts => exact (Predicate.leaves_all parts).andReturn _
  | any parts => exact (Predicate.leaves_all parts).andReturn _
  | not part => exact (Predicate.leaves_render part).andReturn _
  | exist body =>
    -- The body may declare variables, but only in the scope that is opened for it.
    have hbody : Leaves SameFrame body.render := Statement.leaves_render body
    refine hbody.inNested.bind fun text => ?_
    exact .bindGet fun context => .pure _
  | single v list filter =>
    refine (Leaves.name v).bind fun name => ?_
    refine (Expr.leaves_render list).bind fun text => ?_
    exact (Predicate.leaves_optional filter).andReturn _
termination_by structural p

/-- An expression that may be missing leaves all scopes as they are. -/
theorem Expr.leaves_optional (e : Option Expr) : Leaves SameScopes (Expr.renderOptional e) := by
  cases e with
  | none => exact .pure ""
  | some e => exact (Expr.leaves_render e).andReturn _
termination_by structural e

/-- A predicate that may be missing leaves all scopes as they are. -/
theorem Predicate.leaves_optional (p : Option Predicate) :
    Leaves SameScopes (Predicate.renderOptional p) := by
  cases p with
  | none => exact .pure none
  | some p => exact Predicate.leaves_render p
termination_by structural p

/-- Predicates in a row leave all scopes as they are. -/
theorem Predicate.leaves_all (ps : List Predicate) :
    Leaves SameScopes (Predicate.renderAll ps) := by
  cases ps with
  | nil => exact .pure []
  | cons p rest =>
    refine (Predicate.leaves_render p).bind fun text => ?_
    exact (Predicate.leaves_all rest).andReturn _
termination_by structural ps

/-- Items in a row leave all scopes as they are. -/
theorem Item.leaves_all (clause : ReadingClause) (items : List Item) :
    Leaves SameScopes (Item.renderAll clause items) := by
  cases items with
  | nil => exact .pure []
  | cons item rest =>
    refine (Item.leaves_render clause item).bind fun text => ?_
    exact (Item.leaves_all clause rest).andReturn _
termination_by structural items

/-- An item of a projection leaves all scopes as they are. -/
theorem Item.leaves_render (clause : ReadingClause) (item : Item) :
    Leaves SameScopes (item.render clause) := by
  cases item with
  | plain e =>
    refine (Leaves.requireAll clause e.reads).bind fun _ => ?_
    exact (Expr.leaves_render e).bind (Item.leaves_withAlias (.plain e))
  | aliased e newName =>
    refine (Leaves.requireAll clause e.reads).bind fun _ => ?_
    exact (Expr.leaves_render e).bind (Item.leaves_withAlias (.aliased e newName))
  | named e newName =>
    refine (Leaves.requireAll clause e.reads).bind fun _ => ?_
    exact (Expr.leaves_render e).bind (Item.leaves_withAlias (.named e newName))
termination_by structural item

/-- The keys of a sort leave all scopes as they are. -/
theorem Statement.leaves_keys (keys : List (Expr × SortDirection)) :
    Leaves SameScopes (Statement.renderKeys keys) := by
  match keys with
  | [] => exact .pure []
  | (e, direction) :: rest =>
    refine (Expr.leaves_render e).bind fun text => ?_
    exact (Statement.leaves_keys rest).andReturn _
termination_by structural keys

/-- A statement changes at most what is declared in the innermost scope. -/
theorem Statement.leaves_render (s : Statement) : Leaves SameFrame s.render := by
  cases s with
  | matching optional pattern clauses =>
    refine (Leaves.declareAll pattern.bound).bind fun _ => ?_
    refine pattern.leaves_render.frame.bind fun path => ?_
    exact (Statement.leaves_all clauses).andReturn _
  | filtering parts => exact (Predicate.leaves_all parts).frame.andReturn _
  | returning distinct items =>
    have hitems := Item.leaves_all .returning items
    exact (Leaves.projection .returning items hitems).frame.andReturn _
  | calling body imports base clauses =>
    refine (Leaves.requireAll .calling imports).frame.bind fun _ => ?_
    refine (Leaves.variableNamesOf imports).frame.bind fun names => ?_
    refine .bindGet fun context => ?_
    -- The scope of the body is closed before its variables are declared in the one around it.
    have hbody : Leaves SameFrame body.render := Statement.leaves_render body
    refine (hbody.inChild _ imports).frame.bind fun text => ?_
    refine (Leaves.declareAll body.returned).bind fun _ => ?_
    refine .bindGet fun context => ?_
    exact (Statement.leaves_all clauses).andReturn _
  | passing distinct items clauses =>
    have hitems := Item.leaves_all .passing items
    refine (Leaves.projection .passing items hitems).frame.bind fun text => ?_
    refine (Leaves.retain _).bind fun _ => ?_
    exact (Statement.leaves_all clauses).andReturn _
  | passingAll distinct clauses => exact (Statement.leaves_all clauses).andReturn _
  | ordering keys => exact (Statement.leaves_keys keys).frame.andReturn _
  | skipping count => exact (Leaves.page _).frame.andReturn _
  | limiting count => exact (Leaves.page _).frame.andReturn _
termination_by structural s

/-- Statements in a row change at most what is declared in the innermost scope. -/
theorem Statement.leaves_all (ss : List Statement) :
    Leaves SameFrame (Statement.renderAll ss) := by
  cases ss with
  | nil => exact .pure []
  | cons s rest =>
    refine (Statement.leaves_render s).bind fun text => ?_
    exact (Statement.leaves_all rest).andReturn _
termination_by structural ss
end

/-- Whatever a context is and whether rendering succeeds or fails, the scopes afterwards are those
from before and the counter of open bodies has its value from before. Expressions, predicates and
patterns also leave the variables alone that are declared in the innermost scope; statements leave
those alone that are declared in the scopes around it. -/
theorem Context.rendering_restores_scopes (context : Context) :
    (∀ e : Expr, context.SameScopes (e.render.result context).2) ∧
    (∀ p : Predicate, context.SameScopes (p.render.result context).2) ∧
    (∀ pattern : Pattern, context.SameScopes (pattern.render.result context).2) ∧
    ∀ s : Statement, context.SameFrame (s.render.result context).2 := by
  refine ⟨fun e => ?_, fun p => ?_, fun pattern => ?_, fun s => ?_⟩
  · exact e.leaves_render context
  · exact p.leaves_render context
  · exact pattern.leaves_render context
  · exact s.leaves_render context

end GraphRead
