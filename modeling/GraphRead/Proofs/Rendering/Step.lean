import GraphRead.Proofs.Rendering.Trace

/-!
# Steps of rendering

What the single operations of a render context do, as equations: allocating a
name changes the supply of names, binding a value adds a row to the parameter
table, and a variable or a parameter is named when it is first asked for. Names
once given stay.
-/

namespace GraphRead

open Event Context

/-- The result of rendering in a context, and the context left behind. -/
def Render.result {α : Type} (m : Render α) (context : Context) :
    Except BuildError α × Context := (m.run).run context

namespace Render

variable {α β : Type}

/-- Returning a value leaves the context as it is. -/
@[simp]
theorem result_pure (a : α) (context : Context) :
    (pure a : Render α).result context = (.ok a, context) := rfl

/-- Failing leaves the context as it is. -/
@[simp]
theorem result_throw (error : BuildError) (context : Context) :
    (throw error : Render α).result context = (.error error, context) := rfl

/-- What cannot fail succeeds with its own result. -/
@[simp]
theorem result_lift (m : StateM Context α) (context : Context) :
    (liftM m : Render α).result context = (.ok (m.run context).1, (m.run context).2) := rfl

/-- The context can be looked at. -/
@[simp]
theorem result_get (context : Context) :
    (get : Render Context).result context = (.ok context, context) := rfl

/-- A step that succeeds is followed by the next one. -/
theorem result_bind_ok {m : Render α} {context after : Context} {a : α}
    (h : m.result context = (.ok a, after)) (f : α → Render β) :
    (m >>= f).result context = (f a).result after := by
  have hrun : (ExceptT.run m).run context = (.ok a, after) := h
  simp only [result, ExceptT.run_bind, StateT.run_bind, hrun]
  rfl

/-- A step that fails is the last one, and leaves its context behind. -/
theorem result_bind_failed {m : Render α} {context after : Context} {error : BuildError}
    (h : m.result context = (.error error, after)) (f : α → Render β) :
    (m >>= f).result context = (.error error, after) := by
  have hrun : (ExceptT.run m).run context = (.error error, after) := h
  simp only [result, ExceptT.run_bind, StateT.run_bind, hrun]
  rfl

/-- A step that fails is the last one. -/
theorem result_bind_error {m : Render α} {context : Context} {error : BuildError}
    (h : (m.result context).1 = .error error) (f : α → Render β) :
    ((m >>= f).result context).1 = .error error := by
  rcases hresult : m.result context with ⟨outcome, after⟩
  rw [hresult] at h
  obtain rfl : outcome = .error error := h
  rw [result_bind_failed hresult]

end Render

namespace Context

/-- What is remembered of names in the first context is the same in the second. -/
structure Extends (before after : Context) : Prop where
  options : after.options = before.options
  var : ∀ {v name}, before.variableNames.lookup v = some name →
    after.variableNames.lookup v = some name
  param : ∀ {p name}, before.paramNames.lookup p = some name →
    after.paramNames.lookup p = some name

/-- A context remembers its own names. -/
theorem Extends.refl (context : Context) : context.Extends context := ⟨rfl, id, id⟩

/-- Names that are remembered in two steps are remembered. -/
theorem Extends.trans {first second third : Context} (h : first.Extends second)
    (h' : second.Extends third) : first.Extends third where
  options := h'.options.trans h.options
  var hv := h'.var (h.var hv)
  param hp := h'.param (h.param hp)

/-- Leaving a scope keeps the options. -/
@[simp]
theorem leave_options (context : Context) : context.leave.options = context.options := by
  unfold leave
  split <;> rfl

/-- Leaving a scope keeps the names of variables. -/
@[simp]
theorem leave_variableNames (context : Context) :
    context.leave.variableNames = context.variableNames := by
  unfold leave
  split <;> rfl

/-- Leaving a scope keeps the parameter table. -/
@[simp]
theorem leave_params (context : Context) : context.leave.params = context.params := by
  unfold leave
  split <;> rfl

/-- Leaving a scope keeps the supply of names. -/
@[simp]
theorem leave_names (context : Context) : context.leave.names = context.names := by
  unfold leave
  split <;> rfl

/-- Leaving a scope keeps the names of parameters. -/
@[simp]
theorem leave_paramNames (context : Context) : context.leave.paramNames = context.paramNames := by
  unfold leave
  split <;> rfl

/-- What holds of all scopes still holds of them after the innermost one is closed. -/
theorem leave_scopes {context : Context} (holds : Scope → Prop) (hscope : holds context.scope)
    (henclosing : ∀ scope ∈ context.enclosing, holds scope) :
    holds context.leave.scope ∧ ∀ scope ∈ context.leave.enclosing, holds scope := by
  unfold leave
  split
  next => exact ⟨hscope, henclosing⟩
  next outer rest hsome =>
    rw [hsome] at henclosing
    exact List.forall_mem_cons.mp henclosing

/-- Declaring a variable changes only the innermost scope. -/
theorem run_declare (v : Variable) (context : Context) :
    (declare v).run context =
      ((), { context with
        scope := { context.scope with declared := v :: context.scope.declared } }) := rfl

/-- Retaining variables changes only the innermost scope. -/
theorem run_retain (vs : List Variable) (context : Context) :
    (retain vs).run context =
      ((), { context with scope := { context.scope with declared := vs } }) := rfl

/-- Allocating a name changes only the supply of names. -/
theorem run_allocate (base : String) (context : Context) :
    (allocate base).run context =
      ((context.names.allocate (context.scope.stem ++ base)).1,
        { context with names := (context.names.allocate (context.scope.stem ++ base)).2 }) := rfl

/-- Binding a value allocates a name and adds a row to the parameter table. -/
theorem run_bindValue (value : Json) (context : Context) :
    (bindValue value).run context =
      (((allocate context.options.paramPrefix).run context).1,
        { ((allocate context.options.paramPrefix).run context).2 with
          params := context.params ++
            [(((allocate context.options.paramPrefix).run context).1, value)] }) := rfl

/-- A parameter that has a name keeps it. -/
theorem run_paramName_some {p : Param} {context : Context} {name : String}
    (h : context.paramNames.lookup p = some name) :
    (paramName p).run context = (name, context) := by
  simp only [paramName, StateT.run_bind, StateT.run_get, pure_bind, h]
  rfl

/-- A parameter without a name is bound and gets the name of the binding. -/
theorem run_paramName_none {p : Param} {context : Context}
    (h : context.paramNames.lookup p = none) :
    (paramName p).run context =
      (((bindValue p.value).run context).1,
        { ((bindValue p.value).run context).2 with
          paramNames := (p, ((bindValue p.value).run context).1) :: context.paramNames }) := by
  simp only [paramName, StateT.run_bind, StateT.run_get, pure_bind, h]
  rfl

/-- A fixed name is not looked for. -/
theorem run_variableName_fixed {v : Variable} {context : Context} {name : String}
    (h : v.name = some name) : (variableName v).run context = (name, context) := by
  simp only [variableName, h]
  rfl

/-- A variable that has a name keeps it. -/
theorem run_variableName_some {v : Variable} {context : Context} {name : String}
    (hfree : v.name = none) (h : context.variableNames.lookup v = some name) :
    (variableName v).run context = (name, context) := by
  simp only [variableName, hfree, StateT.run_bind, StateT.run_get, pure_bind, h]
  rfl

/-- A variable without a name gets a new one. -/
theorem run_variableName_none {v : Variable} {context : Context}
    (hfree : v.name = none) (h : context.variableNames.lookup v = none) :
    (variableName v).run context =
      (((allocate (baseFor context.options v)).run context).1,
        { ((allocate (baseFor context.options v)).run context).2 with
          variableNames :=
            (v, ((allocate (baseFor context.options v)).run context).1)
              :: context.variableNames }) := by
  simp only [variableName, hfree, StateT.run_bind, StateT.run_get, pure_bind, h]
  rfl

end Context

namespace Event

/-- Asking for the name of a variable keeps the names that were given. -/
theorem extends_variableName (v : Variable) (context : Context) :
    context.Extends ((variableName v).run context).2 := by
  cases hname : v.name with
  | some name => rw [run_variableName_fixed hname]; exact .refl context
  | none =>
    cases hlookup : context.variableNames.lookup v with
    | some name => rw [run_variableName_some hname hlookup]; exact .refl context
    | none =>
      rw [run_variableName_none hname hlookup]
      refine ⟨rfl, fun {w name} hw => ?_, id⟩
      have hne : w ≠ v := fun heq => by simp [heq, hlookup] at hw
      simpa only [List.lookup_cons, beq_eq_false_iff_ne.mpr hne] using hw

/-- Asking for the name of a parameter keeps the names that were given. -/
theorem extends_paramName (p : Param) (context : Context) :
    context.Extends ((paramName p).run context).2 := by
  cases hlookup : context.paramNames.lookup p with
  | some name => rw [run_paramName_some hlookup]; exact .refl context
  | none =>
    rw [run_paramName_none hlookup]
    refine ⟨rfl, id, fun {q name} hq => ?_⟩
    have hne : q ≠ p := fun heq => by simp [heq, hlookup] at hq
    simpa only [List.lookup_cons, beq_eq_false_iff_ne.mpr hne] using hq

/-- An event keeps the names that were given. -/
theorem run_extends {event : Event} {context after : Context} {names : List String}
    (h : event.run context = .ok (names, after)) : context.Extends after := by
  cases steps_of_run h with
  | name v => exact extends_variableName v context
  | param p => exact extends_paramName p context
  | require clause hdeclared => exact .refl context
  | close => exact ⟨by simp, by simp, by simp⟩
  | page _ | declare _ | retain _ | openChild _ _ | openNested => exact ⟨rfl, id, id⟩

/-- A run keeps the names that were given. -/
theorem runAll_extends {events : List Event} {context after : Context} {names : List String}
    (h : runAll events context = .ok (names, after)) : context.Extends after := by
  refine runAll_preserves context.Extends (fun hrun hext => ?_) h (.refl context)
  exact hext.trans (run_extends hrun)

end Event

end GraphRead
