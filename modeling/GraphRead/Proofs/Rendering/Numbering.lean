import GraphRead.Proofs.Rendering.Binding

/-!
# Numbered parameters

Outside of subqueries the names of parameters have no stem but their prefix. If
no prefix ends in a digit, and the prefix of parameters is none of the others,
the rows of the parameter table are numbered from zero on without gaps.
-/

namespace GraphRead

open Event

/-- The prefixes keep names apart: none ends in a digit, and that of parameters is used for nothing
else. -/
structure RenderOptions.Separate (options : RenderOptions) : Prop where
  param_plain : Settings.endsInDigit options.paramPrefix = false
  variable_plain : Settings.endsInDigit options.variablePrefix = false
  value_plain : Settings.endsInDigit options.valuePrefix = false
  param_ne_variable : options.paramPrefix ≠ options.variablePrefix
  param_ne_value : options.paramPrefix ≠ options.valuePrefix

namespace Context

/-- No scope has a stem, and the rows are numbered from zero on. -/
structure Numbered (options : RenderOptions) (context : Context) : Prop where
  same : context.options = options
  stem : context.scope.stem = ""
  stems : ∀ scope ∈ context.enclosing, scope.stem = ""
  dense : context.names.Dense
  counter : context.names.counter options.paramPrefix = context.params.length
  names : context.params.map Prod.fst =
    (List.range context.params.length).map (Names.numbered options.paramPrefix)

namespace Numbered

variable {options : RenderOptions} {context : Context}

/-- There are no rows at first. -/
theorem initial (options : RenderOptions) : (Context.initial options).Numbered options where
  same := rfl
  stem := rfl
  stems := by simp [Context.initial]
  dense := Names.dense_empty
  counter := rfl
  names := rfl

/-- A name for something else than a parameter does not disturb the numbers. -/
theorem allocate (h : context.Numbered options) {base : String}
    (hbase : Settings.endsInDigit base = false) (hne : options.paramPrefix ≠ base) :
    ((Context.allocate base).run context).2.Numbered options := by
  simp only [run_allocate, h.stem, String.empty_append]
  refine ⟨h.same, h.stem, h.stems, h.dense.allocate hbase, ?_, h.names⟩
  rw [Names.counter_allocate, if_neg hne, h.counter]

/-- A new row gets the next number. -/
theorem bindValue (h : context.Numbered options)
    (hparam : Settings.endsInDigit options.paramPrefix = false) (value : Json) :
    ((Context.bindValue value).run context).2.Numbered options := by
  have hnext : context.names.next options.paramPrefix = context.params.length := by
    rw [h.dense.next_eq_counter hparam, h.counter]
  simp only [run_bindValue, run_allocate, h.same, h.stem, String.empty_append]
  refine ⟨rfl, h.stem, h.stems, h.dense.allocate hparam, ?_, ?_⟩
  · simp [Names.counter_allocate, hnext]
  · simp [List.range_succ, h.names, Names.allocate, hnext]

/-- Naming a variable adds no row. The name does not take a number of parameters. -/
theorem variableName (h : context.Numbered options) (hoptions : options.Separate)
    (v : Variable) : ((Context.variableName v).run context).2.Numbered options := by
  cases hname : v.name with
  | some name =>
    rw [run_variableName_fixed hname]
    exact h
  | none =>
    cases hlookup : context.variableNames.lookup v with
    | some name =>
      rw [run_variableName_some hname hlookup]
      exact h
    | none =>
      rw [run_variableName_none hname hlookup, h.same]
      -- The base of the name is none of parameters, so that their counter stays as it is.
      have hallocated :
          ((Context.allocate (baseFor options v)).run context).2.Numbered options := by
        unfold baseFor
        rw [hname]
        cases v.kind with
        | node => exact h.allocate hoptions.variable_plain hoptions.param_ne_variable
        | relationship => exact h.allocate hoptions.variable_plain hoptions.param_ne_variable
        | value => exact h.allocate hoptions.value_plain hoptions.param_ne_value
      obtain ⟨hopts, hstem, hstems, hdense, hcounter, hnames⟩ := hallocated
      exact ⟨hopts, hstem, hstems, hdense, hcounter, hnames⟩

/-- Naming a parameter adds a row with the next number, if it has none. -/
theorem paramName (h : context.Numbered options)
    (hparam : Settings.endsInDigit options.paramPrefix = false) (p : Param) :
    ((Context.paramName p).run context).2.Numbered options := by
  cases hlookup : context.paramNames.lookup p with
  | some name =>
    rw [run_paramName_some hlookup]
    exact h
  | none =>
    rw [run_paramName_none hlookup]
    obtain ⟨hopts, hstem, hstems, hdense, hcounter, hnames⟩ := h.bindValue hparam p.value
    exact ⟨hopts, hstem, hstems, hdense, hcounter, hnames⟩

/-- Leaving a scope adds no row. -/
theorem leave (h : context.Numbered options) : context.leave.Numbered options := by
  obtain ⟨hstem, hstems⟩ := leave_scopes (fun scope => scope.stem = "") h.stem h.stems
  refine ⟨context.leave_options.trans h.same, hstem, hstems, ?_, ?_, ?_⟩
  · rw [leave_names]
    exact h.dense
  · rw [leave_names, leave_params]
    exact h.counter
  · rw [leave_params]
    exact h.names

end Numbered

end Context

/-- An event that opens no subquery keeps the rows numbered. -/
theorem Event.numbered_run {options : RenderOptions} (hoptions : options.Separate) {event : Event}
    (hevent : ∀ base imports, event ≠ .openChild base imports) {context after : Context}
    {names : List String} (h : event.run context = .ok (names, after))
    (hcontext : context.Numbered options) : after.Numbered options := by
  cases steps_of_run h with
  | openChild base imports => exact absurd rfl (hevent base imports)
  | name v => exact hcontext.variableName hoptions v
  | param p => exact hcontext.paramName hoptions.param_plain p
  | page count => exact hcontext.bindValue hoptions.param_plain _
  | require clause hdeclared => exact hcontext
  | close => exact hcontext.leave
  | openNested =>
    refine ⟨hcontext.same, hcontext.stem, ?_, hcontext.dense, hcontext.counter, hcontext.names⟩
    simpa [Context.enter, hcontext.stem] using hcontext.stems
  | declare _ | retain _ =>
    exact ⟨hcontext.same, hcontext.stem, hcontext.stems, hcontext.dense, hcontext.counter,
      hcontext.names⟩

/-- A run that opens no subquery keeps the rows numbered. -/
theorem Event.numbered_runAll {options : RenderOptions} (hoptions : options.Separate)
    {events : List Event} (hevents : ∀ base imports, .openChild base imports ∉ events)
    {context after : Context} {names : List String}
    (h : runAll events context = .ok (names, after)) (hcontext : context.Numbered options) :
    after.Numbered options := by
  induction events generalizing context names with
  | nil =>
    simp only [runAll, Except.ok.injEq, Prod.mk.injEq] at h
    exact h.2 ▸ hcontext
  | cons event rest ih =>
    obtain ⟨before, others, middle, hevent, hrest, -⟩ := RunResult.andThen_eq_ok h
    refine ih (fun base imports hmem => hevents base imports (List.mem_cons_of_mem _ hmem)) hrest ?_
    refine numbered_run hoptions (fun base imports heq => ?_) hevent hcontext
    exact hevents base imports (heq ▸ List.mem_cons_self ..)

/-- If only parameters matter for the table, its rows are numbered from zero on. -/
theorem Event.Binds.numbered {lo hi : Nat} {events : List Event} {values : List Json}
    (hbinds : Binds IsParam lo hi events values) {options : RenderOptions}
    (hoptions : options.Separate) {after : Context} {names : List String}
    (h : runAll events (.initial options) = .ok (names, after)) :
    after.params.map Prod.fst =
      (List.range after.params.length).map (Names.numbered options.paramPrefix) := by
  refine (numbered_runAll hoptions (fun base imports hmem => ?_) h (.initial options)).names
  have hkind := hbinds.kinds _ (List.mem_filter.mpr ⟨hmem, rfl⟩)
  simp [IsParam, identity?] at hkind

end GraphRead
