import GraphRead.Proofs.Rendering.Refinement
import GraphRead.Proofs.Rendering.Relabelling
import Mathlib.Data.List.Forall2

/-!
# Rendering relabelled trees

Rendering looks at variables and parameters only to tell them apart. This file
proves that a tree and a relabelled one are rendered in step: they take the same
names, fail in the same place with the same error, and bind values that are
similar if relabelling makes the values of parameters and pages similar.
-/

namespace GraphRead

open Event Context

/-- The scope with its variables exchanged. -/
def Scope.relabel (f : Relabelling) (scope : Scope) : Scope :=
  { scope with declared := scope.declared.map f.var }

/-- Two rows of parameter tables have the same name and similar values. -/
def RowsMatch (similar : Json → Json → Prop) (row row' : String × Json) : Prop :=
  row.1 = row'.1 ∧ similar row.2 row'.2

/-- What the parameters `ps` of a tree have to satisfy: they stay apart, and their values become
similar ones, as do the numbers of pages. -/
structure Relabelling.Respects (f : Relabelling) (similar : Json → Json → Prop)
    (ps : Param → Prop) : Prop where
  separates : ∀ {p q}, ps p → ps q → f.param p = f.param q → p = q
  values : ∀ {p}, ps p → similar p.value (f.param p).value
  counts : ∀ n, similar (.ofNat n.toNat) (.ofNat (f.count n).toNat)

/-- Two contexts are in step: the second is the first with everything exchanged. -/
structure Context.Matches (f : Relabelling) (similar : Json → Json → Prop) (ps : Param → Prop)
    (context context' : Context) : Prop where
  options : context'.options = context.options
  names : context'.names = context.names
  scope : context'.scope = context.scope.relabel f
  enclosing : context'.enclosing = context.enclosing.map (Scope.relabel f)
  depth : context'.depth = context.depth
  variableNames : context'.variableNames = context.variableNames.map fun entry =>
    (f.var entry.1, entry.2)
  paramNames : context'.paramNames = context.paramNames.map fun entry =>
    (f.param entry.1, entry.2)
  params : List.Forall₂ (RowsMatch similar) context.params context'.params
  known : ∀ entry ∈ context.paramNames, ps entry.1

/-- Two outcomes are in step. -/
def RunResult.Matches (f : Relabelling) (similar : Json → Json → Prop) (ps : Param → Prop) :
    RunResult → RunResult → Prop
  | .ok (names, context), .ok (names', context') =>
    names' = names ∧ context.Matches f similar ps context'
  | .error error, .error error' => error' = error
  | _, _ => False

/-- Looking up an exchanged key in an exchanged table finds what the key finds. -/
theorem lookup_map {κ : Type} [DecidableEq κ] (g : κ → κ) (table : List (κ × String)) (key : κ)
    (h : ∀ entry ∈ table, g key = g entry.1 → key = entry.1) :
    (table.map fun entry => (g entry.1, entry.2)).lookup (g key) = table.lookup key := by
  induction table with
  | nil => rfl
  | cons entry rest ih =>
    have hrest := ih fun other hother => h other (List.mem_cons_of_mem _ hother)
    have hentry := h entry (List.mem_cons_self ..)
    obtain ⟨other, name⟩ := entry
    by_cases hkey : key = other
    · simp [hkey]
    · have hother : g key ≠ g other := fun heq => hkey (hentry heq)
      simp [List.lookup_cons, beq_eq_false_iff_ne.mpr hkey, beq_eq_false_iff_ne.mpr hother, hrest]

/-- The base of the name stays the same, since it is made from the kind of the variable. -/
@[simp]
theorem Context.baseFor_relabel (f : Relabelling) (options : RenderOptions) (v : Variable) :
    baseFor options (f.var v) = baseFor options v := by
  simp [baseFor, f.name, f.kind]

/-- The base of the name of a subquery stays the same. -/
@[simp]
theorem callBase_relabel (f : Relabelling) (options : RenderOptions) (base : Option String)
    (imports : List Variable) :
    callBase options base (imports.map f.var) = callBase options base imports := by
  cases base <;> cases imports <;> simp [callBase]

/-- An exchanged variable is visible in exchanged scopes exactly if the variable was. -/
@[simp]
theorem Context.visible_relabel (f : Relabelling) (v : Variable) (scope : Scope)
    (enclosing : List Scope) :
    visible (f.var v) (scope.relabel f) (enclosing.map (Scope.relabel f)) =
      visible v scope enclosing := by
  have hmem (declared : List Variable) : f.var v ∈ declared.map f.var ↔ v ∈ declared := by
    simp only [List.mem_map]
    refine ⟨?_, fun hv => ⟨v, hv, rfl⟩⟩
    rintro ⟨w, hw, heq⟩
    exact f.injective heq ▸ hw
  induction enclosing generalizing scope with
  | nil => simp [visible, Scope.relabel, hmem]
  | cons outer rest ih =>
    simp only [List.map_cons, visible, ih]
    simp [Scope.relabel, hmem]

namespace Context.Matches

variable {f : Relabelling} {similar : Json → Json → Prop} {ps : Param → Prop}
  {context context' : Context}

/-- In step, the exchanged variable is declared exactly if the variable is. -/
theorem isDeclared (h : context.Matches f similar ps context') (v : Variable) :
    context'.isDeclared (f.var v) = context.isDeclared v := by
  simp [Context.isDeclared, h.scope, h.enclosing]

/-- Contexts in step allocate the same name and stay in step. -/
theorem allocate (h : context.Matches f similar ps context') (base : String) :
    ((Context.allocate base).run context').1 = ((Context.allocate base).run context).1 ∧
      ((Context.allocate base).run context).2.Matches f similar ps
        ((Context.allocate base).run context').2 := by
  have hstem : context'.scope.stem = context.scope.stem := by rw [h.scope]; rfl
  rw [run_allocate, run_allocate, h.names, hstem]
  exact ⟨rfl, h.options, rfl, h.scope, h.enclosing, h.depth, h.variableNames, h.paramNames,
    h.params, h.known⟩

/-- Binding similar values keeps contexts in step. -/
theorem bindValue (h : context.Matches f similar ps context') {value value' : Json}
    (hvalue : similar value value') :
    ((Context.bindValue value').run context').1 = ((Context.bindValue value).run context).1 ∧
      ((Context.bindValue value).run context).2.Matches f similar ps
        ((Context.bindValue value').run context').2 := by
  obtain ⟨hname, hafter⟩ := h.allocate context.options.paramPrefix
  rw [run_bindValue, run_bindValue, h.options]
  refine ⟨hname, hafter.options, hafter.names, hafter.scope, hafter.enclosing, hafter.depth,
    hafter.variableNames, hafter.paramNames, ?_, hafter.known⟩
  exact List.rel_append h.params (.cons ⟨hname.symm, hvalue⟩ .nil)

/-- Contexts in step give exchanged variables the same name and stay in step. -/
theorem variableName (h : context.Matches f similar ps context') (v : Variable) :
    ((Context.variableName (f.var v)).run context').1 =
        ((Context.variableName v).run context).1 ∧
      ((Context.variableName v).run context).2.Matches f similar ps
        ((Context.variableName (f.var v)).run context').2 := by
  have hlookup : context'.variableNames.lookup (f.var v) = context.variableNames.lookup v := by
    rw [h.variableNames]
    exact lookup_map f.var _ v fun entry _ heq => f.injective heq
  cases hname : v.name with
  | some name =>
    rw [run_variableName_fixed hname, run_variableName_fixed ((f.name v).trans hname)]
    exact ⟨rfl, h⟩
  | none =>
    have hname' : (f.var v).name = none := (f.name v).trans hname
    cases hfound : context.variableNames.lookup v with
    | some name =>
      rw [run_variableName_some hname hfound,
        run_variableName_some hname' (hlookup.trans hfound)]
      exact ⟨rfl, h⟩
    | none =>
      rw [run_variableName_none hname hfound,
        run_variableName_none hname' (hlookup.trans hfound), baseFor_relabel, h.options]
      obtain ⟨hgiven, hafter⟩ := h.allocate (baseFor context.options v)
      refine ⟨hgiven, hafter.options, hafter.names, hafter.scope, hafter.enclosing, hafter.depth,
        ?_, hafter.paramNames, hafter.params, hafter.known⟩
      simp [h.variableNames, hgiven]

/-- Contexts in step stay so when a parameter and the exchanged one are named. -/
theorem paramName (h : context.Matches f similar ps context') (hf : f.Respects similar ps)
    {p : Param} (hp : ps p) :
    ((Context.paramName p).run context).2.Matches f similar ps
      ((Context.paramName (f.param p)).run context').2 := by
  have hlookup : context'.paramNames.lookup (f.param p) = context.paramNames.lookup p := by
    rw [h.paramNames]
    exact lookup_map f.param _ p fun entry hentry heq =>
      hf.separates hp (h.known entry hentry) heq
  cases hfound : context.paramNames.lookup p with
  | some name =>
    rw [run_paramName_some hfound, run_paramName_some (hlookup.trans hfound)]
    exact h
  | none =>
    rw [run_paramName_none hfound, run_paramName_none (hlookup.trans hfound)]
    obtain ⟨hgiven, hafter⟩ := h.bindValue (hf.values hp)
    refine ⟨hafter.options, hafter.names, hafter.scope, hafter.enclosing, hafter.depth,
      hafter.variableNames, ?_, hafter.params, ?_⟩
    · simp [h.paramNames, hgiven]
    · intro entry hentry
      rcases List.mem_cons.mp hentry with rfl | hentry
      · exact hp
      · exact h.known entry hentry

/-- Contexts in step stay so when a scope is left. -/
theorem leave (h : context.Matches f similar ps context') :
    context.leave.Matches f similar ps context'.leave := by
  cases houter : context.enclosing with
  | nil =>
    have houter' : context'.enclosing = [] := by rw [h.enclosing, houter]; rfl
    simp only [Context.leave, houter, houter']
    exact ⟨h.options, h.names, h.scope, rfl, by rw [h.depth],
      h.variableNames, h.paramNames, h.params, h.known⟩
  | cons outer rest =>
    have houter' : context'.enclosing = outer.relabel f :: rest.map (Scope.relabel f) := by
      rw [h.enclosing, houter]; rfl
    simp only [Context.leave, houter, houter']
    exact ⟨h.options, h.names, rfl, rfl, by rw [h.depth], h.variableNames, h.paramNames,
      h.params, h.known⟩

/-- Contexts in step stay so when a scope and the exchanged one are entered. -/
theorem enter (h : context.Matches f similar ps context') {scope scope' : Scope}
    (hscope : scope' = scope.relabel f) :
    (context.enter scope).Matches f similar ps (context'.enter scope') where
  options := h.options
  names := h.names
  scope := hscope
  enclosing := by simp [Context.enter, h.scope, h.enclosing]
  depth := by simp [Context.enter, h.depth]
  variableNames := h.variableNames
  paramNames := h.paramNames
  params := h.params
  known := h.known

end Context.Matches

section Runs

variable {f : Relabelling} {similar : Json → Json → Prop} {ps : Param → Prop}

/-- Outcomes in step, followed by rendering in step, are in step. -/
theorem RunResult.Matches.andThen {outcome outcome' : RunResult} {next next' : Context → RunResult}
    (h : outcome.Matches f similar ps outcome')
    (hnext : ∀ {context context'}, context.Matches f similar ps context' →
      (next context).Matches f similar ps (next' context')) :
    (outcome.andThen next).Matches f similar ps (outcome'.andThen next') := by
  match outcome, outcome', h with
  | .error _, .error _, rfl => exact rfl
  | .ok (names, context), .ok (_, context'), ⟨rfl, hcontext⟩ =>
    have hrest := hnext hcontext
    rw [RunResult.andThen_ok, RunResult.andThen_ok]
    match next context, next' context', hrest with
    | .error _, .error _, rfl => exact rfl
    | .ok (_, _), .ok (_, _), ⟨rfl, hlast⟩ => exact ⟨rfl, hlast⟩

/-- An event and the exchanged one keep contexts in step. -/
theorem Event.run_relabel (hf : f.Respects similar ps) {event : Event}
    (hevent : ∀ p, event = .param p → ps p) {context context' : Context}
    (h : context.Matches f similar ps context') :
    (event.run context).Matches f similar ps ((event.relabel f).run context') := by
  cases event with
  | name v => exact ⟨rfl, (h.variableName v).2⟩
  | param p => exact ⟨rfl, h.paramName hf (hevent p rfl)⟩
  | page count =>
    obtain ⟨hname, hafter⟩ := h.bindValue (hf.counts count)
    exact ⟨congrArg (fun name => [name]) hname, hafter⟩
  | require clause v =>
    simp only [relabel, run, h.isDeclared]
    cases context.isDeclared v with
    | true => exact ⟨rfl, h⟩
    | false => exact congrArg (BuildError.undeclared · clause) (h.variableName v).1
  | reject error => exact rfl
  | declare v =>
    refine ⟨rfl, h.options, h.names, ?_, h.enclosing, h.depth, h.variableNames, h.paramNames,
      h.params, h.known⟩
    simp [run_declare, Scope.relabel, h.scope]
  | retain vs =>
    refine ⟨rfl, h.options, h.names, ?_, h.enclosing, h.depth, h.variableNames, h.paramNames,
      h.params, h.known⟩
    simp [run_retain, Scope.relabel, h.scope]
  | openChild base imports =>
    simp only [relabel, run, callBase_relabel, h.options]
    obtain ⟨hname, hafter⟩ := h.allocate (callBase context.options base imports)
    exact ⟨rfl, hafter.enter (by rw [hname]; rfl)⟩
  | openNested => exact ⟨rfl, h.enter (by simp [Scope.relabel, h.scope])⟩
  | close => exact ⟨rfl, h.leave⟩

/-- A run and the exchanged one stay in step. -/
theorem Event.runAll_relabel (hf : f.Respects similar ps) {events : List Event}
    (hevents : ∀ p, Event.param p ∈ events → ps p) {context context' : Context}
    (h : context.Matches f similar ps context') :
    (runAll events context).Matches f similar ps (runAll (events.map (relabel f)) context') := by
  induction events generalizing context context' with
  | nil => exact ⟨rfl, h⟩
  | cons event rest ih =>
    refine (run_relabel hf (fun p hp => hevents p (by simp [hp])) h).andThen ?_
    exact ih fun p hp => hevents p (List.mem_cons_of_mem _ hp)

/-- The initial context is in step with itself. -/
theorem Context.Matches.initial (options : RenderOptions) :
    (Context.initial options).Matches f similar ps (Context.initial options) :=
  ⟨rfl, rfl, rfl, rfl, rfl, rfl, rfl, .nil, by simp [Context.initial]⟩

/-- A naming that has the names of the second context has those of the first one through the
exchange. -/
theorem Context.Matches.through_agrees (hf : f.Respects similar ps) {context context' : Context}
    (h : context.Matches f similar ps context') {naming : Naming}
    (hagrees : naming.Agrees context') : (naming.through f).Agrees context where
  var := by
    intro v name hname
    refine hagrees.var ?_
    rw [h.variableNames, lookup_map f.var _ v fun entry _ heq => f.injective heq, hname]
  param := by
    intro p name hname
    have hp : ps p := by
      obtain ⟨before, after, heq, -⟩ := List.lookup_eq_some_iff.mp hname
      exact h.known (p, name) (by simp [heq])
    refine hagrees.param ?_
    rw [h.paramNames, lookup_map f.param _ p fun entry hentry heq =>
      hf.separates hp (h.known entry hentry) heq, hname]

end Runs

/-- Two queries have the same text, and tables with the same names and similar values. -/
structure Query.Matches (similar : Json → Json → Prop) (query query' : Query) : Prop where
  text : query'.text = query.text
  params : List.Forall₂ (RowsMatch similar) query.params query'.params

namespace Statement

variable {f : Relabelling} {similar : Json → Json → Prop} {ps : Param → Prop}
  {options : RenderOptions} {statement : Statement}

/-- If a statement is built, the relabelled one is built to the same text. -/
theorem build_relabel_ok (hf : f.Respects similar ps)
    (hps : ∀ p, Event.param p ∈ statement.events → ps p) {query : Query}
    (h : statement.build options = .ok query) :
    ∃ query', (statement.relabel f).build options = .ok query' ∧ query.Matches similar query' := by
  obtain ⟨names, after, hrun⟩ := runAll_of_build h
  have hstep := runAll_relabel hf hps (Context.Matches.initial (f := f) options)
  rw [hrun, ← events_relabel] at hstep
  match hrun' : runAll (statement.relabel f).events (.initial options), hstep with
  | .ok (_, after'), ⟨rfl, hafter⟩ =>
    obtain ⟨text, hbuild, htext⟩ := build_ok hrun
    obtain ⟨text', hbuild', htext'⟩ := build_ok hrun'
    obtain rfl : query = ⟨text, after.params⟩ := Except.ok.inj (h.symm.trans hbuild)
    refine ⟨_, hbuild', ?_, hafter.params⟩
    -- The names of the second run, seen through the exchange, are those of the first one.
    have hagrees := after'.naming_agrees names
    have hpages := after'.naming_agreesFrom names
    calc text' = ((statement.relabel f).print options.indentWidth (after'.naming names) 0).text :=
          (htext' _ hagrees hpages).symm
      _ = (statement.print options.indentWidth ((after'.naming names).through f) 0).text :=
          text_print_relabel ..
      _ = text := htext _ (hafter.through_agrees hf hagrees) hpages

/-- If a statement cannot be built, the relabelled one cannot be built for the same reason. -/
theorem build_relabel_error (hf : f.Respects similar ps)
    (hps : ∀ p, Event.param p ∈ statement.events → ps p) {error : BuildError}
    (h : statement.build options = .error error) :
    (statement.relabel f).build options = .error error := by
  have hstep := runAll_relabel hf hps (Context.Matches.initial (f := f) options)
  rw [← events_relabel] at hstep
  match hrun : runAll statement.events (.initial options) with
  | .ok _ =>
    obtain ⟨text, hbuild, -⟩ := build_ok hrun
    simp [h] at hbuild
  | .error error' =>
    obtain rfl : error = error' := Except.error.inj (h.symm.trans (build_error hrun))
    rw [hrun] at hstep
    match hrun' : runAll (statement.relabel f).events (.initial options), hstep with
    | .error _, rfl => exact build_error hrun'

end Statement

end GraphRead
