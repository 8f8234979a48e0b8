import GraphRead.Proofs.Rendering.Assignment
import GraphRead.Proofs.Text.Containment

/-!
# Plain names

If the prefixes of names are plain identifiers, and so are the names that a tree
fixes beforehand, then every name in the text of a query is plain: the stems of
scopes are made from names, and names from stems, prefixes and numbers.
-/

namespace GraphRead

open Event Context

namespace Identifier

/-- A plain identifier followed by further characters of plain identifiers. -/
theorem isPlain_append {name more : String} (h : isPlain name = true)
    (hmore : ∀ c ∈ more.toList, isPart c = true) : isPlain (name ++ more) = true := by
  unfold isPlain at h ⊢
  rw [String.toList_append]
  cases hchars : name.toList with
  | nil => simp [hchars, isPlainChars] at h
  | cons c rest =>
    simp only [hchars, isPlainChars, Bool.and_eq_true] at h
    simp only [List.cons_append, isPlainChars, List.all_append, Bool.and_eq_true]
    exact ⟨h.1, h.2, List.all_eq_true.mpr hmore⟩

/-- What may stand in front of a name: nothing, or a plain identifier. -/
def IsStem (stem : String) : Prop := stem = "" ∨ isPlain stem = true

/-- A plain base is plain with a stem in front of it. -/
theorem IsStem.append {stem base : String} (h : IsStem stem) (hbase : isPlain base = true) :
    isPlain (stem ++ base) = true := by
  rcases h with rfl | h
  · rwa [String.empty_append]
  · exact isPlain_append h (Text.isPart_of_isPlain hbase)

/-- A plain stem is plain with a number behind it. -/
theorem isPlain_numbered {stem : String} (h : isPlain stem = true) (number : Nat) :
    isPlain (Names.numbered stem number) = true := by
  refine isPlain_append h fun c hc => ?_
  simp [isPart, Char.isAlphanum, Names.isDigit_of_mem_toString hc]

/-- The stem of a scope is one, if the name of the scope is plain. -/
theorem isStem_stemBelow {name : String} (h : isPlain name = true) :
    IsStem (Names.stemBelow name) := by
  have hunderscore : ∀ c ∈ "_".toList, isPart c = true :=
    List.forall_mem_singleton.mpr (show isPart '_' = true by decide)
  exact .inr (isPlain_append h hunderscore)

end Identifier

open Identifier (isPlain IsStem)

/-- All prefixes are plain identifiers. -/
structure RenderOptions.Plain (options : RenderOptions) : Prop where
  ofParam : isPlain options.paramPrefix = true
  ofVariable : isPlain options.variablePrefix = true
  ofValue : isPlain options.valuePrefix = true

/-- The name of a variable is plain if it is fixed. -/
def Variable.Plain (v : Variable) : Prop := ∀ name ∈ v.name, isPlain name = true

/-- The names that an event fixes are plain. -/
def Event.Plain : Event → Prop
  | .name v => v.Plain
  | .openChild base imports => (∀ name ∈ base, isPlain name = true) ∧ ∀ v ∈ imports, v.Plain
  | _ => True

/-- The base of a name is plain, if prefixes and fixed names are. -/
theorem Context.isPlain_baseFor {options : RenderOptions} (h : options.Plain) {v : Variable}
    (hv : v.Plain) : isPlain (baseFor options v) = true := by
  obtain ⟨identity, kind, name, labels⟩ := v
  cases name with
  | some name => exact hv name rfl
  | none =>
    cases kind with
    | node | relationship => exact h.ofVariable
    | value => exact h.ofValue

/-- The base of the name of a subquery is plain, if prefixes and fixed names are. -/
theorem isPlain_callBase {options : RenderOptions} (h : options.Plain) {base : Option String}
    {imports : List Variable} (hevent : (Event.openChild base imports).Plain) :
    isPlain (callBase options base imports) = true := by
  obtain ⟨hbase, himports⟩ := hevent
  cases base with
  | some name => exact hbase name rfl
  | none =>
    cases imports with
    | nil => exact show isPlain "call" = true by decide
    | cons v rest => exact isPlain_baseFor h (himports v List.mem_cons_self)

namespace Context

/-- The names issued so far are plain, and so are those that will be. -/
structure Plain (context : Context) : Prop where
  options : context.options.Plain
  stem : IsStem context.scope.stem
  stems : ∀ scope ∈ context.enclosing, IsStem scope.stem
  issued : ∀ name ∈ context.names.issued, isPlain name = true

namespace Plain

variable {context : Context}

/-- No names have been issued at first. -/
theorem initial {options : RenderOptions} (h : options.Plain) :
    (Context.initial options).Plain where
  options := h
  stem := .inl rfl
  stems := by simp [Context.initial]
  issued := by simp [Context.initial, Names.empty]

/-- A name from a plain base is plain. -/
theorem isPlain_allocate (h : context.Plain) {base : String} (hbase : isPlain base = true) :
    isPlain ((Context.allocate base).run context).1 = true := by
  rw [run_allocate, Names.allocate]
  exact Identifier.isPlain_numbered (h.stem.append hbase) _

/-- Allocating a name from a plain base keeps names plain. -/
theorem allocate (h : context.Plain) {base : String} (hbase : isPlain base = true) :
    ((Context.allocate base).run context).2.Plain where
  options := h.options
  stem := h.stem
  stems := h.stems
  issued := by
    have hname := h.isPlain_allocate hbase
    rw [run_allocate] at hname ⊢
    rw [Names.allocate_issued]
    exact List.forall_mem_cons.mpr ⟨hname, h.issued⟩

/-- Binding a value keeps names plain. -/
theorem bindValue (h : context.Plain) (value : Json) :
    ((Context.bindValue value).run context).2.Plain := by
  have hbound := h.allocate h.options.ofParam
  rw [run_bindValue]
  exact ⟨hbound.options, hbound.stem, hbound.stems, hbound.issued⟩

/-- Naming a parameter keeps names plain. -/
theorem paramName (h : context.Plain) (p : Param) :
    ((Context.paramName p).run context).2.Plain := by
  cases hlookup : context.paramNames.lookup p with
  | some name =>
    rw [run_paramName_some hlookup]
    exact h
  | none =>
    rw [run_paramName_none hlookup]
    have hbound := h.bindValue p.value
    exact ⟨hbound.options, hbound.stem, hbound.stems, hbound.issued⟩

/-- Naming a variable keeps names plain, if the name is plain that may be fixed for it. -/
theorem variableName (h : context.Plain) {v : Variable} (hv : v.Plain) :
    ((Context.variableName v).run context).2.Plain := by
  cases hname : v.name with
  | some name =>
    rw [run_variableName_fixed hname]
    exact h
  | none =>
    cases hlookup : context.variableNames.lookup v with
    | some name =>
      rw [run_variableName_some hname hlookup]
      exact h
    | none =>
      rw [run_variableName_none hname hlookup]
      have hnamed := h.allocate (isPlain_baseFor h.options hv)
      exact ⟨hnamed.options, hnamed.stem, hnamed.stems, hnamed.issued⟩

/-- Entering a scope with a stem keeps names plain. -/
theorem enter (h : context.Plain) {scope : Scope} (hscope : IsStem scope.stem) :
    (context.enter scope).Plain where
  options := h.options
  stem := hscope
  stems := List.forall_mem_cons.mpr ⟨h.stem, h.stems⟩
  issued := h.issued

/-- Leaving a scope keeps names plain. -/
theorem leave (h : context.Plain) : context.leave.Plain := by
  obtain ⟨hstem, hstems⟩ := leave_scopes (fun scope => IsStem scope.stem) h.stem h.stems
  refine ⟨?_, hstem, hstems, ?_⟩
  · rw [leave_options]
    exact h.options
  · rw [leave_names]
    exact h.issued

/-- An event that fixes only plain names issues only plain ones. -/
theorem run {event : Event} (hevent : event.Plain) {after : Context} {names : List String}
    (hrun : event.run context = .ok (names, after)) (h : context.Plain) : after.Plain := by
  cases Event.steps_of_run hrun with
  | name v => exact h.variableName hevent
  | param p => exact h.paramName p
  | page count => exact h.bindValue _
  | require clause hdeclared => exact h
  | openChild base imports =>
    have hbase := isPlain_callBase h.options hevent
    exact (h.allocate hbase).enter (Identifier.isStem_stemBelow (h.isPlain_allocate hbase))
  | openNested => exact h.enter h.stem
  | close => exact h.leave
  | declare v | retain vs => exact ⟨h.options, h.stem, h.stems, h.issued⟩

/-- A whole run keeps names plain, if its events fix only plain names. -/
theorem runAll {events : List Event} (hevents : ∀ event ∈ events, event.Plain) {after : Context}
    {names : List String} (hrun : Event.runAll events context = .ok (names, after))
    (h : context.Plain) : after.Plain := by
  induction events generalizing context names with
  | nil =>
    simp only [Event.runAll, Except.ok.injEq, Prod.mk.injEq] at hrun
    exact hrun.2 ▸ h
  | cons event rest ih =>
    obtain ⟨_, _, middle, hfirst, hrest, -⟩ := RunResult.andThen_eq_ok hrun
    obtain ⟨hevent, hothers⟩ := List.forall_mem_cons.mp hevents
    exact ih hothers hrest (h.run hevent hfirst)

end Plain

end Context

/-- A variable among the handles of events is asked for by one of them. -/
theorem Event.name_mem_of_mem_handles {first : Nat} {v : Variable} {events : List Event}
    (h : .var v ∈ handles first events) : .name v ∈ events := by
  induction events generalizing first with
  | nil => simp [handles] at h
  | cons event rest ih =>
    rw [← List.singleton_append, handles_append, List.mem_append] at h
    rcases h with h | h
    · cases event <;> simp_all [handles]
    · exact List.mem_cons_of_mem event (ih h)

/-- What is printed under a name that is chosen has been issued. -/
theorem Statement.issued_of_isGenerated {statement : Statement} {options : RenderOptions}
    {naming : Naming} {pageNames : List String} {after : Context}
    (hrun : runAll statement.events (.initial options) = .ok (pageNames, after))
    (hagrees : naming.Agrees after) (hpages : naming.AgreesFrom 0 pageNames) {handle : Handle}
    (hhandle : handle ∈ (statement.print options.indentWidth naming 0).handles)
    (hgenerated : handle.isGenerated = true) : naming.name handle ∈ after.names.issued := by
  have hgains := gains_runAll hrun hagrees hpages
  rw [newHandles, isNew_initial] at hgains
  rw [Statement.handles_print] at hhandle
  refine hgains.recorded handle ?_
  simpa [List.mem_eraseDups] using ⟨hhandle, hgenerated⟩

/-- Every name in the text of a query is plain. -/
theorem Statement.isPlain_name {statement : Statement} {options : RenderOptions} {naming : Naming}
    {pageNames : List String} {after : Context} (hoptions : options.Plain)
    (hevents : ∀ event ∈ statement.events, event.Plain)
    (hrun : runAll statement.events (.initial options) = .ok (pageNames, after))
    (hagrees : naming.Agrees after) (hpages : naming.AgreesFrom 0 pageNames) :
    ∀ handle ∈ (statement.print options.indentWidth naming 0).handles,
      isPlain (naming.name handle) = true := by
  intro handle hhandle
  cases hgenerated : handle.isGenerated with
  | true =>
    have hissued := Statement.issued_of_isGenerated hrun hagrees hpages hhandle hgenerated
    exact ((Plain.initial hoptions).runAll hevents hrun).issued _ hissued
  | false =>
    rw [Statement.handles_print] at hhandle
    -- Only a fixed name is not generated.
    obtain v | _ | _ := handle
    · obtain ⟨name, hname⟩ : ∃ name, v.name = some name := by
        simpa [Handle.isGenerated, Option.isSome_iff_exists] using hgenerated
      have hplain : v.Plain := hevents _ (name_mem_of_mem_handles hhandle)
      simpa [Naming.name, hname] using hplain name hname
    · simp [Handle.isGenerated] at hgenerated
    · simp [Handle.isGenerated] at hgenerated

end GraphRead
