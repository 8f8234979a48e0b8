import GraphRead.Proofs.Rendering.PlainNames
import GraphRead.Proofs.Rendering.Scoping

/-!
# Aliases beside fixed names

Some variables come with a fixed name, which is printed as it is and which the
supply of names knows nothing of. All other variables get an alias, which is made
from a prefix, a number and the names of the subqueries around it. Aliases are
different from each other, but one of them can be a name that is fixed somewhere
in the tree. This file describes the form of aliases, proves that only fixed names
of that form are ever met by one, and shows that with any options some are.
-/

namespace GraphRead

open Event Context

/-- The word from which the name of a subquery is made, if an event opens one. -/
def Event.scopeWord? (options : RenderOptions) : Event → Option String
  | .openChild base imports => some (callBase options base imports)
  | _ => none

/-- The words from which the names of the subqueries in a tree are made. -/
def Statement.scopeWords (options : RenderOptions) (statement : Statement) : List String :=
  statement.events.filterMap (scopeWord? options)

/-- What stands in front of names in some scope: nothing, or the name of a subquery. -/
inductive Names.IsStemOf (words : List String) : String → Prop where
  | root : IsStemOf words ""
  | inside {stem word : String} {number : Nat} (hstem : IsStemOf words stem)
    (hword : word ∈ words) : IsStemOf words (stemBelow (numbered (stem ++ word) number))

open Names (IsStemOf)

/-- A name has the form of an alias of a variable. -/
def Variable.IsAlias (options : RenderOptions) (words : List String) (v : Variable)
    (name : String) : Prop :=
  ∃ stem number, IsStemOf words stem ∧ name = Names.numbered (stem ++ baseFor options v) number

/-- A variable without a fixed name can get the one that is fixed for another variable. -/
def Variable.CanMeet (options : RenderOptions) (words : List String) (v w : Variable) : Prop :=
  v.name = none ∧ ∃ name, w.name = some name ∧ v.IsAlias options words name

/-- An alias ends in a digit. -/
theorem Variable.IsAlias.endsInDigit {options : RenderOptions} {words : List String}
    {v : Variable} {name : String} (h : v.IsAlias options words name) :
    Settings.endsInDigit name = true := by
  obtain ⟨stem, number, -, rfl⟩ := h
  exact Names.endsInDigit_numbered _ number

namespace Context

/-- The names of variables have the form of aliases, and so will those that are still chosen. -/
structure Aliased (options : RenderOptions) (words : List String) (context : Context) : Prop where
  same : context.options = options
  stem : IsStemOf words context.scope.stem
  stems : ∀ scope ∈ context.enclosing, IsStemOf words scope.stem
  named : ∀ v name, context.variableNames.lookup v = some name → v.IsAlias options words name

namespace Aliased

variable {options : RenderOptions} {words : List String} {context : Context}

/-- No variable has a name at first. -/
theorem initial (options : RenderOptions) (words : List String) :
    (Context.initial options).Aliased options words where
  same := rfl
  stem := .root
  stems := List.forall_mem_nil _
  named := by simp [Context.initial]

/-- Only the supply of names, the parameters and what is declared have changed. -/
theorem of_same {after : Context} (h : context.Aliased options words)
    (hoptions : after.options = context.options)
    (hstem : after.scope.stem = context.scope.stem) (hstems : after.enclosing = context.enclosing)
    (hnames : after.variableNames = context.variableNames) : after.Aliased options words where
  same := hoptions.trans h.same
  stem := by rw [hstem]; exact h.stem
  stems := by rw [hstems]; exact h.stems
  named := by rw [hnames]; exact h.named

/-- Allocating a name gives no variable one. -/
theorem allocate (h : context.Aliased options words) (base : String) :
    ((Context.allocate base).run context).2.Aliased options words :=
  h.of_same rfl rfl rfl rfl

/-- Binding a value gives no variable a name. -/
theorem bindValue (h : context.Aliased options words) (value : Json) :
    ((Context.bindValue value).run context).2.Aliased options words := by
  rw [run_bindValue]
  exact h.of_same rfl rfl rfl rfl

/-- Naming a parameter gives no variable a name. -/
theorem paramName (h : context.Aliased options words) (p : Param) :
    ((Context.paramName p).run context).2.Aliased options words := by
  cases hlookup : context.paramNames.lookup p with
  | some name =>
    rw [run_paramName_some hlookup]
    exact h
  | none =>
    rw [run_paramName_none hlookup]
    exact (h.bindValue p.value).of_same rfl rfl rfl rfl

/-- A variable that is asked for the first time gets an alias of the innermost scope. -/
theorem variableName (h : context.Aliased options words) (v : Variable) :
    ((Context.variableName v).run context).2.Aliased options words := by
  cases hname : v.name with
  | some name =>
    rw [run_variableName_fixed hname]
    exact h
  | none =>
    cases hlookup : context.variableNames.lookup v with
    | some name =>
      rw [run_variableName_some hname hlookup]
      exact h
    | none =>
      rw [run_variableName_none hname hlookup]
      refine ⟨h.same, h.stem, h.stems, fun w name hw => ?_⟩
      by_cases heq : w = v
      · subst heq
        obtain rfl : ((Context.allocate (baseFor context.options w)).run context).1 = name := by
          simpa using hw
        exact ⟨context.scope.stem, _, h.stem, by rw [run_allocate, Names.allocate, h.same]⟩
      · refine h.named w name ?_
        simpa only [List.lookup_cons, beq_eq_false_iff_ne.mpr heq] using hw

/-- Entering a scope keeps the names of variables, and its stem is made from a word of the tree. -/
theorem enter (h : context.Aliased options words) {scope : Scope}
    (hscope : IsStemOf words scope.stem) : (context.enter scope).Aliased options words where
  same := h.same
  stem := hscope
  stems := List.forall_mem_cons.mpr ⟨h.stem, h.stems⟩
  named := h.named

/-- Leaving a scope keeps the names of variables. -/
theorem leave (h : context.Aliased options words) : context.leave.Aliased options words := by
  obtain ⟨hstem, hstems⟩ := leave_scopes (fun scope => IsStemOf words scope.stem) h.stem h.stems
  refine ⟨context.leave_options.trans h.same, hstem, hstems, ?_⟩
  rw [leave_variableNames]
  exact h.named

/-- An event gives a name to a variable only in the form of an alias. -/
theorem run {event : Event} (hword : ∀ word ∈ event.scopeWord? options, word ∈ words)
    {after : Context} {names : List String} (hrun : event.run context = .ok (names, after))
    (h : context.Aliased options words) : after.Aliased options words := by
  cases Event.steps_of_run hrun with
  | name v => exact h.variableName v
  | param p => exact h.paramName p
  | page count => exact h.bindValue _
  | require clause hdeclared => exact h
  | openChild base imports =>
    refine (h.allocate _).enter ?_
    rw [run_allocate, Names.allocate]
    exact .inside h.stem (hword _ (by rw [h.same]; rfl))
  | openNested => exact h.enter h.stem
  | close => exact h.leave
  | declare v | retain vs => exact h.of_same rfl rfl rfl rfl

/-- A whole run gives variables aliases only, if the words of its subqueries are among those of the
tree. -/
theorem runAll {events : List Event} (hwords : events.filterMap (scopeWord? options) ⊆ words)
    {after : Context} {names : List String}
    (hrun : Event.runAll events context = .ok (names, after))
    (h : context.Aliased options words) : after.Aliased options words := by
  induction events generalizing context names with
  | nil =>
    simp only [Event.runAll, Except.ok.injEq, Prod.mk.injEq] at hrun
    exact hrun.2 ▸ h
  | cons event rest ih =>
    obtain ⟨_, _, middle, hfirst, hrest, -⟩ := RunResult.andThen_eq_ok hrun
    have hmem {event' : Event} (hevent : event' ∈ event :: rest) {word : String}
        (hword : word ∈ event'.scopeWord? options) : word ∈ words :=
      hwords (List.mem_filterMap.mpr ⟨event', hevent, hword⟩)
    refine ih (fun word hword => ?_) hrest
      (h.run (fun word hword => hmem List.mem_cons_self hword) hfirst)
    obtain ⟨event', hevent, hword⟩ := List.mem_filterMap.mp hword
    exact hmem (List.mem_cons_of_mem event hevent) hword

end Aliased

end Context

/-- A variable that was asked for is remembered under its alias. -/
theorem Event.lookup_of_name_mem {events : List Event} {context after : Context}
    {names : List String} (h : runAll events context = .ok (names, after)) {v : Variable}
    (hv : .name v ∈ events) (hfree : v.name = none) :
    ∃ name, after.variableNames.lookup v = some name := by
  induction events generalizing context names with
  | nil => simp at hv
  | cons event rest ih =>
    obtain ⟨_, _, middle, hfirst, hrest, -⟩ := RunResult.andThen_eq_ok h
    rcases List.mem_cons.mp hv with rfl | hv
    · have hknown := isNew_run hfirst (.var v)
      simp only [isNew, hfree, asked, List.mem_singleton, not_true_eq_false, decide_false,
        Bool.and_false, Option.isNone_none, Bool.true_and] at hknown
      obtain ⟨name, hname⟩ := Option.isSome_iff_exists.mp (Option.isNone_eq_false_iff.mp hknown)
      exact ⟨name, (runAll_extends hrest).var hname⟩
    · exact ih hrest hv

namespace Statement

/-- A variable of a printed tree. -/
def Prints (statement : Statement) (options : RenderOptions) (naming : Naming) (v : Variable) :
    Prop :=
  .var v ∈ (statement.print options.indentWidth naming 0).handles

/-- How names are shared in a printed tree: only by means of fixed names. -/
structure SharesOnlyFixed (statement : Statement) (options : RenderOptions) (naming : Naming) :
    Prop where
  fixed : ∀ v name, v.name = some name → naming.name (.var v) = name
  aliased : ∀ v, statement.Prints options naming v → v.name = none →
    v.IsAlias options (statement.scopeWords options) (naming.name (.var v))
  /-- Two variables share a name only if both have it as their fixed name, or if the fixed name of
  one has the form of an alias of the other. -/
  shared : ∀ v w, statement.Prints options naming v → statement.Prints options naming w → v ≠ w →
    naming.name (.var v) = naming.name (.var w) →
    (∃ name, v.name = some name ∧ w.name = some name) ∨
      v.CanMeet options (statement.scopeWords options) w ∨
      w.CanMeet options (statement.scopeWords options) v
  /-- If no fixed name ends in a digit, then no alias is one of them. -/
  apart : (∀ v name, statement.Prints options naming v → v.name = some name →
      Settings.endsInDigit name = false) →
    ∀ v w, statement.Prints options naming v → statement.Prints options naming w → v ≠ w →
      naming.name (.var v) = naming.name (.var w) →
      ∃ name, v.name = some name ∧ w.name = some name

section Run

variable {statement : Statement} {options : RenderOptions} {naming : Naming}
  {pageNames : List String} {after : Context}
  (hrun : runAll statement.events (.initial options) = .ok (pageNames, after))
  (hagrees : naming.Agrees after) (hpages : naming.AgreesFrom 0 pageNames)

include hrun hagrees

/-- What is printed for a variable without a fixed name has the form of its aliases. -/
theorem isAlias_of_prints {v : Variable} (hv : statement.Prints options naming v)
    (hfree : v.name = none) :
    v.IsAlias options (statement.scopeWords options) (naming.name (.var v)) := by
  rw [Prints, handles_print] at hv
  obtain ⟨name, hname⟩ := lookup_of_name_mem hrun (name_mem_of_mem_handles hv) hfree
  have haliased := (Aliased.initial options _).runAll (List.Subset.refl _) hrun
  have hprinted : naming.name (.var v) = name := by
    rw [Naming.name, hfree]
    exact hagrees.var hname
  rw [hprinted]
  exact haliased.named v name hname

include hpages

/-- Aliases are all different, so of two variables with the same name one has it fixed. The other
one has it fixed too, or it is an alias of the other one. -/
theorem fixed_or_canMeet {v w : Variable} (hv : statement.Prints options naming v)
    (hw : statement.Prints options naming w) (hne : v ≠ w)
    (heq : naming.name (.var v) = naming.name (.var w)) :
    (∃ name, v.name = some name ∧ w.name = some name) ∨
      v.CanMeet options (statement.scopeWords options) w ∨
      w.CanMeet options (statement.scopeWords options) v := by
  cases hfirst : v.name with
  | none =>
    have halias := isAlias_of_prints hrun hagrees hv hfirst
    cases hsecond : w.name with
    | none =>
      rw [Prints, handles_print] at hv hw
      -- Two aliases are never the same.
      have hsame := eq_of_generated_name_eq hrun hagrees hpages hv hw
        (by simp [Handle.isGenerated, hfirst]) (by simp [Handle.isGenerated, hsecond]) heq
      exact absurd (Handle.var.inj hsame) hne
    | some name =>
      have hname : naming.name (.var w) = name := by simp [Naming.name, hsecond]
      rw [heq, hname] at halias
      exact .inr (.inl ⟨hfirst, name, hsecond, halias⟩)
  | some name =>
    have hname : naming.name (.var v) = name := by simp [Naming.name, hfirst]
    cases hsecond : w.name with
    | none =>
      have halias := isAlias_of_prints hrun hagrees hw hsecond
      rw [← heq, hname] at halias
      exact .inr (.inr ⟨hsecond, name, hfirst, halias⟩)
    | some other =>
      have hother : naming.name (.var w) = other := by simp [Naming.name, hsecond]
      exact .inl ⟨name, rfl, by rw [← hname, heq, hother]⟩

/-- A run shares names only by means of fixed ones. -/
theorem sharesOnlyFixed_of_run : statement.SharesOnlyFixed options naming := by
  constructor
  case fixed =>
    intro v name hname
    simp [Naming.name, hname]
  case aliased => exact fun v hv hfree => isAlias_of_prints hrun hagrees hv hfree
  case shared => exact fun v w hv hw => fixed_or_canMeet hrun hagrees hpages hv hw
  case apart =>
    intro hdigit v w hv hw hne heq
    -- An alias ends in a digit, so it is none of the fixed names.
    have hmeet {v w : Variable} (hw : statement.Prints options naming w) :
        ¬ v.CanMeet options (statement.scopeWords options) w := by
      rintro ⟨-, name, hname, halias⟩
      exact absurd halias.endsInDigit (by simp [hdigit w name hw hname])
    rcases fixed_or_canMeet hrun hagrees hpages hv hw hne heq with hfixed | hmet | hmet
    · exact hfixed
    · exact absurd hmet (hmeet hw)
    · exact absurd hmet (hmeet hv)

end Run

/-- A tree in which a node has the name that the other one is going to get. -/
def clash (options : RenderOptions) : Statement :=
  let fixed := Variable.namedNode 0 (Names.numbered options.variablePrefix 0) ["A"]
  let free := Variable.node 1 ["B"]
  .matching false ⟨.of fixed, [(.anonymous "T" .outgoing, .of free)]⟩
    [.returning false [.plain (.var fixed), .plain (.var free)]]

/-- The tree is well scoped. -/
theorem wellScoped_clash (options : RenderOptions) : (clash options).WellScoped := by
  simp [clash, WellScoped, AllScoped, Scoped, Item.AllScoped, Item.Scoped, Expr.Scoped, Expr.reads,
    Pattern.bound, NodePattern.of, RelationshipPattern.anonymous, Sight.inside, Sight.Declares,
    Sight.Sees]

/-- The node without a fixed name is the first that gets an alias. -/
theorem lookup_clash {options : RenderOptions} {after : Context} {names : List String}
    (h : runAll (clash options).events (.initial options) = .ok (names, after)) :
    after.variableNames.lookup (.node 1 ["B"]) =
      some (Names.numbered options.variablePrefix 0) := by
  have hevents : ∃ rest, (clash options).events =
      [.declare (.namedNode 0 (Names.numbered options.variablePrefix 0) ["A"]),
        .declare (.node 1 ["B"]),
        .name (.namedNode 0 (Names.numbered options.variablePrefix 0) ["A"]),
        .name (.node 1 ["B"])] ++ rest := ⟨_, rfl⟩
  obtain ⟨rest, hevents⟩ := hevents
  rw [hevents, runAll_append] at h
  obtain ⟨_, _, middle, hfirst, hrest, -⟩ := RunResult.andThen_eq_ok h
  refine (runAll_extends hrest).var ?_
  obtain ⟨-, rfl⟩ := Prod.mk.inj (Except.ok.inj hfirst)
  have hstem : "" ++ options.variablePrefix = options.variablePrefix := String.empty_append
  rw [← hstem]
  rfl

/-- Names are shared in a query that is built only by means of fixed names. With any options there
is a tree in which a node with a fixed name and another node share a name. -/
theorem build_sharesOnlyFixed (options : RenderOptions) :
    (∀ (statement : Statement) (query : Query), statement.build options = .ok query →
      ∃ naming, query.text = (statement.print options.indentWidth naming 0).text ∧
        statement.SharesOnlyFixed options naming) ∧
    ∃ query naming v w, (clash options).build options = .ok query ∧
      query.text = ((clash options).print options.indentWidth naming 0).text ∧
      (clash options).Prints options naming v ∧ (clash options).Prints options naming w ∧
      v ≠ w ∧ v.name = none ∧ w.name.isSome ∧ naming.name (.var v) = naming.name (.var w) := by
  constructor
  · intro statement query h
    obtain ⟨pageNames, after, hrun, htext, -⟩ := printed_of_build h
    exact ⟨_, htext, sharesOnlyFixed_of_run hrun (after.naming_agrees pageNames)
      (after.naming_agreesFrom pageNames)⟩
  · obtain ⟨query, hbuild⟩ := (wellScoped_clash options).build_ok options
    obtain ⟨pageNames, after, hrun, htext, -⟩ := printed_of_build hbuild
    have hagrees := after.naming_agrees pageNames
    refine ⟨query, after.naming pageNames, .node 1 ["B"],
      .namedNode 0 (Names.numbered options.variablePrefix 0) ["A"], hbuild, htext, ?_, ?_, ?_,
      rfl, rfl, hagrees.var (lookup_clash hrun)⟩
    · rw [Prints, handles_print]
      exact List.mem_cons_of_mem _ List.mem_cons_self
    · rw [Prints, handles_print]
      exact List.mem_cons_self
    · intro heq
      exact absurd (congrArg Variable.identity heq) Nat.one_ne_zero

/-- With the options as they are by default, both nodes of the tree are printed under one name. -/
theorem clash_default_shared :
    (clash {}).build {} =
      .ok ⟨"MATCH (this0:A)-[:T]->(this0:B)\nRETURN this0, this0", []⟩ ∧
    ∃ naming, "MATCH (this0:A)-[:T]->(this0:B)\nRETURN this0, this0" =
        ((clash {}).print 4 naming 0).text ∧ (clash {}).SharesOnlyFixed {} naming := by
  have hbuild : (clash {}).build {} =
      .ok ⟨"MATCH (this0:A)-[:T]->(this0:B)\nRETURN this0, this0", []⟩ := by decide +kernel
  exact ⟨hbuild, (build_sharesOnlyFixed {}).1 (clash {}) _ hbuild⟩

end Statement

end GraphRead
