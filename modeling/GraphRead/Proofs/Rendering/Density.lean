import GraphRead.Proofs.Rendering.Allocation

/-!
# Names are numbered without gaps

A generated name is the stem of a scope, a base, and a number. Stems of scopes end
in an underscore, so that a name tells what stands before its number as long as no
base ends in a digit. This file runs operations on a render context and notes every
name that is allocated with its stem and its base. Its number is then the number of
earlier names, in whatever scopes, for which stem and base made the same text: no
number is skipped, even if a base imitates the stem of another scope.
-/

namespace GraphRead

open Context

/-- A name that was allocated, with the stem of the scope and the base that it was made from. -/
structure Allocation where
  stem : String
  base : String
  name : String
deriving DecidableEq

namespace Allocation

/-- What stands before the number. -/
def word (allocation : Allocation) : String := allocation.stem ++ allocation.base

/-- How many names have been made from a word. -/
def uses (word : String) (log : List Allocation) : Nat :=
  log.countP fun earlier => earlier.word = word

/-- One more name counts for its own word. -/
theorem uses_concat (word : String) (log : List Allocation) (allocation : Allocation) :
    uses word (log ++ [allocation]) = uses word log + if allocation.word = word then 1 else 0 := by
  simp [uses, List.countP_append, List.countP_singleton]

/-- Every name is made from its word and from the number of earlier names of that word. -/
def Dense (log : List Allocation) : Prop :=
  ∀ earlier allocation later, log = earlier ++ allocation :: later →
    allocation.name = allocation.stem ++ allocation.base ++ toString (uses allocation.word earlier)

/-- A log stays dense if the next name has the next number of its word. -/
theorem Dense.concat {log : List Allocation} (h : Dense log) {allocation : Allocation}
    (hname : allocation.name = Names.numbered allocation.word (uses allocation.word log)) :
    Dense (log ++ [allocation]) := by
  intro earlier other later heq
  rcases List.eq_nil_or_concat later with rfl | ⟨later, last, rfl⟩
  · obtain ⟨rfl, hlast⟩ := List.append_inj_left' heq rfl, List.append_inj_right' heq rfl
    obtain rfl := List.singleton_inj.mp hlast
    exact hname
  · rw [List.concat_eq_append, ← List.cons_append, ← List.append_assoc] at heq
    exact h earlier other later (List.append_inj_left' heq rfl)

end Allocation

namespace Operation

/-- The note of a name that is allocated in a context. -/
def note (before : Context) (base name : String) : Allocation := ⟨before.scope.stem, base, name⟩

mutual
/-- Runs an operation and notes the names that it allocates. A variable or a parameter that has a
name already does not allocate one. -/
def record : Operation → Render (List Allocation)
  | .allocate base => do
    let before ← get
    return [note before base (← Context.allocate base)]
  | .bind value => do
    let before ← get
    return [note before before.options.paramPrefix (← bindValue value)]
  | .param p => do
    let before ← get
    let name ← paramName p
    return if (before.paramNames.lookup p).isSome then []
      else [note before before.options.paramPrefix name]
  | .name v => do
    let before ← get
    let name ← variableName v
    return if v.name.isSome || (before.variableNames.lookup v).isSome then []
      else [note before (baseFor before.options v) name]
  | .declare v => do
    Context.declare v
    return []
  | .retain vs => do
    Context.retain vs
    return []
  | .child base imports body => do
    let before ← get
    inChild base imports do
      let name := nameAbove (← get).scope.stem
      let inner ← recordAll body
      return note before base name :: inner
  | .nested body => inNested (recordAll body)
termination_by structural operation => operation

/-- Runs operations one after another. -/
def recordAll : List Operation → Render (List Allocation)
  | [] => return []
  | operation :: rest => do
    let first ← operation.record
    let others ← recordAll rest
    return first ++ others
termination_by structural operations => operations
end

end Operation

namespace Names

/-- A text that is put together ends in a digit only if one of its parts does. -/
theorem endsInDigit_append {first second : String} (hfirst : Settings.endsInDigit first = false)
    (hsecond : Settings.endsInDigit second = false) :
    Settings.endsInDigit (first ++ second) = false := by
  unfold Settings.endsInDigit at *
  rw [String.toList_append, List.getLast?_append]
  cases hlast : second.toList.getLast? with
  | none => simpa using hfirst
  | some c => simpa [hlast] using hsecond

/-- The stem of a scope does not end in a digit, although the name that it is made from does. -/
theorem endsInDigit_stemBelow (name : String) : Settings.endsInDigit (stemBelow name) = false := by
  simp [Settings.endsInDigit, stemBelow]

end Names

/-- A log accounts for the names in a context: it lists the issued ones in order, the counters
count its entries, and these are dense. No scope has a stem that ends in a digit. -/
structure Context.Accounted (context : Context) (log : List Allocation) : Prop where
  stem : Settings.endsInDigit context.scope.stem = false
  stems : ∀ scope ∈ context.enclosing, Settings.endsInDigit scope.stem = false
  supply : context.names.Dense
  issued : context.names.issued = (log.map Allocation.name).reverse
  counter : ∀ word, context.names.counter word = Allocation.uses word log
  dense : Allocation.Dense log

namespace Context.Accounted

variable {context after : Context} {log : List Allocation}

/-- Nothing has been allocated at first. -/
theorem initial (options : RenderOptions) : (Context.initial options).Accounted [] where
  stem := rfl
  stems := by simp [Context.initial]
  supply := Names.dense_empty
  issued := rfl
  counter _ := rfl
  dense := by simp [Allocation.Dense]

/-- What is declared, and what has got a name, does not matter. -/
theorem congr (h : context.Accounted log) (hnames : after.names = context.names)
    (hstem : after.scope.stem = context.scope.stem)
    (henclosing : after.enclosing = context.enclosing) : after.Accounted log := by
  obtain ⟨hstem', hstems, hsupply, hissued, hcounter, hdense⟩ := h
  rw [← hstem] at hstem'
  rw [← henclosing] at hstems
  rw [← hnames] at hsupply hissued
  exact ⟨hstem', hstems, hsupply, hissued, fun word => hnames ▸ hcounter word, hdense⟩

/-- The next name of a word has the next number. -/
theorem allocate (h : context.Accounted log) {base : String}
    (hbase : Settings.endsInDigit base = false) :
    ((Context.allocate base).run context).2.Accounted
      (log ++ [Operation.note context base ((Context.allocate base).run context).1]) := by
  have hword : Settings.endsInDigit (context.scope.stem ++ base) = false :=
    Names.endsInDigit_append h.stem hbase
  have hnext : context.names.next (context.scope.stem ++ base) =
      Allocation.uses (context.scope.stem ++ base) log := by
    rw [h.supply.next_eq_counter hword, h.counter]
  rw [run_allocate]
  refine ⟨h.stem, h.stems, h.supply.allocate hword, ?_, fun word => ?_, h.dense.concat ?_⟩
  · simp [h.issued, Operation.note]
  · rw [Names.counter_allocate, Allocation.uses_concat, hnext, h.counter]
    by_cases heq : word = context.scope.stem ++ base
    · simp [heq, Allocation.word, Operation.note]
    · simp [heq, Ne.symm heq, Allocation.word, Operation.note]
  · exact congrArg (Names.numbered (context.scope.stem ++ base)) hnext

/-- Binding a value allocates one name, which is noted. -/
theorem bindValue (h : context.Accounted log)
    (hbase : Settings.endsInDigit context.options.paramPrefix = false) (value : Json) :
    ((Context.bindValue value).run context).2.Accounted
      (log ++ [Operation.note context context.options.paramPrefix
        ((Context.bindValue value).run context).1]) := by
  rw [run_bindValue]
  exact (h.allocate hbase).congr rfl rfl rfl

/-- Entering a scope allocates nothing. -/
theorem enter (h : context.Accounted log) {scope : Scope}
    (hstem : Settings.endsInDigit scope.stem = false) : (context.enter scope).Accounted log where
  stem := hstem
  stems := List.forall_mem_cons.mpr ⟨h.stem, h.stems⟩
  supply := h.supply
  issued := h.issued
  counter := h.counter
  dense := h.dense

/-- Leaving a scope allocates nothing. -/
theorem leave (h : context.Accounted log) : context.leave.Accounted log := by
  obtain ⟨hstem, hstems⟩ := leave_scopes (fun scope => Settings.endsInDigit scope.stem = false)
    h.stem h.stems
  refine ⟨hstem, hstems, ?_, ?_, ?_, h.dense⟩
  · rw [leave_names]
    exact h.supply
  · rw [leave_names]
    exact h.issued
  · rw [leave_names]
    exact h.counter

end Context.Accounted

namespace Operation

/-- Running succeeds, and if no base of the allocated names ends in a digit, a log that accounted
for the names before does so afterwards together with them. -/
def KeepsAccount (m : Render (List Allocation)) : Prop :=
  ∀ context, ∃ allocated after, m.result context = (.ok allocated, after) ∧
    ∀ log, context.Accounted log →
      (∀ allocation ∈ allocated, Settings.endsInDigit allocation.base = false) →
      after.Accounted (log ++ allocated)

/-- A parameter allocates a name if it has none. -/
theorem result_record_param (p : Param) (context : Context) :
    (record (.param p)).result context =
      (.ok (if (context.paramNames.lookup p).isSome then []
        else [note context context.options.paramPrefix ((paramName p).run context).1]),
        ((paramName p).run context).2) := by
  rw [record, Render.result_bind_ok (Render.result_get _),
    Render.result_bind_ok (Render.result_lift ..), Render.result_pure]

/-- A variable allocates a name if none is fixed for it and it has none. -/
theorem result_record_name (v : Variable) (context : Context) :
    (record (.name v)).result context =
      (.ok (if v.name.isSome || (context.variableNames.lookup v).isSome then []
        else [note context (baseFor context.options v) ((variableName v).run context).1]),
        ((variableName v).run context).2) := by
  rw [record, Render.result_bind_ok (Render.result_get _),
    Render.result_bind_ok (Render.result_lift ..), Render.result_pure]

mutual
/-- An operation notes the names that it allocates. -/
theorem keepsAccount_record (operation : Operation) : KeepsAccount operation.record := by
  cases operation with
  | allocate base =>
    intro context
    refine ⟨_, _, rfl, fun log h hbases => ?_⟩
    have hbase := List.forall_mem_singleton.mp hbases
    exact h.allocate hbase
  | bind value =>
    intro context
    refine ⟨_, _, rfl, fun log h hbases => ?_⟩
    have hbase := List.forall_mem_singleton.mp hbases
    exact h.bindValue hbase value
  | param p =>
    intro context
    refine ⟨_, _, result_record_param p context, fun log h hbases => ?_⟩
    cases hlookup : context.paramNames.lookup p with
    | some name =>
      rw [run_paramName_some hlookup]
      simpa using h
    | none =>
      rw [hlookup] at hbases
      have hbase := List.forall_mem_singleton.mp hbases
      rw [run_paramName_none hlookup]
      exact (h.bindValue hbase p.value).congr rfl rfl rfl
  | name v =>
    intro context
    refine ⟨_, _, result_record_name v context, fun log h hbases => ?_⟩
    cases hname : v.name with
    | some name =>
      rw [run_variableName_fixed hname]
      simpa using h
    | none =>
      rw [hname] at hbases
      cases hlookup : context.variableNames.lookup v with
      | some name =>
        rw [run_variableName_some hname hlookup]
        simpa using h
      | none =>
        rw [hlookup] at hbases
        have hbase := List.forall_mem_singleton.mp hbases
        rw [run_variableName_none hname hlookup]
        exact (h.allocate hbase).congr rfl rfl rfl
  | declare v =>
    intro context
    refine ⟨[], _, rfl, fun log h _ => ?_⟩
    rw [List.append_nil]
    exact h.congr rfl rfl rfl
  | retain vs =>
    intro context
    refine ⟨[], _, rfl, fun log h _ => ?_⟩
    rw [List.append_nil]
    exact h.congr rfl rfl rfl
  | child base imports body =>
    intro context
    -- The name of a subquery is allocated before the scope is opened, so it comes first.
    obtain ⟨inner, after, hbody, hafter⟩ := keepsAccount_recordAll body
      (((Context.allocate base).run context).2.enter
        ⟨Names.stemBelow ((Context.allocate base).run context).1, imports, false⟩)
    refine ⟨note context base ((Context.allocate base).run context).1 :: inner, after.leave, ?_,
      fun log h hbases => ?_⟩
    · rw [record, Render.result_bind_ok (Render.result_get _)]
      refine Render.result_inChild ?_
      rw [Render.result_bind_ok (Render.result_get _), Render.result_bind_ok hbody]
      exact congrArg (fun name => (Except.ok (note context base name :: inner), after))
        (nameAbove_stemBelow _)
    · rw [List.forall_mem_cons] at hbases
      rw [List.append_cons]
      exact (hafter _ ((h.allocate hbases.1).enter (Names.endsInDigit_stemBelow _)) hbases.2).leave
  | nested body =>
    intro context
    obtain ⟨inner, after, hbody, hafter⟩ := keepsAccount_recordAll body
      (context.enter ⟨context.scope.stem, [], true⟩)
    refine ⟨inner, after.leave, Render.result_inNested hbody, fun log h hbases => ?_⟩
    exact (hafter log (h.enter h.stem) hbases).leave
termination_by structural operation

/-- Operations in a row keep the account. -/
theorem keepsAccount_recordAll (operations : List Operation) :
    KeepsAccount (recordAll operations) := by
  cases operations with
  | nil =>
    intro context
    refine ⟨[], context, rfl, fun log h _ => ?_⟩
    rwa [List.append_nil]
  | cons operation rest =>
    intro context
    obtain ⟨first, middle, hfirst, hmiddle⟩ := keepsAccount_record operation context
    obtain ⟨others, after, hothers, hafter⟩ := keepsAccount_recordAll rest middle
    refine ⟨first ++ others, after, ?_, fun log h hbases => ?_⟩
    · rw [recordAll, Render.result_bind_ok hfirst, Render.result_bind_ok hothers]
      rfl
    · rw [List.forall_mem_append] at hbases
      rw [← List.append_assoc]
      exact hafter _ (hmiddle log h hbases.1) hbases.2
termination_by structural operations
end

/-- Whatever is asked of a fresh context, in whatever scopes: if no base ends in a digit, every name
that is allocated is the stem of its scope, its base, and the number of names that were allocated
before, in any scope, for a stem and a base that make the same text. So no number is skipped. The
log lists all the names that were issued. -/
theorem allocations_numbered_densely (options : RenderOptions) (operations : List Operation) :
    ∃ log after, (recordAll operations).result (.initial options) = (.ok log, after) ∧
      ((∀ allocation ∈ log, Settings.endsInDigit allocation.base = false) →
        (∀ earlier allocation later, log = earlier ++ allocation :: later →
          allocation.name = allocation.stem ++ allocation.base ++
            toString (earlier.countP fun other =>
              other.stem ++ other.base = allocation.stem ++ allocation.base)) ∧
        (∀ word, after.names.counter word =
          log.countP fun other => other.stem ++ other.base = word) ∧
        after.names.issued = (log.map Allocation.name).reverse) := by
  obtain ⟨log, after, hrun, hafter⟩ := keepsAccount_recordAll operations (.initial options)
  refine ⟨log, after, hrun, fun hbases => ?_⟩
  have h := hafter [] (.initial options) hbases
  exact ⟨h.dense, h.counter, h.issued⟩

/-- A base that imitates the stem of a subquery, before the subquery and after it. -/
def imitation : List Operation :=
  [.allocate "this0_this", .child "this" [] [.allocate "this", .nested [.bind .null]],
    .allocate "this0_this"]

/-- The names of the base and those in the subquery share one counter, so that no number is skipped
or used twice. -/
theorem imitation_numbered_densely : ∃ after, (recordAll imitation).result (.initial {}) =
      (.ok [⟨"", "this0_this", "this0_this0"⟩, ⟨"", "this", "this0"⟩,
        ⟨"this0_", "this", "this0_this1"⟩, ⟨"this0_", "param", "this0_param0"⟩,
        ⟨"", "this0_this", "this0_this2"⟩], after) ∧
    after.names.counter "this0_this" = 3 := by
  have hlog : ((recordAll imitation).result (.initial {})).1 =
      .ok [⟨"", "this0_this", "this0_this0"⟩, ⟨"", "this", "this0"⟩,
        ⟨"this0_", "this", "this0_this1"⟩, ⟨"this0_", "param", "this0_param0"⟩,
        ⟨"", "this0_this", "this0_this2"⟩] := by decide +kernel
  obtain ⟨log, after, hrun, h⟩ := allocations_numbered_densely {} imitation
  rw [hrun] at hlog
  obtain rfl := Except.ok.inj hlog
  obtain ⟨-, hcounter, -⟩ := h (by decide)
  exact ⟨after, hrun, hcounter "this0_this"⟩

end Operation

end GraphRead
