import GraphRead.Proofs.Rendering.Print
import GraphRead.Proofs.Rendering.Step
import GraphRead.Proofs.Rendering.Supply
import Mathlib.Data.List.Pairwise

/-!
# Names are never repeated

A render context can be asked for names in any order and in any nesting of
scopes, whatever words the names are made from. This file runs lists of such
operations and logs every name that is handed out together with what it was
handed out for. Two entries of the log bear the same name only if both were
asked for by the same variable or by the same parameter, and the parameter table
lists what was bound.
-/

namespace GraphRead

open Context

/-- What can be asked of a render context. The body of a scope is a list of further operations. -/
inductive Operation where
  | allocate (base : String)
  | bind (value : Json)
  | param (p : Param)
  | name (v : Variable)
  | declare (v : Variable)
  | retain (vs : List Variable)
  | child (base : String) (imports : List Variable) (body : List Operation)
  | nested (body : List Operation)

/-- A name that was handed out. -/
inductive Grant where
  /-- A name that was only allocated. -/
  | plain (name : String)
  /-- The name of a value that was bound. -/
  | bound (name : String) (value : Json)
  /-- The name from which the stem of a scope is made. -/
  | scope (name : String)
  /-- The name of a variable or of a parameter, at its first or at a later call. -/
  | owned (handle : Handle) (name : String)
deriving DecidableEq

namespace Grant

/-- The name that was handed out. -/
def name : Grant → String
  | plain name | bound name _ | scope name | owned _ name => name

/-- The variable or the parameter that keeps the name. -/
def owner? : Grant → Option Handle
  | owned handle _ => some handle
  | _ => none

/-- The row of the parameter table that belongs to the name. -/
def row? : Grant → Option (String × Json)
  | bound name value => some (name, value)
  | owned (.param p) name => some (name, p.value)
  | _ => none

/-- Two entries bear the same name exactly if one variable or one parameter owns both. -/
def Consistent (first second : Grant) : Prop :=
  first.name = second.name ↔ first.owner?.isSome ∧ first.owner? = second.owner?

instance : Std.Symm Consistent where
  symm first second h := by
    unfold Consistent at h ⊢
    rw [eq_comm, h]
    constructor <;> rintro ⟨hsome, heq⟩ <;> exact ⟨heq ▸ hsome, heq.symm⟩

/-- A row of the parameter table bears the name that was handed out. -/
theorem name_of_row? {grant : Grant} {row : String × Json} (h : grant.row? = some row) :
    row.1 = grant.name := by
  cases grant with
  | plain | scope => simp [row?] at h
  | bound name value => simp [← Option.some.inj h, Grant.name]
  | owned handle name =>
    cases handle <;> simp only [row?, Option.some.injEq, reduceCtorEq] at h
    simp [← h, Grant.name]

end Grant

namespace Operation

/-- The name from which a stem was made. -/
def nameAbove (stem : String) : String := String.ofList stem.toList.dropLast

/-- The name of a scope can be read off its stem. -/
theorem nameAbove_stemBelow (name : String) : nameAbove (Names.stemBelow name) = name := by
  simp [nameAbove, Names.stemBelow]

mutual
/-- Runs an operation and logs the names that it hands out. A fixed name is not handed out. The
name of a scope is read off its stem. -/
def run : Operation → Render (List Grant)
  | .allocate base => return [.plain (← Context.allocate base)]
  | .bind value => return [.bound (← bindValue value) value]
  | .param p => return [.owned (.param p) (← paramName p)]
  | .name v => do
    let name ← variableName v
    return if v.name.isSome then [] else [.owned (.var v) name]
  | .declare v => do
    Context.declare v
    return []
  | .retain vs => do
    Context.retain vs
    return []
  | .child base imports body =>
    inChild base imports do
      let stem := (← get).scope.stem
      let grants ← runAll body
      return .scope (nameAbove stem) :: grants
  | .nested body => inNested (runAll body)
termination_by structural operation => operation

/-- Runs operations one after another. -/
def runAll : List Operation → Render (List Grant)
  | [] => return []
  | operation :: rest => do
    let first ← operation.run
    let others ← runAll rest
    return first ++ others
termination_by structural operations => operations
end

end Operation

/-- The name that a context remembers for a variable or for a parameter. -/
def Context.nameOf? (context : Context) : Handle → Option String
  | .var v => context.variableNames.lookup v
  | .param p => context.paramNames.lookup p
  | .page _ _ => none

/-- A log accounts for the names in a context: they are the issued ones, none of them was issued
twice, and the context remembers those that have an owner. -/
structure Context.Logged (context : Context) (grants : List Grant) : Prop where
  issued : ∀ name, name ∈ context.names.issued ↔ ∃ grant ∈ grants, grant.name = name
  distinct : context.names.issued.Nodup
  owned : ∀ handle name,
    Grant.owned handle name ∈ grants ↔ context.nameOf? handle = some name
  consistent : grants.Pairwise Grant.Consistent
  table : context.params = (grants.filterMap Grant.row?).eraseDups
  keys : (context.params.map Prod.fst).Nodup

/-- A member in front of its repetition is the one that is kept. -/
theorem eraseDups_concat_of_mem {list : List (String × Json)} {row : String × Json}
    (h : row ∈ list) : (list ++ [row]).eraseDups = list.eraseDups := by
  rw [List.eraseDups_append, List.removeAll, List.filter_cons_of_neg (by simpa using h)]
  simp

/-- A new row is not dropped as a duplicate. -/
theorem eraseDups_concat_of_not_mem {list : List (String × Json)} {row : String × Json}
    (h : row ∉ list) : (list ++ [row]).eraseDups = list.eraseDups ++ [row] := by
  rw [List.eraseDups_append, List.removeAll, List.filter_cons_of_pos (by simpa using h)]
  simp [List.eraseDups_cons]

namespace Context.Logged

variable {context after : Context} {grants : List Grant} {grant : Grant}

/-- Nothing has been handed out at first. -/
theorem initial (options : RenderOptions) : (initial options).Logged [] where
  issued := by simp [Context.initial, Names.empty]
  distinct := .nil
  owned := by
    intro handle name
    cases handle <;> simp [nameOf?, Context.initial]
  consistent := .nil
  table := rfl
  keys := .nil

/-- Scopes do not matter. -/
theorem congr (h : context.Logged grants) (hnames : after.names = context.names)
    (hvar : after.variableNames = context.variableNames)
    (hparam : after.paramNames = context.paramNames) (hparams : after.params = context.params) :
    after.Logged grants where
  issued := by rw [hnames]; exact h.issued
  distinct := by rw [hnames]; exact h.distinct
  owned := by
    intro handle name
    rw [h.owned handle name]
    cases handle <;> simp [nameOf?, hvar, hparam]
  consistent := h.consistent
  table := by rw [hparams]; exact h.table
  keys := by rw [hparams]; exact h.keys

/-- The names in the table have been issued. -/
theorem issued_of_key (h : context.Logged grants) {row : String × Json}
    (hrow : row ∈ grants.filterMap Grant.row?) : row.1 ∈ context.names.issued := by
  obtain ⟨grant, hgrant, heq⟩ := List.mem_filterMap.mp hrow
  exact (h.issued row.1).mpr ⟨grant, hgrant, (Grant.name_of_row? heq).symm⟩

/-- A new name is logged. Its owner, if it has one, did not have a name before. -/
theorem extend (h : context.Logged grants) (hfresh : grant.name ∉ context.names.issued)
    (hissued : after.names.issued = grant.name :: context.names.issued)
    (hnew : ∀ handle, grant.owner? = some handle → context.nameOf? handle = none)
    (hnames : ∀ handle, after.nameOf? handle =
      if grant.owner? = some handle then some grant.name else context.nameOf? handle)
    (hparams : after.params = context.params ++ grant.row?.toList) :
    after.Logged (grants ++ [grant]) where
  issued := by
    intro name
    rw [hissued, List.mem_cons, h.issued]
    simp only [List.mem_append, List.mem_singleton, or_and_right, exists_or, exists_eq_left]
    rw [or_comm, eq_comm]
  distinct := by
    rw [hissued]
    exact List.nodup_cons.mpr ⟨hfresh, h.distinct⟩
  owned := by
    intro handle name
    rw [List.mem_append, List.mem_singleton, h.owned, hnames]
    by_cases howner : grant.owner? = some handle
    · rw [if_pos howner, hnew handle howner]
      cases grant with
      | owned other given =>
        obtain rfl : other = handle := Option.some.inj howner
        simp [Grant.name, eq_comm]
      | _ => simp [Grant.owner?] at howner
    · have hother : Grant.owned handle name ≠ grant := by
        rintro rfl
        exact howner rfl
      simp [if_neg howner, hother]
  consistent := by
    refine List.pairwise_append.mpr ⟨h.consistent, List.pairwise_singleton .., ?_⟩
    intro old hold new hnew'
    obtain rfl := List.mem_singleton.mp hnew'
    constructor
    · intro hname
      exact absurd ((h.issued _).mpr ⟨old, hold, hname⟩) hfresh
    · rintro ⟨hsome, howner⟩
      obtain ⟨handle, hhandle⟩ := Option.isSome_iff_exists.mp hsome
      -- An owner that is in the log has a name, so it cannot be the owner of a new one.
      have hnone := hnew handle (howner ▸ hhandle)
      cases old with
      | owned other given =>
        obtain rfl : other = handle := Option.some.inj hhandle
        simp [(h.owned other given).mp hold] at hnone
      | _ => simp [Grant.owner?] at hhandle
  table := by
    rw [hparams, h.table, List.filterMap_append]
    cases hrow : grant.row? with
    | none => simp [hrow]
    | some row =>
      have hnot : row ∉ grants.filterMap Grant.row? := fun hmem =>
        hfresh (Grant.name_of_row? hrow ▸ h.issued_of_key hmem)
      rw [List.filterMap_cons_some hrow, List.filterMap_nil]
      exact (eraseDups_concat_of_not_mem hnot).symm
  keys := by
    rw [hparams, List.map_append]
    refine List.Nodup.append h.keys ?_ ?_
    · cases grant.row? <;> simp
    · intro name hold hrow
      obtain ⟨row, hmem, rfl⟩ := List.mem_map.mp hold
      obtain ⟨other, hother, hname⟩ := List.mem_map.mp hrow
      rw [h.table, List.mem_eraseDups] at hmem
      refine hfresh ?_
      rw [← Grant.name_of_row? (Option.mem_toList.mp hother), hname]
      exact h.issued_of_key hmem

/-- A name is handed out again to its owner. -/
theorem again {handle : Handle} {name : String} (h : context.Logged grants)
    (hknown : context.nameOf? handle = some name) :
    context.Logged (grants ++ [.owned handle name]) where
  issued := by
    intro other
    rw [h.issued]
    constructor
    · rintro ⟨grant, hgrant, hname⟩
      exact ⟨grant, List.mem_append_left _ hgrant, hname⟩
    · rintro ⟨grant, hgrant, hname⟩
      rcases List.mem_append.mp hgrant with hgrant | hgrant
      · exact ⟨grant, hgrant, hname⟩
      · exact ⟨_, (h.owned handle name).mpr hknown, List.mem_singleton.mp hgrant ▸ hname⟩
  distinct := h.distinct
  owned := by
    intro other given
    rw [List.mem_append, List.mem_singleton, h.owned, Grant.owned.injEq]
    constructor
    · rintro (hold | ⟨rfl, rfl⟩)
      · exact hold
      · exact hknown
    · exact .inl
  consistent := by
    have hlogged := (h.owned handle name).mpr hknown
    refine List.pairwise_append.mpr ⟨h.consistent, List.pairwise_singleton .., ?_⟩
    intro old hold new hnew
    obtain rfl := List.mem_singleton.mp hnew
    -- The name has been logged before. With any other entry it was compared then.
    by_cases heq : old = .owned handle name
    · subst heq
      simp [Grant.Consistent, Grant.owner?]
    · exact h.consistent.forall hold hlogged heq
  table := by
    rw [h.table, List.filterMap_append]
    cases hrow : (Grant.owned handle name).row? with
    | none => simp [hrow]
    | some row =>
      have hmem : row ∈ grants.filterMap Grant.row? :=
        List.mem_filterMap.mpr ⟨_, (h.owned handle name).mpr hknown, hrow⟩
      rw [List.filterMap_cons_some hrow, List.filterMap_nil]
      exact (eraseDups_concat_of_mem hmem).symm
  keys := h.keys

/-- Allocating a name issues it. What it is allocated for is logged with it. -/
theorem allocate (h : context.Logged grants) (base : String)
    (hgrant : grant.name = ((Context.allocate base).run context).1)
    (hnames : after.names = ((Context.allocate base).run context).2.names)
    (hnew : ∀ handle, grant.owner? = some handle → context.nameOf? handle = none)
    (hknown : ∀ handle, after.nameOf? handle =
      if grant.owner? = some handle then some grant.name else context.nameOf? handle)
    (hparams : after.params = context.params ++ grant.row?.toList) :
    after.Logged (grants ++ [grant]) := by
  refine h.extend ?_ ?_ hnew hknown hparams
  · rw [hgrant, run_allocate]
    exact Names.allocate_fresh context.names _
  · rw [hnames, hgrant, run_allocate]
    exact Names.allocate_issued context.names _

/-- A variable without a fixed name gets a name, and keeps it. -/
theorem variableName (h : context.Logged grants) {v : Variable} (hfree : v.name = none) :
    ((Context.variableName v).run context).2.Logged
      (grants ++ [.owned (.var v) ((Context.variableName v).run context).1]) := by
  cases hlookup : context.variableNames.lookup v with
  | some name =>
    rw [run_variableName_some hfree hlookup]
    exact h.again hlookup
  | none =>
    rw [run_variableName_none hfree hlookup]
    refine h.allocate (baseFor context.options v) rfl rfl ?_ ?_ ?_
    · rintro handle ⟨⟩
      exact hlookup
    · intro handle
      cases handle with
      | var w =>
        by_cases heq : w = v
        · simp [nameOf?, Grant.owner?, Grant.name, heq]
        · simp [nameOf?, Grant.owner?, List.lookup_cons, beq_eq_false_iff_ne.mpr heq,
            Ne.symm heq]
      | param p => simp [nameOf?, Grant.owner?, run_allocate]
      | page number count => simp [nameOf?, Grant.owner?]
    · simp [Grant.row?, run_allocate]

/-- A parameter gets a name and a row in the table, and keeps them. -/
theorem paramName (h : context.Logged grants) (p : Param) :
    ((Context.paramName p).run context).2.Logged
      (grants ++ [.owned (.param p) ((Context.paramName p).run context).1]) := by
  cases hlookup : context.paramNames.lookup p with
  | some name =>
    rw [run_paramName_some hlookup]
    exact h.again hlookup
  | none =>
    rw [run_paramName_none hlookup]
    refine h.allocate context.options.paramPrefix rfl rfl ?_ ?_ ?_
    · rintro handle ⟨⟩
      exact hlookup
    · intro handle
      cases handle with
      | var w => simp [nameOf?, Grant.owner?, run_bindValue, run_allocate]
      | param q =>
        by_cases heq : q = p
        · simp [nameOf?, Grant.owner?, Grant.name, heq]
        · simp [nameOf?, Grant.owner?, List.lookup_cons, beq_eq_false_iff_ne.mpr heq,
            Ne.symm heq]
      | page number count => simp [nameOf?, Grant.owner?]
    · simp [Grant.row?, run_bindValue]

end Context.Logged

/-- A name that no one owns is allocated. -/
theorem Context.Logged.allocateUnowned {context : Context} {grants : List Grant} {grant : Grant}
    (h : context.Logged grants) (base : String) (hunowned : grant.owner? = none)
    (hgrant : grant.name = ((Context.allocate base).run context).1) (hrow : grant.row? = none) :
    ((Context.allocate base).run context).2.Logged (grants ++ [grant]) := by
  refine h.allocate base hgrant rfl (by simp [hunowned]) ?_ (by simp [hrow, run_allocate])
  intro handle
  cases handle <;> simp [hunowned, nameOf?, run_allocate]

namespace Render

variable {α : Type}

/-- A subquery is rendered in a scope of its own, which is closed again. -/
theorem result_inChild {base : String} {imports : List Variable} {body : Render α}
    {context after : Context} {outcome : Except BuildError α}
    (h : body.result (((allocate base).run context).2.enter
      ⟨Names.stemBelow ((allocate base).run context).1, imports, false⟩) = (outcome, after)) :
    (inChild base imports body).result context = (outcome, after.leave) :=
  congrArg (fun result => (result.1, result.2.leave)) h

/-- The body of an existence test is rendered in a scope of its own, which is closed again. -/
theorem result_inNested {body : Render α} {context after : Context}
    {outcome : Except BuildError α}
    (h : body.result (context.enter ⟨context.scope.stem, [], true⟩) = (outcome, after)) :
    (inNested body).result context = (outcome, after.leave) :=
  congrArg (fun result => (result.1, result.2.leave)) h

end Render

namespace Operation

/-- Running keeps the log: it succeeds, and the names that it hands out are added. -/
def KeepsLog (m : Render (List Grant)) : Prop :=
  ∀ context before, Context.Logged context before →
    ∃ grants after, m.result context = (.ok grants, after) ∧ after.Logged (before ++ grants)

mutual
/-- An operation logs the names that it hands out. -/
theorem keepsLog_run (operation : Operation) : KeepsLog operation.run := by
  cases operation with
  | allocate base =>
    intro context before h
    exact ⟨_, _, rfl, h.allocateUnowned base rfl rfl rfl⟩
  | bind value =>
    intro context before h
    refine ⟨_, _, rfl, h.allocate context.options.paramPrefix rfl rfl (by simp [Grant.owner?]) ?_
      (by simp [Grant.row?])⟩
    intro handle
    cases handle <;> simp [nameOf?, Grant.owner?]
  | param p =>
    intro context before h
    exact ⟨_, _, rfl, h.paramName p⟩
  | name v =>
    intro context before h
    cases hname : v.name with
    | none =>
      refine ⟨_, _, ?_, h.variableName hname⟩
      rw [run, Render.result_bind_ok (Render.result_lift ..)]
      simp [hname]
    | some name =>
      refine ⟨[], context, ?_, by simpa using h⟩
      rw [run, Render.result_bind_ok (Render.result_lift ..), run_variableName_fixed hname]
      simp [hname]
  | declare v =>
    intro context before h
    refine ⟨[], _, rfl, ?_⟩
    rw [List.append_nil]
    exact h.congr rfl rfl rfl rfl
  | retain vs =>
    intro context before h
    refine ⟨[], _, rfl, ?_⟩
    rw [List.append_nil]
    exact h.congr rfl rfl rfl rfl
  | child base imports body =>
    intro context before h
    -- The name of the scope is logged before those that its body is given.
    have hopened : (((Context.allocate base).run context).2.enter
        ⟨Names.stemBelow ((Context.allocate base).run context).1, imports, false⟩).Logged
        (before ++ [.scope ((Context.allocate base).run context).1]) :=
      (h.allocateUnowned base rfl rfl rfl).congr rfl rfl rfl rfl
    obtain ⟨grants, after, hbody, hafter⟩ := keepsLog_runAll body _ _ hopened
    refine ⟨.scope ((Context.allocate base).run context).1 :: grants, after.leave,
      Render.result_inChild ?_, ?_⟩
    · rw [Render.result_bind_ok (Render.result_get _), Render.result_bind_ok hbody]
      exact congrArg (fun name => (Except.ok (Grant.scope name :: grants), after))
        (nameAbove_stemBelow _)
    · rw [List.append_cons]
      exact hafter.congr (by simp) (by simp) (by simp) (by simp)
  | nested body =>
    intro context before h
    obtain ⟨grants, after, hbody, hafter⟩ := keepsLog_runAll body
      (context.enter ⟨context.scope.stem, [], true⟩) before (h.congr rfl rfl rfl rfl)
    exact ⟨grants, after.leave, Render.result_inNested hbody,
      hafter.congr (by simp) (by simp) (by simp) (by simp)⟩
termination_by structural operation

/-- Operations in a row keep the log. -/
theorem keepsLog_runAll (operations : List Operation) : KeepsLog (runAll operations) := by
  cases operations with
  | nil =>
    intro context before h
    refine ⟨[], context, rfl, ?_⟩
    rwa [List.append_nil]
  | cons operation rest =>
    intro context before h
    obtain ⟨first, middle, hfirst, hmiddle⟩ := keepsLog_run operation context before h
    obtain ⟨others, after, hothers, hafter⟩ := keepsLog_runAll rest middle _ hmiddle
    refine ⟨first ++ others, after, ?_, by rwa [← List.append_assoc]⟩
    rw [runAll, Render.result_bind_ok hfirst, Render.result_bind_ok hothers]
    rfl
termination_by structural operations
end

/-- Whatever is asked of a fresh context, in whatever scopes and with whatever words for names, no
name is issued twice: two names that are handed out are the same exactly if the same variable or
the same parameter asked for both. The parameter table lists, under different names, the values
that were bound. -/
theorem names_never_repeat (options : RenderOptions) (operations : List Operation) :
    ∃ grants after, (runAll operations).result (.initial options) = (.ok grants, after) ∧
      grants.Pairwise (fun first second =>
        first.name = second.name ↔ first.owner?.isSome ∧ first.owner? = second.owner?) ∧
      after.names.issued.Nodup ∧
      (∀ name, name ∈ after.names.issued ↔ ∃ grant ∈ grants, grant.name = name) ∧
      (after.params.map Prod.fst).Nodup ∧
      after.params = (grants.filterMap Grant.row?).eraseDups := by
  obtain ⟨grants, after, hrun, h⟩ := keepsLog_runAll operations _ [] (.initial options)
  exact ⟨grants, after, hrun, h.consistent, h.distinct, h.issued, h.keys, h.table⟩

/-- The eleventh name made from `v` is not the first one made from `v1`. -/
example : ((runAll (.allocate "v1" :: List.replicate 11 (.allocate "v"))).result (.initial {})).1 =
    .ok
      (["v10", "v0", "v1", "v2", "v3", "v4", "v5", "v6", "v7", "v8", "v9", "v11"].map .plain) := by
  cbv

end Operation

end GraphRead
