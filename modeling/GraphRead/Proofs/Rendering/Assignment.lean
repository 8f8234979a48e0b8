import GraphRead.Proofs.Rendering.Handles
import GraphRead.Proofs.Rendering.Refinement
import GraphRead.Proofs.Rendering.Supply

/-!
# One assignment of names

A run of events gives a name to every handle that it meets for the first time.
The names are all different, and the parameter table grows by one row for every
new parameter and for every page. Together with the refinement of printing by
rendering, a query that is built is the print of its statement under one
assignment of names, and its table lists what the text refers to.
-/

namespace GraphRead

open Event Context

/-- Whether the name of a handle is chosen while rendering. -/
def Handle.isGenerated : Handle → Bool
  | .var v => v.name.isNone
  | .param _ => true
  | .page _ _ => true

/-- The row of a handle in the parameter table. Variables have none. -/
def Naming.row? (naming : Naming) : Handle → Option (String × Json)
  | .var _ => none
  | .param p => some (naming.name (.param p), p.value)
  | .page number count => some (naming.name (.page number count), .ofNat count.toNat)

/-- Whether a handle has still to be named. -/
def Context.isNew (context : Context) : Handle → Bool
  | .var v => v.name.isNone && (context.variableNames.lookup v).isNone
  | .param p => (context.paramNames.lookup p).isNone
  | .page _ _ => true

namespace Event

/-- The handles that events name in a context, in the order in which they are met. -/
def newHandles (context : Context) (first : Nat) (events : List Event) : List Handle :=
  ((handles first events).filter context.isNew).eraseDups

/-- The variable or parameter that an event asks for. -/
def asked : Event → List Handle
  | .name v => [.var v]
  | .param p => [.param p]
  | _ => []

/-- After a variable has been asked for, it is no longer new. -/
theorem isNew_variableName (v : Variable) (context : Context) (handle : Handle) :
    ((variableName v).run context).2.isNew handle =
      (context.isNew handle && decide (handle ≠ .var v)) := by
  have hknown (hv : context.isNew (.var v) = false) :
      context.isNew handle = (context.isNew handle && decide (handle ≠ .var v)) := by
    by_cases heq : handle = .var v <;> simp [heq, hv]
  cases hname : v.name with
  | some name =>
    rw [run_variableName_fixed hname]
    exact hknown (by simp [isNew, hname])
  | none =>
    cases hlookup : context.variableNames.lookup v with
    | some name =>
      rw [run_variableName_some hname hlookup]
      exact hknown (by simp [isNew, hlookup])
    | none =>
      rw [run_variableName_none hname hlookup]
      cases handle with
      | var w =>
        by_cases heq : w = v
        · simp [isNew, heq]
        · simp [isNew, heq, List.lookup_cons, beq_eq_false_iff_ne.mpr heq]
      | param p => simp [isNew, run_allocate]
      | page number count => simp [isNew]

/-- After a parameter has been asked for, it is no longer new. -/
theorem isNew_paramName (p : Param) (context : Context) (handle : Handle) :
    ((paramName p).run context).2.isNew handle =
      (context.isNew handle && decide (handle ≠ .param p)) := by
  cases hlookup : context.paramNames.lookup p with
  | some name =>
    rw [run_paramName_some hlookup]
    by_cases heq : handle = .param p <;> simp [heq, isNew, hlookup]
  | none =>
    rw [run_paramName_none hlookup]
    cases handle with
    | var w => simp [isNew, run_bindValue, run_allocate]
    | param q =>
      by_cases heq : q = p
      · simp [isNew, heq]
      · simp [isNew, heq, List.lookup_cons, beq_eq_false_iff_ne.mpr heq]
    | page number count => simp [isNew]

/-- After an event, what it asked for is no longer new, and everything else is as before. -/
theorem isNew_run {event : Event} {context after : Context} {names : List String}
    (h : event.run context = .ok (names, after)) (handle : Handle) :
    after.isNew handle = (context.isNew handle && decide (handle ∉ event.asked)) := by
  cases steps_of_run h with
  | name v =>
    rw [isNew_variableName]
    simp [asked]
  | param p =>
    rw [isNew_paramName]
    simp [asked]
  | require _ _ | page _ | declare _ | retain _ | openChild _ _ | openNested | close =>
    cases handle <;>
      simp [isNew, asked, run_bindValue, run_allocate, run_declare, run_retain, enter]

/-- A handle in front of others is kept, and its repetitions are dropped. -/
theorem eraseDups_singleton_append (handle : Handle) (others : List Handle) :
    ([handle] ++ others).eraseDups =
      [handle] ++ (others.filter fun other => decide (other ≠ handle)).eraseDups := by
  rw [List.singleton_append, List.eraseDups_cons, List.singleton_append]
  congr 3
  funext other
  by_cases heq : other = handle <;> simp [heq]

/-- A handle that is asked for is named in front of the others if it is new. -/
theorem eraseDups_asked (context : Context) (handle : Handle) (others : List Handle) :
    ([handle].filter context.isNew ++ others.filter context.isNew).eraseDups =
      [handle].filter context.isNew ++ ((others.filter context.isNew).filter
        fun other => decide (other ∉ [handle])).eraseDups := by
  simp only [List.mem_singleton]
  cases hnew : context.isNew handle with
  | true =>
    rw [List.filter_cons_of_pos hnew, List.filter_nil]
    exact eraseDups_singleton_append handle _
  | false =>
    rw [List.filter_cons_of_neg (by simp [hnew]), List.filter_nil]
    have hself : (others.filter context.isNew).filter (fun other => decide (other ≠ handle)) =
        others.filter context.isNew := by
      refine List.filter_eq_self.mpr fun other hmem => decide_eq_true ?_
      rintro rfl
      simp [hnew] at hmem
    exact congrArg List.eraseDups hself.symm

/-- The handles that a list of events names are those that its first event names, followed by those
that the rest names afterwards. -/
theorem newHandles_cons {event : Event} {context after : Context} {names : List String}
    (h : event.run context = .ok (names, after)) (first : Nat) (rest : List Event) :
    newHandles context first (event :: rest) =
      (handles first [event]).filter context.isNew ++
        newHandles after (first + pages [event]) rest := by
  have hafter : (handles (first + pages [event]) rest).filter after.isNew =
      ((handles (first + pages [event]) rest).filter context.isNew).filter
        fun handle => decide (handle ∉ event.asked) := by
    rw [List.filter_filter]
    refine List.filter_congr fun handle _ => ?_
    rw [isNew_run h, Bool.and_comm]
  unfold newHandles
  rw [← List.singleton_append, handles_append, List.filter_append, hafter]
  cases event with
  | name v => exact eraseDups_asked context (.var v) _
  | param p => exact eraseDups_asked context (.param p) _
  | page count =>
    have hother : ∀ handle ∈ (handles (first + 1) rest).filter context.isNew,
        handle ≠ .page first count := by
      rintro handle hmem rfl
      have := le_of_page_mem_handles (List.mem_filter.mp hmem).1
      omega
    have hself : ((handles (first + 1) rest).filter context.isNew).filter
        (fun handle => decide (handle ≠ .page first count)) =
          (handles (first + 1) rest).filter context.isNew :=
      List.filter_eq_self.mpr fun handle hmem => decide_eq_true (hother handle hmem)
    have hkept := eraseDups_singleton_append (.page first count)
      ((handles (first + 1) rest).filter context.isNew)
    rw [hself] at hkept
    have hall : (fun handle => decide (handle ∉ (Event.page count).asked)) = fun _ => true := by
      simp [asked]
    rw [hall, List.filter_true]
    exact hkept
  | _ => simp [asked, handles]

end Event

namespace Context

/-- Between two contexts, the given handles have been named: they have their rows in the table and
names that differ from each other and from those issued before. -/
structure Gains (naming : Naming) (before after : Context) (new : List Handle) : Prop where
  params : after.params = before.params ++ new.filterMap naming.row?
  issued : before.names.issued ⊆ after.names.issued
  distinct : (new.map naming.name).Nodup
  fresh : ∀ handle ∈ new, naming.name handle ∉ before.names.issued
  recorded : ∀ handle ∈ new, naming.name handle ∈ after.names.issued

namespace Gains

variable {naming : Naming} {before middle after : Context}

/-- Nothing is gained if the table stays as it is. -/
theorem nil (hparams : after.params = before.params)
    (hissued : before.names.issued ⊆ after.names.issued) : Gains naming before after [] := by
  refine ⟨?_, hissued, by simp, by simp, by simp⟩
  simp [hparams]

/-- One handle gets a name that was not issued before. -/
theorem singleton {handle : Handle}
    (hparams : after.params = before.params ++ (naming.row? handle).toList)
    (hissued : after.names.issued = naming.name handle :: before.names.issued)
    (hfresh : naming.name handle ∉ before.names.issued) :
    Gains naming before after [handle] where
  params := by
    rw [hparams]
    cases hrow : naming.row? handle <;> simp [hrow]
  issued := by simp [hissued]
  distinct := by simp
  fresh := by simpa using hfresh
  recorded := by simp [hissued]

/-- What is gained in two steps is gained together, since the second avoids all names of the
first. -/
theorem trans {first second : List Handle} (h : Gains naming before middle first)
    (h' : Gains naming middle after second) : Gains naming before after (first ++ second) where
  params := by rw [h'.params, h.params, List.filterMap_append, List.append_assoc]
  issued := fun name hname => h'.issued (h.issued hname)
  distinct := by
    rw [List.map_append]
    refine List.Nodup.append h.distinct h'.distinct ?_
    intro name hfirst hsecond
    obtain ⟨handle, hmem, rfl⟩ := List.mem_map.mp hfirst
    obtain ⟨other, hother, hname⟩ := List.mem_map.mp hsecond
    exact h'.fresh other hother (hname ▸ h.recorded handle hmem)
  fresh := by
    intro handle hmem hname
    rcases List.mem_append.mp hmem with hmem | hmem
    · exact h.fresh handle hmem hname
    · exact h'.fresh handle hmem (h.issued hname)
  recorded := by
    intro handle hmem
    rcases List.mem_append.mp hmem with hmem | hmem
    · exact h'.issued (h.recorded handle hmem)
    · exact h'.recorded handle hmem

end Gains

end Context

namespace Event

variable {naming : Naming}

/-- A handle that is not new changes nothing. -/
theorem gains_of_known {context : Context} {handle : Handle} (h : context.isNew handle = false) :
    context.Gains naming context ([handle].filter context.isNew) := by
  rw [List.filter_cons_of_neg (by simp [h]), List.filter_nil]
  exact .nil rfl (List.Subset.refl _)

/-- Naming a variable gains it, if it is new. -/
theorem gains_variableName (v : Variable) (context : Context)
    (hagrees : naming.Agrees ((variableName v).run context).2) :
    Gains naming context ((variableName v).run context).2 ([.var v].filter context.isNew) := by
  cases hname : v.name with
  | some name =>
    rw [run_variableName_fixed hname]
    exact gains_of_known (by simp [isNew, hname])
  | none =>
    cases hlookup : context.variableNames.lookup v with
    | some name =>
      rw [run_variableName_some hname hlookup]
      exact gains_of_known (by simp [isNew, hlookup])
    | none =>
      rw [run_variableName_none hname hlookup] at hagrees ⊢
      have hgiven : naming.name (.var v) =
          ((allocate (baseFor context.options v)).run context).1 := by
        simpa [Naming.name, hname] using hagrees.var List.lookup_cons_self
      rw [List.filter_cons_of_pos (by simp [isNew, hname, hlookup]), List.filter_nil]
      refine .singleton ?_ ?_ ?_
      · simp [Naming.row?, run_allocate]
      · simp [hgiven, run_allocate]
      · simp [hgiven, run_allocate, Names.allocate_fresh]

/-- Binding a value names its handle and adds its row. -/
theorem gains_bindValue (value : Json) (context : Context) {handle : Handle}
    (hrow : naming.row? handle = some (naming.name handle, value))
    (hname : naming.name handle = ((bindValue value).run context).1) :
    Gains naming context ((bindValue value).run context).2 [handle] := by
  refine .singleton ?_ ?_ ?_
  · simp [hrow, hname, run_bindValue, run_allocate]
  · simp [hname, run_bindValue, run_allocate]
  · simp [hname, run_bindValue, run_allocate, Names.allocate_fresh]

/-- Naming a parameter gains it with its row, if it is new. -/
theorem gains_paramName (p : Param) (context : Context)
    (hagrees : naming.Agrees ((paramName p).run context).2) :
    Gains naming context ((paramName p).run context).2 ([.param p].filter context.isNew) := by
  cases hlookup : context.paramNames.lookup p with
  | some name =>
    rw [run_paramName_some hlookup]
    exact gains_of_known (by simp [isNew, hlookup])
  | none =>
    rw [run_paramName_none hlookup] at hagrees ⊢
    rw [List.filter_cons_of_pos (by simp [isNew, hlookup]), List.filter_nil]
    have hbound : Gains naming context ((bindValue p.value).run context).2 [.param p] :=
      gains_bindValue p.value context rfl (hagrees.param List.lookup_cons_self)
    exact ⟨hbound.params, hbound.issued, hbound.distinct, hbound.fresh, hbound.recorded⟩

/-- An event names what it asks for if that is new. -/
theorem gains_run {event : Event} {context after : Context} {names : List String}
    (h : event.run context = .ok (names, after)) {first : Nat} (hagrees : naming.Agrees after)
    (hpages : naming.AgreesFrom first names) :
    Gains naming context after ((handles first [event]).filter context.isNew) := by
  cases steps_of_run h with
  | name v => exact gains_variableName v context hagrees
  | param p => exact gains_paramName p context hagrees
  | page count =>
    exact gains_bindValue (.ofNat count.toNat) context rfl (hpages 0 _ rfl)
  | require _ _ | declare _ | retain _ | openChild _ _ | openNested | close =>
    refine .nil ?_ ?_ <;> simp [run_allocate, run_declare, run_retain, enter]

/-- A run names the handles that are new, in the order in which it meets them. -/
theorem gains_runAll {events : List Event} {context after : Context} {names : List String}
    (h : runAll events context = .ok (names, after)) {first : Nat} (hagrees : naming.Agrees after)
    (hpages : naming.AgreesFrom first names) :
    Gains naming context after (newHandles context first events) := by
  induction events generalizing context names first with
  | nil =>
    simp only [runAll, Except.ok.injEq, Prod.mk.injEq] at h
    exact h.2 ▸ .nil rfl (List.Subset.refl _)
  | cons event rest ih =>
    obtain ⟨before, others, middle, hevent, hrest, rfl⟩ := RunResult.andThen_eq_ok h
    rw [newHandles_cons hevent]
    -- Names are never changed, so a naming that agrees in the end agrees after every event.
    refine (gains_run hevent (hagrees.of_extends (runAll_extends hrest)) hpages.left).trans ?_
    refine ih hrest ?_
    rw [← run_length hevent]
    exact hpages.right

end Event

/-- Keeping the first occurrences commutes with leaving members out. -/
theorem eraseDups_filter (keep : Handle → Bool) (list : List Handle) :
    (list.filter keep).eraseDups = list.eraseDups.filter keep := by
  induction hlength : list.length using Nat.strongRecOn generalizing list with
  | ind length ih =>
    cases list with
    | nil => rfl
    | cons head rest =>
      have hrest : ((rest.filter fun other => !other == head).filter keep).eraseDups =
          (rest.filter fun other => !other == head).eraseDups.filter keep := by
        refine ih _ ?_ _ rfl
        rw [← hlength]
        exact Nat.lt_succ_of_le (List.length_filter_le _ rest)
      rw [List.eraseDups_cons]
      cases hkeep : keep head with
      | true =>
        rw [List.filter_cons_of_pos hkeep, List.eraseDups_cons, List.filter_cons_of_pos hkeep,
          ← hrest, List.filter_filter, List.filter_filter]
        simp only [Bool.and_comm]
      | false =>
        rw [List.filter_cons_of_neg (by simp [hkeep]), List.filter_cons_of_neg (by simp [hkeep]),
          ← hrest, List.filter_filter]
        congr 1
        refine List.filter_congr fun other _ => ?_
        by_cases heq : other = head <;> simp [heq, hkeep]

/-- At first every handle whose name is not fixed is new. -/
theorem Context.isNew_initial (options : RenderOptions) :
    (initial options).isNew = Handle.isGenerated := by
  funext handle
  cases handle <;> simp [isNew, initial, Handle.isGenerated]

/-- A run from the start chooses different names for different handles. -/
theorem Event.eq_of_generated_name_eq {events : List Event} {options : RenderOptions}
    {naming : Naming} {names : List String} {after : Context}
    (hrun : runAll events (.initial options) = .ok (names, after)) (hagrees : naming.Agrees after)
    (hpages : naming.AgreesFrom 0 names) {handle other : Handle}
    (hhandle : handle ∈ handles 0 events) (hother : other ∈ handles 0 events)
    (hgenerated : handle.isGenerated = true) (hgenerated' : other.isGenerated = true)
    (heq : naming.name handle = naming.name other) : handle = other := by
  have hgains := gains_runAll hrun hagrees hpages
  rw [newHandles, isNew_initial] at hgains
  refine List.inj_on_of_nodup_map hgains.distinct ?_ ?_ heq
  · simpa [List.mem_eraseDups] using ⟨hhandle, hgenerated⟩
  · simpa [List.mem_eraseDups] using ⟨hother, hgenerated'⟩

/-- A query is the print of a statement under an assignment of names. -/
structure Query.IsPrintOf (query : Query) (statement : Statement) (options : RenderOptions)
    (naming : Naming) : Prop where
  text : query.text = (statement.print options.indentWidth naming 0).text
  /-- Different handles in the text have different generated names. -/
  injective : ∀ handle ∈ (statement.print options.indentWidth naming 0).handles,
    ∀ other ∈ (statement.print options.indentWidth naming 0).handles,
    handle.isGenerated → other.isGenerated → naming.name handle = naming.name other →
      handle = other
  /-- The table has one row for every parameter and every page in the text, with its own value, in
  the order of their first printing. -/
  params : query.params =
    (statement.print options.indentWidth naming 0).handles.eraseDups.filterMap naming.row?

namespace Statement

/-- A query that is built is the print of its statement under one assignment of names. -/
theorem build_isPrintOf {statement : Statement} {options : RenderOptions} {query : Query}
    (h : statement.build options = .ok query) :
    ∃ naming, query.IsPrintOf statement options naming := by
  obtain ⟨pageNames, after, hrun⟩ := runAll_of_build h
  obtain ⟨text, hbuild, htext⟩ := build_ok hrun
  obtain rfl : query = ⟨text, after.params⟩ := Except.ok.inj (h.symm.trans hbuild)
  have hagrees := after.naming_agrees pageNames
  have hpages := after.naming_agreesFrom pageNames
  have hgains := gains_runAll hrun hagrees hpages
  rw [newHandles, Context.isNew_initial] at hgains
  refine ⟨after.naming pageNames, (htext _ hagrees hpages).symm, ?_, ?_⟩
  · rw [handles_print]
    intro handle hhandle other hother hgenerated hgenerated' hname
    refine List.inj_on_of_nodup_map hgains.distinct ?_ ?_ hname
    · simpa [List.mem_eraseDups] using ⟨hhandle, hgenerated⟩
    · simpa [List.mem_eraseDups] using ⟨hother, hgenerated'⟩
  · rw [handles_print, hgains.params, eraseDups_filter, List.filterMap_filter]
    show [] ++ _ = _
    rw [List.nil_append]
    refine List.filterMap_congr fun handle _ => ?_
    cases handle <;> simp [Handle.isGenerated, Naming.row?]

/-- A statement that refers to one parameter in two scopes, and that has two pages. -/
def sharedTitle : Statement :=
  let movie := Variable.node 1 ["Movie"]
  let person := Variable.node 2 ["Person"]
  let title : Param := ⟨3, .string "Heat"⟩
  .matching false ⟨.of movie, []⟩
    [.filtering
      [.binary .equal (.property movie ["title"]) (.param title),
        .exist (.matching false (.related movie (.anonymous "ACTED_IN" .incoming) person)
          [.filtering [.binary .equal (.property person ["name"]) (.param title)],
            .limiting 3])],
      .passingAll false [.skipping 5],
      .returning false [.plain (.var movie)]]

/-- The query of the statement: the parameter is bound once, and every page on its own. -/
def sharedTitleQuery : Query where
  text := "MATCH (this0:Movie)\nWHERE (this0.title = $param0 AND EXISTS \x7b\n"
    ++ "    MATCH (this0)<-[:ACTED_IN]-(this1:Person)\n    WHERE this1.name = $param0\n"
    ++ "    LIMIT $param1\n\x7d)\nWITH *\nSKIP $param2\nRETURN this0"
  params := [("param0", .string "Heat"), ("param1", .ofNat 3), ("param2", .ofNat 5)]

/-- The query of the statement is its print under some assignment of names. -/
theorem sharedTitle_isPrintOf : sharedTitle.build {} = .ok sharedTitleQuery ∧
    ∃ naming, sharedTitleQuery.IsPrintOf sharedTitle {} naming := by
  have hbuild : sharedTitle.build {} = .ok sharedTitleQuery := by decide +kernel
  exact ⟨hbuild, build_isPrintOf hbuild⟩

end Statement

end GraphRead
