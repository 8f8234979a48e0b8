import GraphRead.Proofs.Read.Containment

/-!
# Names of queries are kept apart

The root of a query has a fixed name, which is the prefix of variables, and all
other names are chosen while rendering. Names that are chosen end in a digit,
valid prefixes do not, and no name is issued twice. So for valid settings no two
things in a query share a name, even if the prefixes are equal or overlap.
-/

namespace GraphRead

open Event Context

namespace Event

/-- The supply of names is changed only by allocating from it. -/
theorem names_run {event : Event} {context after : Context} {names : List String}
    (h : event.run context = .ok (names, after)) :
    after.names = context.names ∨ ∃ stem, after.names = (context.names.allocate stem).2 := by
  cases steps_of_run h with
  | name v =>
    -- A name that is fixed or known already is not allocated.
    cases hname : v.name with
    | some name =>
      rw [run_variableName_fixed hname]
      exact .inl rfl
    | none =>
      cases hlookup : context.variableNames.lookup v with
      | some name =>
        rw [run_variableName_some hname hlookup]
        exact .inl rfl
      | none =>
        rw [run_variableName_none hname hlookup]
        exact .inr ⟨_, rfl⟩
  | param p =>
    cases hlookup : context.paramNames.lookup p with
    | some name =>
      rw [run_paramName_some hlookup]
      exact .inl rfl
    | none =>
      rw [run_paramName_none hlookup, run_bindValue]
      exact .inr ⟨_, rfl⟩
  | page count =>
    rw [run_bindValue]
    exact .inr ⟨_, rfl⟩
  | openChild base imports => exact .inr ⟨_, rfl⟩
  | close => exact .inl (leave_names context)
  | require _ _ | declare _ | retain _ | openNested => exact .inl rfl

/-- Whatever is issued by a run ends in a digit. -/
theorem endsInDigit_issued {events : List Event} {options : RenderOptions} {after : Context}
    {names : List String} (h : runAll events (.initial options) = .ok (names, after)) :
    ∀ name ∈ after.names.issued, Settings.endsInDigit name = true := by
  refine runAll_preserves (fun context => ∀ name ∈ context.names.issued,
    Settings.endsInDigit name = true) (fun hrun hissued => ?_) h (List.forall_mem_nil _)
  rcases names_run hrun with hsame | ⟨stem, hnew⟩
  · rwa [hsame]
  · rw [hnew, Names.allocate_issued]
    exact List.forall_mem_cons.mpr ⟨Names.endsInDigit_numbered stem _, hissued⟩

end Event

/-- A name that the settings allow does not end in a digit. -/
theorem Settings.endsInDigit_of_checkPrefix {field value : String}
    (h : checkPrefix field value = .ok ()) : endsInDigit value = false := by
  unfold checkPrefix at h
  split at h
  · simp at h
  · split at h <;> simp_all

/-- Everything that is printed has a plain name of its own, and the rows of the table belong to what
is printed. The root has a fixed name. -/
structure Query.NamedApart (query : Query) (printed : Fragment) (naming : Naming)
    (root : Variable) : Prop where
  text : query.text = printed.text
  rows : ∀ row ∈ query.params, ∃ handle ∈ printed.handles, naming.row? handle = some row
  plain : ∀ handle ∈ printed.handles, Identifier.isPlain (naming.name handle) = true
  plainRows : ∀ row ∈ query.params, Identifier.isPlain row.1 = true
  distinct : ∀ handle ∈ printed.handles, ∀ other ∈ printed.handles,
    naming.name handle = naming.name other → handle = other
  rooted : .var root ∈ printed.handles
  /-- No name that is chosen in any scope is that of the root. -/
  others : ∀ handle ∈ printed.handles, handle.isGenerated →
    naming.name handle ≠ naming.name (.var root)

/-- The name of a row is that of its handle. -/
theorem Naming.name_of_row? {naming : Naming} {handle : Handle} {row : String × Json}
    (h : naming.row? handle = some row) : naming.name handle = row.1 := by
  cases handle with
  | var v => cases h
  | param p => exact congrArg Prod.fst (Option.some.inj h)
  | page number count => exact congrArg Prod.fst (Option.some.inj h)

/-- A handle whose name is fixed is the root, if no other variable has a fixed name. -/
theorem Handle.eq_root {events : List Event} {root : Variable} {handle : Handle} {first : Nat}
    (hfixed : ∀ v, .name v ∈ events → v.name = none ∨ v = root)
    (hhandle : handle ∈ handles first events) (h : handle.isGenerated = false) :
    handle = .var root := by
  cases handle with
  | var v =>
    rcases hfixed v (name_mem_of_mem_handles hhandle) with hfree | rfl
    · simp [Handle.isGenerated, hfree] at h
    · rfl
  | param p => simp [Handle.isGenerated] at h
  | page number count => simp [Handle.isGenerated] at h

namespace Statement

section Run

variable {statement : Statement} {options : RenderOptions} {naming : Naming}
  {pageNames : List String} {after : Context} {root : Variable} {rootName : String}
  (hrun : runAll statement.events (.initial options) = .ok (pageNames, after))
  (hagrees : naming.Agrees after) (hpages : naming.AgreesFrom 0 pageNames)

include hrun hagrees hpages

/-- Names that are chosen end in a digit, so a name that does not is none of them. -/
theorem name_ne_root (hroot : root.name = some rootName)
    (hdigit : Settings.endsInDigit rootName = false) {handle : Handle}
    (hhandle : handle ∈ handles 0 statement.events) (hgenerated : handle.isGenerated = true) :
    naming.name handle ≠ naming.name (.var root) := by
  intro heq
  have hissued := issued_of_isGenerated hrun hagrees hpages
    (by rwa [handles_print]) hgenerated
  have hends := endsInDigit_issued hrun _ hissued
  have hname : naming.name (.var root) = rootName := by simp [Naming.name, hroot]
  rw [heq, hname, hdigit] at hends
  contradiction

/-- No two handles have the same name if the root is the only one whose name is fixed. -/
theorem eq_of_name_eq (hfixed : ∀ v, .name v ∈ statement.events → v.name = none ∨ v = root)
    (hroot : root.name = some rootName) (hdigit : Settings.endsInDigit rootName = false)
    {handle other : Handle} (hhandle : handle ∈ handles 0 statement.events)
    (hother : other ∈ handles 0 statement.events)
    (heq : naming.name handle = naming.name other) : handle = other := by
  cases hfirst : handle.isGenerated with
  | true =>
    cases hsecond : other.isGenerated with
    | true =>
      exact eq_of_generated_name_eq hrun hagrees hpages hhandle hother hfirst hsecond heq
    | false =>
      rw [Handle.eq_root hfixed hother hsecond] at heq
      exact absurd heq (name_ne_root hrun hagrees hpages hroot hdigit hhandle hfirst)
  | false =>
    have hleft := Handle.eq_root hfixed hhandle hfirst
    cases hsecond : other.isGenerated with
    | true =>
      rw [hleft] at heq
      exact absurd heq.symm (name_ne_root hrun hagrees hpages hroot hdigit hother hsecond)
    | false => rw [hleft, Handle.eq_root hfixed hother hsecond]

/-- The rows of the table are those of what is printed. -/
theorem row_of_mem_params {row : String × Json} (hrow : row ∈ after.params) :
    ∃ handle ∈ handles 0 statement.events, naming.row? handle = some row := by
  have hgains := gains_runAll hrun hagrees hpages
  rw [hgains.params] at hrow
  obtain ⟨handle, hhandle, hrow⟩ := List.mem_filterMap.mp hrow
  exact ⟨handle, (List.mem_filter.mp (List.mem_eraseDups.mp hhandle)).1, hrow⟩

end Run

/-- The names of a query do not collide if its only fixed name does not end in a digit. -/
theorem namedApart_of_build {statement : Statement} {options : RenderOptions} {query : Query}
    {root : Variable} {rootName : String} (hoptions : options.Plain)
    (hevents : ∀ event ∈ statement.events, event.Plain)
    (hfixed : ∀ v, .name v ∈ statement.events → v.name = none ∨ v = root)
    (hroot : root.name = some rootName) (hdigit : Settings.endsInDigit rootName = false)
    (hrooted : .var root ∈ handles 0 statement.events)
    (hbuild : statement.build options = .ok query) :
    ∃ naming, query.NamedApart (statement.print options.indentWidth naming 0) naming root := by
  obtain ⟨pageNames, after, hrun, htext, hparams⟩ := printed_of_build hbuild
  have hagrees := after.naming_agrees pageNames
  have hpages := after.naming_agreesFrom pageNames
  have hplain := isPlain_name hoptions hevents hrun hagrees hpages
  have hhandles := statement.handles_print options.indentWidth (after.naming pageNames) 0
  refine ⟨after.naming pageNames, ?_⟩
  constructor
  case text => exact htext
  case plain => exact hplain
  case rooted => rwa [hhandles]
  case rows =>
    intro row hrow
    rw [hparams] at hrow
    rw [hhandles]
    exact row_of_mem_params hrun hagrees hpages hrow
  case plainRows =>
    intro row hrow
    rw [hparams] at hrow
    obtain ⟨handle, hhandle, hof⟩ := row_of_mem_params hrun hagrees hpages hrow
    rw [← Naming.name_of_row? hof]
    exact hplain handle (hhandles ▸ hhandle)
  case distinct =>
    intro handle hhandle other hother
    rw [hhandles] at hhandle hother
    exact eq_of_name_eq hrun hagrees hpages hfixed hroot hdigit hhandle hother
  case others =>
    intro handle hhandle
    rw [hhandles] at hhandle
    exact name_ne_root hrun hagrees hpages hroot hdigit hhandle

end Statement

namespace Read

/-- For valid settings, the names in a query are plain and do not collide. -/
theorem query_names_apart {schema : Schema} {name : String} {wanted : Request}
    {settings : Settings} (hsettings : settings.validate = .ok ()) {result : Query}
    (h : query schema name wanted settings = .ok result) :
    ∃ node statement naming, schema.node? name = some node ∧
      Read.statement schema name wanted settings = .ok statement ∧
      result.NamedApart (statement.print settings.indentWidth naming 0) naming
        (.namedNode 0 settings.variablePrefix node.labels) := by
  obtain ⟨s, hs, h⟩ := FilterReader.bind_eq_ok h
  have hoptions := Settings.plain_of_validate hsettings
  obtain ⟨-, hvariable, -⟩ := Settings.checks_of_validate hsettings
  obtain ⟨node, clauses, projection, hnode, -, hshape⟩ := statement_eq_ok hs
  have hclean := clean_of_statement hoptions.ofVariable hs
  have hfixed : s.Clean fun v => v.name = none ∨
      v = .namedNode 0 settings.variablePrefix node.labels := by
    refine clean_of_root (fun _ hfree => .inl hfree) (fun other hother => .inr ?_) hs
    obtain rfl : node = other := Option.some.inj (hnode.symm.trans hother)
    rfl
  have hrooted : .var (.namedNode 0 settings.variablePrefix node.labels) ∈
      Event.handles 0 s.events := by
    rw [hshape]
    exact List.mem_cons_self
  obtain ⟨naming, hnaming⟩ := Statement.namedApart_of_build hoptions hclean.plain
    (fun v hv => hfixed.named _ hv) rfl (Settings.endsInDigit_of_checkPrefix hvariable) hrooted
    (Plan.eq_ok_of_mapError h)
  exact ⟨node, s, naming, hnode, hs, hnaming⟩

/-- Settings in which one prefix is used twice, and another one looks like a name of the first. -/
def overlappingSettings : Settings := { paramPrefix := "this", valuePrefix := "this0_this" }

/-- Such settings are allowed, and the names of the query are still kept apart. -/
theorem overlapping_names_apart :
    overlappingSettings.validate = .ok () ∧
      ∃ result, query hostileSchema "Film" hostileRequest overlappingSettings = .ok result ∧
        ∃ node statement naming, hostileSchema.node? "Film" = some node ∧
          Read.statement hostileSchema "Film" hostileRequest overlappingSettings = .ok statement ∧
          result.NamedApart (statement.print overlappingSettings.indentWidth naming 0) naming
            (.namedNode 0 overlappingSettings.variablePrefix node.labels) := by
  have hsettings : overlappingSettings.validate = .ok () := by decide +kernel
  have hok : (query hostileSchema "Film" hostileRequest overlappingSettings).isOk = true := by
    decide +kernel
  cases hquery : query hostileSchema "Film" hostileRequest overlappingSettings with
  | error error => simp [hquery, Except.isOk, Except.toBool] at hok
  | ok result => exact ⟨hsettings, result, rfl, query_names_apart hsettings hquery⟩

end Read

end GraphRead
